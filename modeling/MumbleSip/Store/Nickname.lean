import MumbleSip.Store.Callers

/-!
# The nickname of a caller

A row never loses its nickname, so every call that reads a row returns what the table keeps. A call that
found no row returns the nickname it has made up, whether its `INSERT` creates the row or meets the row
of another first call.
-/

namespace MumbleSip

open Transition

namespace CallerStore

variable {s : CallerStore} {i : Nat}

/-- A call has returned a new caller with this phone number. -/
def Created (s : CallerStore) (i : Nat) (phone : String) : Prop :=
  ∃ info, (s.lookups i).pc = .returned info ∧ info.isNew = true ∧ (s.lookups i).phoneNumber = phone

/-- No `INSERT` meets a row of its phone number. -/
def insertSafe (s : CallerStore) : StoreAction → Bool
  | .insert i => (s.callers.lookup (s.lookups i).phoneNumber).isNone
  | _ => true

/-! ### The invariant -/

/-- What a call knows of the table, from the statement it has reached. -/
def Knows (callers : Callers) (lookup : CallerLookup) : CallerPc → Prop
  | .update found => callers.nickname lookup.phoneNumber = some found.nickname
  | .returned info => info.phoneNumber = lookup.phoneNumber ∧
      callers.nickname lookup.phoneNumber = some info.nickname
  | _ => True

structure Agreed (s : CallerStore) : Prop where
  knows : ∀ i, Knows s.callers (s.lookups i) (s.lookups i).pc
  once : ∀ i j phone, s.Created i phone → s.Created j phone → i = j
  creating : ∀ i, (s.lookups i).pc.creating = true →
    s.callers.nickname (s.lookups i).phoneNumber = none ∨
      ∃ j, s.Created j (s.lookups i).phoneNumber

theorem agreed_initial (h : ∀ i, (s.lookups i).pc = .unstarted) : s.Agreed where
  knows i := by
    rw [h i]
    trivial
  once i j phone hi hj := by
    obtain ⟨info, hpc, _⟩ := hi
    rw [h i] at hpc
    cases hpc
  creating i hi := by
    rw [h i] at hi
    cases hi

theorem Knows.mono {callers callers' : Callers} {lookup : CallerLookup} {pc : CallerPc}
    (h : Knows callers lookup pc) (hkeep : ∀ phone name, callers.nickname phone = some name →
      callers'.nickname phone = some name) : Knows callers' lookup pc := by
  cases pc with
  | update found => exact hkeep _ _ h
  | returned info => exact ⟨h.1, hkeep _ _ h.2⟩
  | _ => trivial

theorem created_of_ne {callers : Callers} {lookup : CallerLookup} {j : Nat} {phone : String} (hne : j ≠ i) :
    Created ⟨callers, Function.update s.lookups i lookup⟩ j phone ↔ s.Created j phone := by
  simp only [Created, Function.update_of_ne hne]

theorem not_created (hpc : ∀ info, (s.lookups i).pc ≠ .returned info) (phone : String) :
    ¬s.Created i phone := by
  intro hcreated
  obtain ⟨info, hret, _⟩ := hcreated
  exact hpc info hret

theorem Agreed.setLookup (h : s.Agreed) (hpc : ∀ info, (s.lookups i).pc ≠ .returned info)
    {callers : Callers} (hsame : ∀ phone, callers.nickname phone = s.callers.nickname phone)
    {lookup : CallerLookup} (hknows : Knows callers lookup lookup.pc)
    (hnew : ∀ info, lookup.pc = .returned info → info.isNew = false)
    (hcreating : lookup.pc.creating = true → callers.nickname lookup.phoneNumber = none ∨
      ∃ j, s.Created j lookup.phoneNumber) :
    Agreed ⟨callers, Function.update s.lookups i lookup⟩ := by
  have hcreated : ∀ j phone, Created ⟨callers, Function.update s.lookups i lookup⟩ j phone ↔
      s.Created j phone := by
    intro j phone
    by_cases hj : j = i
    · subst j
      refine ⟨fun hcreated => ?_, fun hcreated => absurd hcreated (not_created hpc phone)⟩
      obtain ⟨info, hret, hisnew, _⟩ := hcreated
      simp only [Function.update_self] at hret
      rw [hnew info hret] at hisnew
      cases hisnew
    · exact created_of_ne hj
  refine ⟨fun j => ?_, fun j j' phone hj hj' => ?_, fun j hj => ?_⟩
  · by_cases heq : j = i
    · simp only [heq, Function.update_self]
      exact hknows
    · simp only [Function.update_of_ne heq]
      exact (h.knows j).mono fun phone name hname => (hsame phone).trans hname
  · exact h.once j j' phone ((hcreated j phone).1 hj) ((hcreated j' phone).1 hj')
  · simp only [hcreated]
    by_cases heq : j = i
    · simp only [heq, Function.update_self] at hj ⊢
      exact hcreating hj
    · simp only [Function.update_of_ne heq] at hj ⊢
      rw [hsame]
      exact h.creating j hj

theorem insert_eq {nickname : String} (hpc : (s.lookups i).pc = .insert nickname) :
    s.insert i = ⟨s.callers.insertCaller (s.lookups i).phoneNumber nickname (s.lookups i).now,
      Function.update s.lookups i
        { s.lookups i with
          pc := .returned ⟨(s.lookups i).phoneNumber, nickname, (s.lookups i).now.toUInt64, true⟩ }⟩ := by
  simp only [insert, hpc]
  rfl

/-- Whatever it meets, the `INSERT` returns a new caller. -/
theorem created_insert (hpc : (s.lookups i).pc.isInsert = true) :
    (s.insert i).Created i (s.lookups i).phoneNumber := by
  cases hinsert : (s.lookups i).pc with
  | insert nickname =>
    rw [insert_eq hinsert]
    refine ⟨⟨(s.lookups i).phoneNumber, nickname, (s.lookups i).now.toUInt64, true⟩, ?_, rfl, ?_⟩ <;>
      simp only [Function.update_self]
  | _ =>
    rw [hinsert] at hpc
    cases hpc

theorem Agreed.insertRow (h : s.Agreed) {nickname : String} (hpc : (s.lookups i).pc = .insert nickname)
    (hnone : s.callers.nickname (s.lookups i).phoneNumber = none) : (s.insert i).Agreed := by
  have hself := created_insert (s := s) (i := i) (by rw [hpc]; rfl)
  have hnot : ∀ phone, ¬s.Created i phone := by
    apply not_created
    intro info hret
    rw [hpc] at hret
    cases hret
  -- a new caller has a row
  have hfirst : ∀ j, ¬s.Created j (s.lookups i).phoneNumber := by
    intro j hcreated
    obtain ⟨info, hret, _, hphone⟩ := hcreated
    have hknows := h.knows j
    rw [hret] at hknows
    rw [← hphone, hknows.2] at hnone
    cases hnone
  rw [insert_eq hpc] at hself ⊢
  refine ⟨fun j => ?_, fun j j' phone hj hj' => ?_, fun j hj => ?_⟩
  · by_cases heq : j = i
    · simp only [heq, Function.update_self]
      refine ⟨rfl, ?_⟩
      rw [Callers.nickname_insertCaller, if_pos rfl, hnone, Option.getD_none]
    · simp only [Function.update_of_ne heq]
      apply (h.knows j).mono
      intro phone name hname
      rw [Callers.nickname_insertCaller, if_neg]
      · exact hname
      · intro hphone
        rw [hphone, hnone] at hname
        cases hname
  · by_cases heq : j = i <;> by_cases heq' : j' = i
    · rw [heq, heq']
    · subst j
      obtain ⟨_, _, _, hphone⟩ := hj
      obtain ⟨_, _, _, hphone'⟩ := hself
      rw [created_of_ne heq', ← hphone, hphone'] at hj'
      exact absurd hj' (hfirst j')
    · subst j'
      obtain ⟨_, _, _, hphone⟩ := hj'
      obtain ⟨_, _, _, hphone'⟩ := hself
      rw [created_of_ne heq, ← hphone, hphone'] at hj
      exact absurd hj (hfirst j)
    · exact h.once j j' phone ((created_of_ne heq).1 hj) ((created_of_ne heq').1 hj')
  · by_cases heq : j = i
    · simp only [heq, Function.update_self] at hj
      cases hj
    · simp only [Function.update_of_ne heq] at hj ⊢
      rw [Callers.nickname_insertCaller]
      split
      · rename_i hphone
        rw [hphone]
        exact .inr ⟨i, hself⟩
      · apply (h.creating j hj).imp_right
        intro hcreated
        obtain ⟨j', hj'⟩ := hcreated
        have hne : j' ≠ i := fun heq => hnot _ (heq ▸ hj')
        exact ⟨j', (created_of_ne hne).2 hj'⟩

theorem Agreed.next (h : s.Agreed) {a : StoreAction} (hen : s.enabled a) (hsafe : s.insertSafe a = true) :
    (s.next a).Agreed := by
  cases a with
  | call i phone now =>
    refine h.setLookup (i := i) (fun info hret => ?_) (fun _ => rfl) trivial (fun _ h => by cases h)
      (fun h => by cases h)
    rw [show (s.lookups i).pc = .unstarted from hen] at hret
    cases hret
  | select i =>
    have hpc : ∀ info, (s.lookups i).pc ≠ .returned info := by
      intro info hret
      rw [show (s.lookups i).pc = .select from hen] at hret
      cases hret
    simp only [CallerStore.next, select]
    cases hrow : s.callers.lookup (s.lookups i).phoneNumber with
    | none =>
      refine h.setLookup hpc (fun _ => rfl) trivial (fun _ h => by cases h) fun _ => .inl ?_
      rw [Callers.nickname, hrow]
      rfl
    | some row =>
      refine h.setLookup hpc (fun _ => rfl) ?_ (fun _ h => by cases h) (fun h => by cases h)
      show s.callers.nickname _ = _
      rw [Callers.nickname, hrow]
      rfl
  | update i =>
    cases hpc : (s.lookups i).pc with
    | update found =>
      simp only [CallerStore.next, update, hpc]
      have hknows := h.knows i
      rw [hpc] at hknows
      refine h.setLookup (fun info hret => ?_) (Callers.nickname_updateLastSeen _ _ _) ⟨rfl, ?_⟩ ?_
        (fun h => by cases h)
      · rw [hpc] at hret
        cases hret
      · exact (Callers.nickname_updateLastSeen _ _ _ _).trans hknows
      · intro info hret
        cases hret
        rfl
    | _ =>
      simp only [enabled, hpc] at hen
      cases hen
  | candidate i name =>
    have hpc : (s.lookups i).pc = .generate := hen
    simp only [CallerStore.next, candidate]
    split
    · exact h
    · refine h.setLookup (fun info hret => ?_) (fun _ => rfl) trivial (fun _ h => by cases h) fun _ => ?_
      · rw [hpc] at hret
        cases hret
      · exact h.creating i (by rw [hpc]; rfl)
  | insert i =>
    cases hpc : (s.lookups i).pc with
    | insert nickname =>
      apply h.insertRow hpc
      rw [Callers.nickname, Option.isNone_iff_eq_none.1 hsafe]
      rfl
    | _ =>
      simp only [enabled, hpc] at hen
      cases hen
  | fail i =>
    refine h.setLookup (fun info hret => ?_) (fun _ => rfl) trivial (fun _ h => by cases h)
      (fun h => by cases h)
    simp only [enabled, hret] at hen
    cases hen

/-- An `INSERT` that meets a row makes a second new caller of one phone number. -/
theorem Agreed.created_twice (h : s.Agreed) (hen : s.enabled (.insert i))
    (hbroken : ¬s.insertSafe (.insert i) = true) :
    ∃ j ≠ i, (s.next (.insert i)).Created i (s.lookups i).phoneNumber ∧
      (s.next (.insert i)).Created j (s.lookups i).phoneNumber := by
  cases hpc : (s.lookups i).pc with
  | insert nickname =>
    rcases h.creating i (by rw [hpc]; rfl) with hnone | ⟨j, hj⟩
    · rw [Callers.nickname, Option.map_eq_none_iff] at hnone
      exact absurd (Option.isNone_iff_eq_none.2 hnone) hbroken
    · have hne : j ≠ i := by
        rintro rfl
        obtain ⟨info, hret, _⟩ := hj
        rw [hpc] at hret
        cases hret
      refine ⟨j, hne, created_insert hen, ?_⟩
      show (s.insert i).Created j _
      rw [insert_eq hpc]
      exact (created_of_ne hne).2 hj
  | _ =>
    simp only [enabled, hpc] at hen
    cases hen

end CallerStore

/-- The steps of a run in which no `INSERT` meets a row of its phone number. -/
def insertsRows (s : CallerStore) (a : StoreAction) : Prop := s.insertSafe a = true

instance (s : CallerStore) (a : StoreAction) : Decidable (insertsRows s a) :=
  inferInstanceAs (Decidable (_ = _))

theorem reaches_agreed {s : CallerStore} (hs : callerStore.Reaches insertsRows s) : s.Agreed :=
  hs.invariant (fun _ hinit => CallerStore.agreed_initial hinit) fun _ _ _ h hen hok => h.next hen hok

/-- Every call that has returned has the nickname stored for its phone number, and so have all calls of that
number; one of them at most has made a new caller. The first `INSERT` to meet a row makes a second one. -/
theorem nicknames_agree {s : CallerStore} (hs : callerStore.Reaches insertsRows s) :
    (∀ i info, (s.lookups i).pc = .returned info → info.phoneNumber = (s.lookups i).phoneNumber ∧
      s.callers.nickname info.phoneNumber = some info.nickname) ∧
    (∀ i j info info', (s.lookups i).pc = .returned info → (s.lookups j).pc = .returned info' →
      info.phoneNumber = info'.phoneNumber → info.nickname = info'.nickname ∧
        (info.isNew = true → info'.isNew = true → i = j)) ∧
    ∀ i, s.enabled (.insert i) → ¬insertsRows s (.insert i) →
      ∃ j ≠ i, (s.next (.insert i)).Created i (s.lookups i).phoneNumber ∧
        (s.next (.insert i)).Created j (s.lookups i).phoneNumber := by
  have h := reaches_agreed hs
  have hreturned : ∀ i info, (s.lookups i).pc = .returned info →
      info.phoneNumber = (s.lookups i).phoneNumber ∧
        s.callers.nickname info.phoneNumber = some info.nickname := by
    intro i info hret
    have hknows := h.knows i
    rw [hret] at hknows
    exact ⟨hknows.1, by rw [hknows.1]; exact hknows.2⟩
  refine ⟨hreturned, fun i j info info' hi hj hphone => ⟨?_, fun hnew hnew' => ?_⟩,
    fun i hen hbroken => h.created_twice hen hbroken⟩
  · have hname := (hreturned i info hi).2
    rw [hphone, (hreturned j info' hj).2] at hname
    exact (Option.some.inj hname).symm
  · refine h.once i j info.phoneNumber ⟨info, hi, hnew, (hreturned i info hi).1.symm⟩
      ⟨info', hj, hnew', ?_⟩
    rw [hphone]
    exact (hreturned j info' hj).1.symm

/-- A first call and a second one. -/
theorem nicknames_agree_second_call : ∃ s, callerStore.Reaches insertsRows s ∧
    (s.lookups 1).pc = .returned ⟨"5551234567", "relaxed_babbage", 1000, false⟩ ∧
    s.callers.nickname "5551234567" = some "relaxed_babbage" := by
  obtain ⟨s, hs, hP⟩ := System.exists_reaches_of_run callerStore insertsRows (s := emptyStore)
    (fun _ => rfl)
    [.call 0 "5551234567" 1000, .select 0, .candidate 0 "relaxed-babbage", .insert 0,
      .call 1 "5551234567" 2000, .select 1, .update 1]
    (fun s => (s.lookups 1).pc = .returned ⟨"5551234567", "relaxed_babbage", 1000, false⟩)
    (by decide +kernel)
  have hret := of_decide_eq_true hP
  exact ⟨s, hs, hret, ((nicknames_agree hs).1 1 _ hret).2⟩

/-- Two first calls from one number both find no row; the second `INSERT` keeps the nickname of the first,
and its call returns another one. -/
theorem nicknames_disagree : ¬∀ s, callerStore.Reachable s →
    (∀ i info, (s.lookups i).pc = .returned info →
      s.callers.nickname info.phoneNumber = some info.nickname) ∧
    (∀ i j info info', (s.lookups i).pc = .returned info → (s.lookups j).pc = .returned info' →
      info.phoneNumber = info'.phoneNumber → info.nickname = info'.nickname ∧
        (info.isNew = true → info'.isNew = true → i = j)) := by
  intro hclaim
  obtain ⟨s, hs, hP⟩ := System.exists_reaches_of_run callerStore System.anyStep (s := emptyStore)
    (fun _ => rfl)
    [.call 0 "5551234567" 1000, .call 1 "5551234567" 1000, .select 0, .select 1,
      .candidate 0 "relaxed-babbage", .candidate 1 "happy-turing", .insert 0, .insert 1]
    (fun s => (s.lookups 1).pc = .returned ⟨"5551234567", "happy_turing", 1000, true⟩ ∧
      s.callers.nickname "5551234567" = some "relaxed_babbage") (by decide +kernel)
  obtain ⟨hret, hstored⟩ := of_decide_eq_true hP
  have := (hclaim s hs).1 1 _ hret
  rw [hstored] at this
  exact absurd this (by decide)

end MumbleSip
