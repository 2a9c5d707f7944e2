import MumbleSip.Store.Callers

/-!
# Unique nicknames

The column `nickname` has no `UNIQUE` constraint: that no two callers share a nickname rests on the
`SELECT` each first call makes before its `INSERT`. Between the two another first call may store the same
name.
-/

namespace MumbleSip

open Transition

namespace Callers

/-- No two phone numbers have one nickname. -/
def Distinct (callers : Callers) : Prop :=
  ∀ phone phone' name, callers.nickname phone = some name → callers.nickname phone' = some name →
    phone = phone'

theorem conflict_iff {callers : Callers} {name : String} :
    callers.conflict name = true ↔ ∃ phone, callers.nickname phone = some name := by
  simp only [conflict, List.any_eq_true, FiniteMap.mem_values, decide_eq_true_eq, nickname,
    Option.map_eq_some_iff]
  constructor
  · rintro ⟨row, ⟨phone, hrow⟩, hname⟩
    exact ⟨phone, row, hrow, hname⟩
  · rintro ⟨phone, row, hrow, hname⟩
    exact ⟨row, ⟨phone, hrow⟩, hname⟩

end Callers

namespace CallerStore

variable {s : CallerStore} {i : Nat}

/-- Two calls are about to store one nickname, for two numbers without a row. -/
structure Rivals (s : CallerStore) (i j : Nat) (nickname : String) : Prop where
  first : (s.lookups i).pc = .insert nickname
  second : (s.lookups j).pc = .insert nickname
  apart : (s.lookups i).phoneNumber ≠ (s.lookups j).phoneNumber
  firstNew : s.callers.nickname (s.lookups i).phoneNumber = none
  secondNew : s.callers.nickname (s.lookups j).phoneNumber = none

/-- The nickname that a call is about to store for a number without a row is still the one its `SELECT` found
free. -/
structure Vetted (s : CallerStore) : Prop where
  distinct : s.callers.Distinct
  vetted : ∀ i nickname, (s.lookups i).pc = .insert nickname →
    s.callers.nickname (s.lookups i).phoneNumber = none → s.callers.conflict nickname = false

theorem Vetted.setLookup (h : s.Vetted) {lookup : CallerLookup}
    (hpc : ∀ nickname, lookup.pc = .insert nickname → s.callers.conflict nickname = false) :
    (s.setLookup i lookup).Vetted := by
  refine ⟨h.distinct, ?_⟩
  intro j nickname hj hnew
  by_cases hne : j = i
  · subst j
    simp only [CallerStore.setLookup, Function.update_self] at hj
    exact hpc nickname hj
  · simp only [CallerStore.setLookup, Function.update_of_ne hne] at hj hnew
    exact h.vetted j nickname hj hnew

theorem Vetted.setCallers (h : s.Vetted) {callers : Callers}
    (hsame : ∀ phone, callers.nickname phone = s.callers.nickname phone) :
    Vetted { s with callers := callers } := by
  refine ⟨?_, ?_⟩
  · intro phone phone' name hname hname'
    rw [hsame] at hname hname'
    exact h.distinct phone phone' name hname hname'
  · intro j nickname hj hnew
    have hnew : callers.nickname (s.lookups j).phoneNumber = none := hnew
    rw [hsame] at hnew
    have hfree := h.vetted j nickname hj hnew
    by_contra hconflict
    obtain ⟨phone, hphone⟩ := Callers.conflict_iff.1 (Bool.eq_true_of_not_eq_false hconflict)
    rw [hsame] at hphone
    rw [Callers.conflict_iff.2 ⟨phone, hphone⟩] at hfree
    cases hfree

theorem distinct_insert (h : s.callers.Distinct) {nickname : String}
    (hpc : (s.lookups i).pc = .insert nickname)
    (hfree : s.callers.nickname (s.lookups i).phoneNumber = none → s.callers.conflict nickname = false) :
    (s.insert i).callers.Distinct := by
  cases hold : s.callers.nickname (s.lookups i).phoneNumber with
  | some old =>
    -- the row exists: every nickname stays
    have hsame : ∀ phone, (s.insert i).callers.nickname phone = s.callers.nickname phone := by
      intro phone
      rw [nickname_insert hpc, hold, Option.getD_some]
      split
      · rename_i hphone
        rw [hphone, hold]
      · rfl
    intro phone phone' name hname hname'
    rw [hsame] at hname hname'
    exact h phone phone' name hname hname'
  | none =>
    have hfresh : ∀ phone, s.callers.nickname phone ≠ some nickname := by
      intro phone hname
      have hno := hfree hold
      rw [Callers.conflict_iff.2 ⟨phone, hname⟩] at hno
      cases hno
    intro phone phone' name hname hname'
    rw [nickname_insert hpc, hold, Option.getD_none] at hname hname'
    split at hname <;> split at hname'
    · rename_i hphone hphone'
      rw [hphone, hphone']
    · rw [← Option.some.inj hname] at hname'
      exact absurd hname' (hfresh phone')
    · rw [← Option.some.inj hname'] at hname
      exact absurd hname (hfresh phone)
    · exact h phone phone' name hname hname'

theorem Vetted.insert (h : s.Vetted) {nickname : String} (hpc : (s.lookups i).pc = .insert nickname)
    (hrivals : ∀ j, ¬s.Rivals i j nickname) : (s.insert i).Vetted := by
  refine ⟨distinct_insert h.distinct hpc (h.vetted i nickname hpc), ?_⟩
  intro j name hj hnew
  have hne : j ≠ i := by
    rintro rfl
    simp only [CallerStore.insert, hpc, goto, CallerStore.setLookup, Function.update_self] at hj
    cases hj
  have hlookup : (s.insert i).lookups j = s.lookups j := by
    simp only [CallerStore.insert, hpc, goto, CallerStore.setLookup, Function.update_of_ne hne]
  rw [hlookup] at hj hnew
  rw [nickname_insert hpc] at hnew
  split at hnew
  · cases hnew
  · rename_i hphone
    have hfree := h.vetted j name hj hnew
    by_contra hconflict
    obtain ⟨phone, hname⟩ := Callers.conflict_iff.1 (Bool.eq_true_of_not_eq_false hconflict)
    rw [nickname_insert hpc] at hname
    have hstored : ∀ phone', s.callers.nickname phone' ≠ some name := by
      intro phone' hname'
      rw [Callers.conflict_iff.2 ⟨phone', hname'⟩] at hfree
      cases hfree
    split at hname
    · cases hold : s.callers.nickname (s.lookups i).phoneNumber with
      | some old =>
        rw [hold, Option.getD_some] at hname
        exact hstored _ (hold.trans hname)
      | none =>
        -- the row is new, and `j` is about to store the same nickname
        rw [hold, Option.getD_none] at hname
        rw [← Option.some.inj hname] at hj
        exact hrivals j ⟨hpc, hj, fun heq => hphone heq.symm, hold, hnew⟩
    · exact hstored phone hname

/-- No two calls are about to store one nickname for numbers without a row when one of them stores it. -/
def unrivalled (s : CallerStore) : StoreAction → Prop
  | .insert i => ∀ j nickname, ¬s.Rivals i j nickname
  | _ => True

theorem Vetted.next (h : s.Vetted) {a : StoreAction} (hen : s.enabled a) (hsafe : s.unrivalled a) :
    (s.next a).Vetted := by
  cases a with
  | call i phoneNumber now => exact h.setLookup (fun _ h => by cases h)
  | select i =>
    simp only [CallerStore.next, CallerStore.select]
    split <;> exact h.setLookup (fun _ h => by cases h)
  | update i =>
    simp only [CallerStore.next, CallerStore.update]
    split
    · refine Vetted.setLookup (h.setCallers ?_) (fun _ h => by cases h)
      exact Callers.nickname_updateLastSeen _ _ _
    · exact h
  | candidate i name =>
    simp only [CallerStore.next, CallerStore.candidate]
    split
    · exact h
    · rename_i hfree
      apply h.setLookup
      intro nickname hpc
      rw [← CallerPc.insert.inj hpc]
      exact Bool.eq_false_of_not_eq_true hfree
  | insert i =>
    cases hpc : (s.lookups i).pc with
    | insert nickname => exact h.insert hpc fun j => hsafe j nickname
    | _ =>
      simp only [enabled, hpc] at hen
      cases hen
  | fail i => exact h.setLookup (fun _ h => by cases h)

/-- When one of two rivals has stored the nickname, the other one stores it too. -/
theorem Rivals.shared {j : Nat} {nickname : String} (h : s.Rivals i j nickname) :
    (s.insert i).enabled (.insert j) ∧
      ((s.insert i).insert j).callers.nickname (s.lookups i).phoneNumber = some nickname ∧
      ((s.insert i).insert j).callers.nickname (s.lookups j).phoneNumber = some nickname := by
  have hne : j ≠ i := by
    rintro rfl
    exact h.apart rfl
  have hlookup : (s.insert i).lookups j = s.lookups j := by
    simp only [CallerStore.insert, h.first, goto, CallerStore.setLookup, Function.update_of_ne hne]
  have hpc : ((s.insert i).lookups j).pc = .insert nickname := by
    rw [hlookup]
    exact h.second
  refine ⟨?_, ?_, ?_⟩
  · show ((s.insert i).lookups j).pc.isInsert = true
    rw [hpc]
    rfl
  · rw [nickname_insert hpc, hlookup, if_neg h.apart, nickname_insert h.first, if_pos rfl, h.firstNew,
      Option.getD_none]
  · rw [nickname_insert hpc, hlookup, if_pos rfl, nickname_insert h.first, if_neg h.apart.symm, h.secondNew,
      Option.getD_none]

end CallerStore

/-- The store, from an empty table. -/
def newCallerStore : System CallerStore StoreAction :=
  { callerStore with init := fun s => s.callers = ∅ ∧ callerStore.init s }

instance (s : CallerStore) (a : StoreAction) : Decidable (newCallerStore.enabled s a) :=
  inferInstanceAs (Decidable (s.enabled a))

/-- The stored nicknames are pairwise distinct. Where a nickname is stored that another first call is about to
store, that call can store it too, and then two phone numbers share it for good. -/
theorem nicknames_distinct {s : CallerStore} (hs : newCallerStore.Reaches CallerStore.unrivalled s) :
    s.callers.Distinct ∧
      ∀ i, ¬s.unrivalled (.insert i) → ∃ j, (s.next (.insert i)).enabled (.insert j) ∧
        ∀ s', (newCallerStore.startingAt ((s.next (.insert i)).next (.insert j))).Reachable s' →
          ¬s'.callers.Distinct := by
  have h : s.Vetted := by
    apply hs.invariant (I := CallerStore.Vetted)
    · rintro s ⟨hempty, hunstarted⟩
      refine ⟨?_, ?_⟩
      · intro phone _ name hname _
        rw [hempty] at hname
        cases hname
      · intro i nickname hpc
        rw [hunstarted i] at hpc
        cases hpc
    · intro s a _ h hen hsafe
      exact h.next hen hsafe
  refine ⟨h.distinct, fun i hbroken => ?_⟩
  simp only [CallerStore.unrivalled, not_forall, not_not] at hbroken
  obtain ⟨j, nickname, hrivals⟩ := hbroken
  obtain ⟨hen, hfirst, hsecond⟩ := hrivals.shared
  refine ⟨j, hen, fun s' hs' hdistinct => ?_⟩
  have hstored : s'.callers.nickname (s.lookups i).phoneNumber = some nickname ∧
      s'.callers.nickname (s.lookups j).phoneNumber = some nickname := by
    refine hs'.stable (P := fun s' => s'.callers.nickname (s.lookups i).phoneNumber = some nickname ∧
      s'.callers.nickname (s.lookups j).phoneNumber = some nickname) ⟨hfirst, hsecond⟩ ?_
    intro s' a h hen _
    exact ⟨CallerStore.nickname_next hen h.1, CallerStore.nickname_next hen h.2⟩
  exact hrivals.apart (hdistinct _ _ _ hstored.1 hstored.2)

/-- Two first calls at once, which draw different names. -/
theorem nicknames_distinct_two_calls : ∃ s, newCallerStore.Reaches CallerStore.unrivalled s ∧
    s.callers.nickname "5551111111" = some "relaxed_babbage" ∧
    s.callers.nickname "5552222222" = some "happy_turing" ∧ s.callers.Distinct := by
  have hinit : newCallerStore.Reaches CallerStore.unrivalled emptyStore := .init ⟨rfl, fun _ => rfl⟩
  have hcalled := (hinit.step (a := .call 0 "5551111111" 1000) (by decide) (by trivial)).step
    (a := .call 1 "5552222222" 1000) (by decide) (by trivial)
  have hselected := (hcalled.step (a := .select 0) (by decide) (by trivial)).step (a := .select 1)
    (by decide) (by trivial)
  have hfound := (hselected.step (a := .candidate 0 "relaxed-babbage") (by decide) (by trivial)).step
    (a := .candidate 1 "happy-turing") (by decide) (by trivial)
  have hdraws : generateNickname "relaxed-babbage" ≠ generateNickname "happy-turing" := by decide +kernel
  have hstored := hfound.step (a := .insert 0) (by decide) (by
    intro j nickname h
    rcases j with _ | _ | j
    · exact h.apart rfl
    · exact hdraws (CallerPc.insert.inj (h.first.trans h.second.symm))
    · cases h.second)
  have hboth := hstored.step (a := .insert 1) (by decide) (by
    intro j nickname h
    rcases j with _ | _ | j
    · cases h.second
    · exact h.apart rfl
    · cases h.second)
  exact ⟨_, hboth, by decide +kernel, by decide +kernel, (nicknames_distinct hboth).1⟩

/-- Two first calls draw one name, both find it free, and both store it. -/
theorem nickname_shared : ¬∀ s, newCallerStore.Reachable s → s.callers.Distinct := by
  intro hclaim
  obtain ⟨s, hs, hP⟩ := System.exists_reaches_of_run newCallerStore System.anyStep (s := emptyStore)
    ⟨rfl, fun _ => rfl⟩
    [.call 0 "5551111111" 1000, .call 1 "5552222222" 1000, .select 0, .select 1,
      .candidate 0 "relaxed-babbage", .candidate 1 "relaxed-babbage", .insert 0, .insert 1]
    (fun s => s.callers.nickname "5551111111" = some "relaxed_babbage" ∧
      s.callers.nickname "5552222222" = some "relaxed_babbage")
    (by decide +kernel)
  obtain ⟨hfirst, hsecond⟩ := of_decide_eq_true hP
  exact absurd (hclaim s hs _ _ _ hfirst hsecond) (by decide)

end MumbleSip
