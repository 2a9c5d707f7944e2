import MumbleSip.Session.Handover
import Mathlib.Data.Finset.Filter
import Mathlib.Data.Finset.Range

/-!
# The concurrency limit

The admission check counts `sessions` and `pending_setups`. A task it lets through is in neither map until
it has registered, and again between the two maps, so the check is sound as far as no such task is
missed. With pairwise distinct call ids the calls that count are exactly the entries of the two maps and
these tasks.
-/

namespace MumbleSip

open Transition

/-- Past the admission check and in neither map. -/
def SetupPc.unlisted : SetupPc → Bool
  | .lookup | .registerPort | .registerReady | .drawGeneration | .registerPending
  | .checkCancel | .insertSession => true
  | _ => false

/-- Past the admission check, and not ended in a session or an abort. -/
def SetupPc.underway (pc : SetupPc) : Bool := pc.registered || pc.unlisted

namespace Manager

variable {m : Manager} {k : Call}

/-- The calls with a given property. -/
def calls (m : Manager) (p : Call → Bool) : Finset Call :=
  (Finset.range m.nextCall).filter fun k => p k = true

/-- The session created by the setup task of `k` is in `sessions`. -/
def active (m : Manager) (k : Call) : Bool := m.sessions.lookup (m.callId k) = some ⟨k⟩

def registered (m : Manager) (k : Call) : Bool := (m.setups k).pc.registered

def unlisted (m : Manager) (k : Call) : Bool := (m.setups k).pc.unlisted

/-- The call has passed the admission check; its setup has not ended in an abort, nor has it been removed
from `sessions`. -/
def live (m : Manager) (k : Call) : Bool := (m.setups k).pc.underway || m.active k

/-- The new call's id has not been used before. -/
def freshId (m : Manager) : ManagerAction → Bool
  | .newCall c => (List.range m.nextCall).all fun k => m.callId k != c
  | _ => true

/-- No admission check passes on a slot that a task in neither map will take. -/
def admissionSafe (m : Manager) : ManagerAction → Bool
  | .setup _ .checkLimit =>
    m.sessions.size + m.pendingSetups.size < m.maxConcurrentCalls →
      m.sessions.size + m.pendingSetups.size + (m.calls m.unlisted).card < m.maxConcurrentCalls
  | _ => true

/-! ### The maps and the tasks -/

/-- With distinct call ids no entry is ever replaced. -/
structure Listed (m : Manager) : Prop extends Owned m where
  distinct : ∀ k < m.nextCall, ∀ k' < m.nextCall, m.callId k = m.callId k' → k = k'
  pending : ∀ k, m.registered k = true →
    m.pendingSetups.lookup (m.callId k) = some ((m.setups k).generation, k)
  session : ∀ c k, m.sessions.lookup c = some ⟨k⟩ → m.callId k = c ∧ (m.setups k).pc = .returned

theorem listed_initial (n : Nat) : Listed (initial n) where
  toOwned := owned_initial n
  distinct _ hk := absurd hk (Nat.not_lt_zero _)
  pending _ h := by cases h
  session _ _ h := by cases h

theorem Listed.lt_of_live (h : Listed m) (hk : m.live k = true) : k < m.nextCall := by
  apply h.lt_nextCall
  intro hpc
  rcases Bool.or_eq_true_iff.1 hk with hk | hk
  · rw [hpc] at hk
    cases hk
  · rw [(h.session _ k (of_decide_eq_true hk)).2] at hpc
    cases hpc

theorem registered_spawned (h : m.registered k = true) : (m.setups k).pc ≠ .unspawned := by
  intro hpc
  rw [registered, hpc] at h
  cases h

theorem Listed.setup (h : Listed m) {a : SetupAction} (hen : m.enabled (.setup k a)) :
    Listed (m.next (.setup k a)) := by
  have hpc : (m.setups k).pc = a.pc := hen.1
  have hspawned := spawned_of_pc hpc
  refine ⟨h.toOwned.next hen, h.distinct, fun k' hk' => ?_, fun c k' hc => ?_⟩
  · by_cases heq : k' = k
    · subst k'
      simp only [registered, next] at hk' ⊢
      rw [Function.update_self] at hk' ⊢
      exact lookup_own_stepPending hpc hk' (h.pending k)
    · simp only [registered, next] at hk' ⊢
      rw [Function.update_of_ne heq] at hk' ⊢
      have hid : m.callId k' ≠ m.callId k := fun hid =>
        heq (h.distinct k' (h.lt_nextCall (registered_spawned hk')) k (h.lt_nextCall hspawned) hid)
      rw [lookup_stepPending, if_neg (fun hc => hid hc.2), if_neg (fun hc => hid hc.2.1)]
      exact h.pending k' hk'
  · simp only [next] at hc ⊢
    rw [lookup_stepSessions] at hc
    split at hc
    · rename_i hins
      obtain ⟨rfl, rfl⟩ := hins
      cases hc
      exact ⟨rfl, by rw [Function.update_self]; rfl⟩
    · obtain ⟨hid, hret⟩ := h.session c k' hc
      rw [Function.update_of_ne (ne_of_returned hpc hret)]
      exact ⟨hid, hret⟩

theorem Listed.newCall (h : Listed m) {c : CallId} (hen : m.enabled (.newCall c))
    (hfresh : m.freshId (.newCall c) = true) : Listed (m.next (.newCall c)) := by
  have hfresh : ∀ k < m.nextCall, m.callId k ≠ c := by
    intro k hk
    exact bne_iff_ne.1 (List.all_eq_true.1 hfresh k (List.mem_range.2 hk))
  have hold : ∀ k < m.nextCall, Function.update m.callId m.nextCall c k = m.callId k := by
    intro k hk
    exact Function.update_of_ne hk.ne _ _
  refine ⟨h.toOwned.next hen, fun k hk k' hk' hid => ?_, fun k hk => ?_, fun c' k hc => ?_⟩
  · simp only [next] at hk hk' hid
    rcases Nat.lt_succ_iff_lt_or_eq.1 hk with hk | rfl <;>
      rcases Nat.lt_succ_iff_lt_or_eq.1 hk' with hk' | rfl
    · rw [hold k hk, hold k' hk'] at hid
      exact h.distinct k hk k' hk' hid
    · rw [hold k hk, Function.update_self] at hid
      exact absurd hid (hfresh k hk)
    · rw [hold k' hk', Function.update_self] at hid
      exact absurd hid.symm (hfresh k' hk')
    · rfl
  · simp only [next]
    rw [hold k (h.lt_nextCall (registered_spawned hk))]
    exact h.pending k hk
  · obtain ⟨hid, hret⟩ := h.session c' k hc
    refine ⟨?_, hret⟩
    simp only [next]
    rw [hold k (h.lt_nextCall fun hpc => by rw [hpc] at hret; cases hret), hid]

theorem Listed.next {a : ManagerAction} (h : Listed m) (hen : m.enabled a)
    (hfresh : m.freshId a = true) : Listed (m.next a) := by
  cases a with
  | setup k a => exact h.setup hen
  | newCall c => exact h.newCall hen hfresh
  | incomingCall k =>
    have hpc : (m.setups k).pc = .unspawned := hen.2.2.1
    refine ⟨h.toOwned.next hen, h.distinct, fun k' hk' => ?_, fun c k' hc => ?_⟩
    · have hne : k' ≠ k := by
        intro heq
        subst k'
        simp only [registered, Manager.next] at hk'
        rw [Function.update_self] at hk'
        cases hk'
      simp only [registered, Manager.next] at hk' ⊢
      rw [Function.update_of_ne hne] at hk' ⊢
      exact h.pending k' hk'
    · obtain ⟨hid, hret⟩ := h.session c k' hc
      have hne : k' ≠ k := by
        intro heq
        rw [heq, hpc] at hret
        cases hret
      simp only [Manager.next]
      rw [Function.update_of_ne hne]
      exact ⟨hid, hret⟩
  | disconnected k =>
    refine ⟨h.toOwned.next hen, h.distinct, h.pending, fun c k' hc => ?_⟩
    exact h.session c k' (FiniteMap.lookup_of_erase hc)
  | endCall k => exact ⟨h.toOwned.next hen, h.distinct, h.pending, h.session⟩
  | cancelPending k => exact ⟨h.toOwned.next hen, h.distinct, h.pending, h.session⟩
  | sessionTornDown k => exact ⟨h.toOwned.next hen, h.distinct, h.pending, h.session⟩

/-! ### Counting -/

theorem mem_calls {p : Call → Bool} : k ∈ m.calls p ↔ k < m.nextCall ∧ p k = true := by
  rw [calls, Finset.mem_filter, Finset.mem_range]

theorem Listed.injOn (h : Listed m) (p : Call → Bool) : Set.InjOn m.callId (m.calls p) := by
  intro k hk k' hk' hid
  exact h.distinct k (mem_calls.1 hk).1 k' (mem_calls.1 hk').1 hid

theorem Listed.size_pendingSetups (h : Listed m) :
    m.pendingSetups.size = (m.calls m.registered).card := by
  refine FiniteMap.size_eq_card m.callId (h.injOn _) fun c => ⟨fun hc => ?_, fun hc => ?_⟩
  · obtain ⟨⟨g, t⟩, ht⟩ := Option.isSome_iff_exists.1 (AList.lookup_isSome.2 hc)
    obtain ⟨hid, hreg, _⟩ := h.entry c g t ht
    exact ⟨t, mem_calls.2 ⟨h.lt_nextCall (registered_spawned hreg), hreg⟩, hid⟩
  · obtain ⟨t, ht, rfl⟩ := hc
    rw [← AList.lookup_isSome, h.pending t (mem_calls.1 ht).2]
    rfl

theorem Listed.size_sessions (h : Listed m) : m.sessions.size = (m.calls m.active).card := by
  refine FiniteMap.size_eq_card m.callId (h.injOn _) fun c => ⟨fun hc => ?_, fun hc => ?_⟩
  · obtain ⟨session, hsession⟩ := Option.isSome_iff_exists.1 (AList.lookup_isSome.2 hc)
    obtain ⟨hid, hret⟩ := h.session c session.mediaPort hsession
    have hactive : m.active session.mediaPort = true := by
      rw [active, hid]
      exact decide_eq_true hsession
    exact ⟨session.mediaPort, mem_calls.2 ⟨h.lt_of_live (by rw [live, hactive, Bool.or_true]), hactive⟩,
      hid⟩
  · obtain ⟨t, ht, rfl⟩ := hc
    have hactive : m.sessions.lookup (m.callId t) = some ⟨t⟩ := of_decide_eq_true (mem_calls.1 ht).2
    rw [← AList.lookup_isSome, hactive]
    rfl

/-- The live calls are the entries of the two maps and the tasks in neither. -/
theorem Listed.card_live (h : Listed m) : (m.calls m.live).card
    = m.sessions.size + m.pendingSetups.size + (m.calls m.unlisted).card := by
  have hsplit : m.calls m.live = (m.calls m.active ∪ m.calls m.registered) ∪ m.calls m.unlisted := by
    ext k
    simp only [Finset.mem_union, mem_calls, live, SetupPc.underway, registered, unlisted,
      Bool.or_eq_true]
    tauto
  have hpc : ∀ k, m.active k = true → (m.setups k).pc = .returned := by
    intro k hk
    exact (h.session _ k (of_decide_eq_true hk)).2
  have hdisj₁ : Disjoint (m.calls m.active) (m.calls m.registered) := by
    rw [Finset.disjoint_left]
    intro k hk hk'
    have hreg := (mem_calls.1 hk').2
    rw [registered, hpc k (mem_calls.1 hk).2] at hreg
    cases hreg
  have hdisj₂ : Disjoint (m.calls m.active ∪ m.calls m.registered) (m.calls m.unlisted) := by
    rw [Finset.disjoint_left]
    intro k hk hk'
    have hunl := (mem_calls.1 hk').2
    rcases Finset.mem_union.1 hk with hk | hk
    · rw [unlisted, hpc k (mem_calls.1 hk).2] at hunl
      cases hunl
    · have hreg := (mem_calls.1 hk).2
      revert hreg hunl
      rw [registered, unlisted]
      cases (m.setups k).pc <;> simp [SetupPc.registered, SetupPc.unlisted]
  rw [hsplit, Finset.card_union_of_disjoint hdisj₂, Finset.card_union_of_disjoint hdisj₁,
    h.size_sessions, h.size_pendingSetups]

/-! ### Who becomes live -/

theorem stepSetup_underway {a : SetupAction} (h : (m.stepSetup k a).pc.underway = true)
    (ha : a ≠ .checkLimit) : a.pc.underway = true := by
  cases a with
  | checkLimit => exact absurd rfl ha
  | teardownDone =>
    simp only [stepSetup] at h
    split at h <;> cases h
  | unregisterReady => cases h
  | _ => rfl

theorem Listed.live_of_next (h : Listed m) {a : ManagerAction} (hen : m.enabled a)
    (hk : (m.next a).live k = true) (ha : a ≠ .setup k .checkLimit) : m.live k = true := by
  simp only [live, Bool.or_eq_true] at hk ⊢
  cases a with
  | setup k' a =>
    have hpc : (m.setups k').pc = a.pc := hen.1
    simp only [Manager.next, active, lookup_stepSessions] at hk
    by_cases heq : k = k'
    · subst k'
      rw [Function.update_self] at hk
      rcases hk with hk | hk
      · rw [hpc]
        exact .inl (stepSetup_underway hk fun ha' => ha (by rw [ha']))
      · split at hk
        · rename_i hins
          rw [hpc, hins.1]
          exact .inl rfl
        · exact .inr hk
    · rw [Function.update_of_ne heq] at hk
      apply hk.imp_right
      intro hk
      split at hk
      · exact absurd (CallSession.mk.inj (Option.some.inj (of_decide_eq_true hk))).symm heq
      · exact hk
  | incomingCall k' =>
    simp only [Manager.next, active] at hk
    by_cases heq : k = k'
    · subst k'
      rw [Function.update_self] at hk
      exact hk.imp_left (fun h => by cases h)
    · rw [Function.update_of_ne heq] at hk
      exact hk
  | newCall c =>
    apply hk.imp_right
    intro hk
    have hk : m.sessions.lookup (Function.update m.callId m.nextCall c k) = some ⟨k⟩ :=
      of_decide_eq_true hk
    obtain ⟨hid, _⟩ := h.session _ k hk
    rw [active, hid]
    exact decide_eq_true hk
  | disconnected k' =>
    apply hk.imp_right
    intro hk
    have hk := of_decide_eq_true hk
    exact decide_eq_true (FiniteMap.lookup_of_erase hk)
  | endCall | cancelPending | sessionTornDown => exact hk

theorem Listed.calls_live_next (h : Listed m) {a : ManagerAction} (hen : m.enabled a)
    (ha : ∀ k, a ≠ .setup k .checkLimit) :
    (m.next a).calls (m.next a).live ⊆ m.calls m.live := by
  intro k hk
  have hlive := h.live_of_next hen (mem_calls.1 hk).2 (ha k)
  exact mem_calls.2 ⟨h.lt_of_live hlive, hlive⟩

theorem Listed.card_checkLimit (h : Listed m) (hen : m.enabled (.setup k .checkLimit)) :
    ((m.next (.setup k .checkLimit)).calls (m.next (.setup k .checkLimit)).live).card
      = (m.calls m.live).card
        + if m.sessions.size + m.pendingSetups.size < m.maxConcurrentCalls then 1 else 0 := by
  have hpc : (m.setups k).pc = .checkLimit := hen.1
  have hk : k ∉ m.calls m.live := by
    intro hk
    have hlive := (mem_calls.1 hk).2
    rw [live, hpc] at hlive
    have := (h.session _ k (of_decide_eq_true hlive)).2
    rw [hpc] at this
    cases this
  have hother : ∀ k' ≠ k, (m.next (.setup k .checkLimit)).live k' = m.live k' := by
    intro k' hne
    simp only [live, active, Manager.next, Function.update_of_ne hne]
    rfl
  have hactive : m.active k = false := by
    by_contra hne
    have := (h.session _ k (of_decide_eq_true (Bool.of_not_eq_false hne))).2
    rw [hpc] at this
    cases this
  have hself : (m.next (.setup k .checkLimit)).live k
      = decide (m.sessions.size + m.pendingSetups.size < m.maxConcurrentCalls) := by
    have hsame : (m.next (.setup k .checkLimit)).active k = m.active k := rfl
    rw [live, hsame, hactive]
    simp only [Manager.next, Function.update_self, stepSetup]
    split
    · rename_i hle
      rw [decide_eq_false (Nat.not_lt.2 hle)]
      rfl
    · rename_i hlt
      rw [decide_eq_true (Nat.lt_of_not_le hlt)]
      rfl
  have hkn : k < m.nextCall := h.lt_nextCall (by rw [hpc]; exact SetupPc.noConfusion)
  split
  · rename_i hlt
    rw [← Finset.card_insert_of_notMem hk]
    congr 1
    ext k'
    rw [Finset.mem_insert, mem_calls, mem_calls]
    by_cases heq : k' = k
    · subst k'
      rw [hself, decide_eq_true hlt]
      exact ⟨fun _ => .inl rfl, fun _ => ⟨hkn, rfl⟩⟩
    · rw [hother k' heq]
      exact ⟨.inr, fun hk' => hk'.resolve_left heq⟩
  · rename_i hle
    rw [Nat.add_zero]
    congr 1
    ext k'
    rw [mem_calls, mem_calls]
    by_cases heq : k' = k
    · subst k'
      rw [hself, decide_eq_false hle]
      exact ⟨fun hk' => (by cases hk'.2), fun hk' => absurd (mem_calls.2 hk') hk⟩
    · rw [hother k' heq]
      rfl

/-- A safe admission check leaves a slot for its call; an unsafe one has none to give. -/
theorem Listed.card_admission (h : Listed m) (hen : m.enabled (.setup k .checkLimit))
    (hle : (m.calls m.live).card ≤ m.maxConcurrentCalls) :
    ((m.next (.setup k .checkLimit)).calls (m.next (.setup k .checkLimit)).live).card
      ≤ m.maxConcurrentCalls ↔ m.admissionSafe (.setup k .checkLimit) = true := by
  have hcard := h.card_live
  rw [h.card_checkLimit hen, admissionSafe, decide_eq_true_iff]
  constructor
  · intro hnext hpass
    rw [if_pos hpass] at hnext
    omega
  · intro hsafe
    split
    · rename_i hpass
      have := hsafe hpass
      omega
    · exact hle

theorem Listed.card_next (h : Listed m) {a : ManagerAction} (hen : m.enabled a)
    (hsafe : m.admissionSafe a = true) (hle : (m.calls m.live).card ≤ m.maxConcurrentCalls) :
    ((m.next a).calls (m.next a).live).card ≤ m.maxConcurrentCalls := by
  by_cases ha : ∃ k, a = .setup k .checkLimit
  · obtain ⟨k, rfl⟩ := ha
    exact (h.card_admission hen hle).2 hsafe
  · refine Nat.le_trans (Finset.card_le_card (h.calls_live_next hen fun k hk => ha ⟨k, hk⟩)) hle

theorem maxConcurrentCalls_next (a : ManagerAction) :
    (m.next a).maxConcurrentCalls = m.maxConcurrentCalls := by
  cases a <;> rfl

end Manager

/-- The steps of a run with pairwise distinct call ids. -/
def distinctIds (m : Manager) (a : ManagerAction) : Prop := m.freshId a = true

instance (m : Manager) (a : ManagerAction) : Decidable (distinctIds m a) :=
  inferInstanceAs (Decidable (_ = _))

/-- The steps of such a run in which no admission check overlooks a task in neither map. -/
def admitsSafely (m : Manager) (a : ManagerAction) : Prop :=
  distinctIds m a ∧ m.admissionSafe a = true

instance (m : Manager) (a : ManagerAction) : Decidable (admitsSafely m a) :=
  inferInstanceAs (Decidable (_ ∧ _))

theorem reaches_admitted {n : Nat} {m : Manager} (hm : (manager n).Reaches admitsSafely m) :
    m.Listed ∧ m.maxConcurrentCalls = n ∧ (m.calls m.live).card ≤ n := by
  refine hm.invariant
    (I := fun m => m.Listed ∧ m.maxConcurrentCalls = n ∧ (m.calls m.live).card ≤ n) ?_
    fun m a _ h hen hok => ?_
  · intro m hinit
    rw [hinit]
    exact ⟨Manager.listed_initial n, rfl, Nat.zero_le n⟩
  · obtain ⟨hlisted, hmax, hle⟩ := h
    refine ⟨hlisted.next hen hok.1, (Manager.maxConcurrentCalls_next a).trans hmax, ?_⟩
    rw [← hmax] at hle ⊢
    exact hlisted.card_next hen hok.2 hle

/-- The limit holds as long as no admission check passes on a slot that a task in neither map will take,
and the first check that does exceeds it. -/
theorem concurrency_limit {n : Nat} {s : State} (hs : (bridge n).Reaches (onManager admitsSafely) s) :
    (s.mgr.calls s.mgr.live).card ≤ n ∧ s.mgr.sessions.size + s.mgr.pendingSetups.size ≤ n ∧
      ∀ k, s.enabled (.manager (.setup k .checkLimit)) →
        ¬s.mgr.admissionSafe (.setup k .checkLimit) = true →
        n < ((s.next (.manager (.setup k .checkLimit))).mgr.calls
          (s.next (.manager (.setup k .checkLimit))).mgr.live).card := by
  obtain ⟨hlisted, hmax, hle⟩ := reaches_admitted (reaches_manager hs)
  refine ⟨hle, ?_, fun k hen hbroken => ?_⟩
  · have := hlisted.card_live
    omega
  · have hcard := hlisted.card_admission hen.1 (by rw [hmax]; exact hle)
    rw [hmax] at hcard
    exact Nat.lt_of_not_le fun hnext => hbroken (hcard.1 hnext)

/-- One call fills a bridge of one call, and the next one is turned away. -/
theorem concurrency_limit_one : ∃ s, (bridge 1).Reaches (onManager admitsSafely) s ∧
    (s.mgr.setups 1).pc = .rejected ∧ (s.mgr.calls s.mgr.live).card ≤ 1 := by
  obtain ⟨s, hs, hP⟩ := System.exists_reaches_of_run (bridge 1) (onManager admitsSafely) rfl
    (.manager (.newCall 3) :: answerCall 0 ++
      [.newCall 4, .incomingCall 1, .setup 1 .checkLimit].map .manager)
    (fun s => (s.mgr.setups 1).pc = .rejected) (by decide)
  exact ⟨s, hs, of_decide_eq_true hP, (concurrency_limit hs).1⟩

/-- Two calls pass the check of a bridge of one call before either has registered. -/
theorem concurrency_limit_exceeded : ¬∀ (n : Nat) (s : State), 1 ≤ n →
    (bridge n).Reaches (onManager distinctIds) s →
      (s.mgr.calls s.mgr.live).card ≤ n ∧ s.mgr.sessions.size + s.mgr.pendingSetups.size ≤ n := by
  intro hclaim
  obtain ⟨s, hs, hP⟩ := System.exists_reaches_of_run (bridge 1) (onManager distinctIds) rfl
    ([.newCall 3, .newCall 4, .incomingCall 0, .incomingCall 1, .setup 0 .checkLimit].map .manager ++
      [.setup 1 .checkLimit, .setup 0 (.lookup false), .setup 0 .registerPort, .setup 0 .registerReady,
        .setup 0 .drawGeneration, .setup 0 .registerPending, .setup 1 (.lookup false),
        .setup 1 .registerPort, .setup 1 .registerReady, .setup 1 .drawGeneration,
        .setup 1 .registerPending].map .manager)
    (fun s => s.mgr.sessions.size + s.mgr.pendingSetups.size = 2) (by decide)
  have hle := (hclaim 1 s (Nat.le_refl 1) hs).2
  rw [of_decide_eq_true hP] at hle
  exact absurd hle (by decide)

end MumbleSip
