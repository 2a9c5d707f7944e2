import MumbleSip.Session.Pending

/-!
# From a pending setup to a session

A setup task leaves `pending_setups`, looks at its cancel token and enters `sessions`, each under a lock
of its own. What makes this safe is that a call whose `Disconnected` event has been processed has had its
token cancelled; the conditions below are the two places where that can fail. `on_call_disconnected`
may run while the task is in neither map, and a task that registers only after its own call is over may
find a newer call under its id.
-/

namespace MumbleSip

open Transition

/-- Answered, and not given up. -/
def SetupPc.committed : SetupPc → Bool
  | .awaitMedia | .intro | .connect | .removePending | .checkCancel | .insertSession => true
  | _ => false

/-- Gone from `pending_setups` and not yet in `sessions`. -/
def SetupPc.inGap : SetupPc → Bool
  | .checkCancel | .insertSession => true
  | _ => false

namespace Manager

variable {m : Manager} {k : Call}

/-! ### The conditions -/

/-- The id of the call is in use by a newer call. -/
def recycled (m : Manager) (k : Call) : Bool :=
  (List.range m.nextCall).any fun k' => k < k' && m.callId k' == m.callId k && !m.ended k'

/-- The `Disconnected` event of the call was processed without cancelling its setup. -/
def overlooked (m : Manager) (k : Call) : Bool := m.handled k && !m.cancelled k

/-- Neither half of `on_call_disconnected` runs while the setup of the call is between `pending_setups` and
`sessions`, and no registration replaces the entry of a newer setup. -/
def handoverSafe (m : Manager) : ManagerAction → Bool
  | .disconnected k => !(m.setups k).pc.inGap
  | .setup k .removePending => m.main != .cancelPending k
  | .setup k .registerPending => (m.pendingSetups.lookup (m.callId k)).all fun entry => entry.2 < k
  | _ => true

/-- `pjsua_call_answer` fails for a call that is over, unless a newer call uses its id. -/
def answerContract (m : Manager) : ManagerAction → Bool
  | .setup k (.answer true) => !m.ended k || m.recycled k
  | _ => true

/-- No overlooked setup answers a newer call in place of its own. -/
def answersOwn (m : Manager) : ManagerAction → Bool
  | .setup k (.answer true) => !(m.overlooked k && m.recycled k)
  | _ => true

/-- No overlooked setup has its call answered. -/
def answerSafe (m : Manager) : ManagerAction → Bool
  | .setup k (.answer true) => !m.overlooked k
  | _ => true

/-! ### The invariant -/

structure Handed (m : Manager) : Prop extends Owned m where
  order : ∀ k k', k' < k → m.callId k' = m.callId k → (m.setups k).pc ≠ .unspawned →
    m.handled k' = true
  past : ∀ k, m.handled k = true → m.ended k = true ∧ (m.setups k).pc ≠ .unspawned
  inMain : ∀ k, m.main = .cancelPending k ∨ m.main = .teardown k →
    m.ended k = true ∧ (m.setups k).pc ≠ .unspawned ∧ m.handled k = false
  pending : ∀ k, m.handled k = false → (m.setups k).pc.registered = true →
    m.pendingSetups.lookup (m.callId k) = some ((m.setups k).generation, k)
  session : ∀ c k, m.sessions.lookup c = some ⟨k⟩ → m.callId k = c ∧ (m.setups k).pc = .returned ∧
    m.handled k = false ∧ m.main ≠ .cancelPending k ∧ m.main ≠ .teardown k
  late : ∀ k, m.overlooked k = true → (m.setups k).pc.committed = false
  outside : ∀ k, m.handled k = true → (m.setups k).pc ≠ .insertSession
  cancelling : ∀ k, m.main = .cancelPending k → (m.setups k).pc.inGap = false
  tearing : ∀ k, m.main = .teardown k → (m.setups k).pc = .returned
  owner : ∀ k, (m.setups k).pc = .checkCancel ∧ m.cancelled k = false ∨
    (m.setups k).pc = .insertSession → (m.setups k).owns = true

theorem handed_initial (n : Nat) : Handed (initial n) where
  toOwned := owned_initial n
  order _ _ _ _ hpc := absurd rfl hpc
  past _ h := by cases h
  inMain _ h := by rcases h with h | h <;> cases h
  pending _ _ h := by cases h
  session _ _ h := by cases h
  late _ h := by cases h
  outside _ _ h := by cases h
  cancelling _ h := by cases h
  tearing _ h := by cases h
  owner _ h := by rcases h with h | h <;> [cases h.1; cases h]

theorem cancelled_of_cancelPendingSetup {c : CallId} (h : m.cancelPendingSetup c k = false) :
    m.cancelled k = false := by
  cases hc : m.pendingSetups.lookup c with
  | none => simpa only [cancelPendingSetup, hc] using h
  | some entry =>
    simp only [cancelPendingSetup, hc] at h
    by_cases heq : k = entry.2
    · subst k
      rw [Function.update_self] at h
      cases h
    · rwa [Function.update_of_ne heq] at h

theorem cancelPendingSetup_entry {c : CallId} {g : Nat} (h : m.pendingSetups.lookup c = some (g, k)) :
    m.cancelPendingSetup c k = true := by
  simp only [cancelPendingSetup, h, Function.update_self]

/-- Two calls of one id cannot both be waiting for their `Disconnected` event once both are spawned. -/
theorem Handed.eq_of_callId (h : Handed m) {k' : Call} (hid : m.callId k = m.callId k')
    (hk : (m.setups k).pc ≠ .unspawned) (hk' : (m.setups k').pc ≠ .unspawned)
    (hopen : m.handled k = false) (hopen' : m.handled k' = false) : k = k' := by
  rcases Nat.lt_trichotomy k k' with hlt | heq | hlt
  · rw [h.order k' k hlt hid hk'] at hopen
    cases hopen
  · exact heq
  · rw [h.order k k' hlt hid.symm hk] at hopen'
    cases hopen'

theorem ended_next {a : ManagerAction} (h : m.ended k = true) : (m.next a).ended k = true := by
  cases a with
  | endCall k' =>
    simp only [next]
    by_cases heq : k = k'
    · rw [heq, Function.update_self]
    · rwa [Function.update_of_ne heq]
  | _ => exact h

section Setup

variable {a : SetupAction}

theorem stepSetup_committed (h : (m.stepSetup k a).pc.committed = true) :
    a = .answer true ∨ a.pc.committed = true := by
  cases a with
  | answer ok =>
    cases ok
    · cases h
    · exact .inl rfl
  | _ => first
    | exact .inr rfl
    | (simp only [stepSetup] at h; cases h)
    | (simp only [stepSetup] at h; split at h <;> cases h)

theorem stepSetup_inGap (h : (m.stepSetup k a).pc.inGap = true) :
    a = .removePending ∨ a = .checkCancel ∧ m.cancelled k = false := by
  cases a with
  | removePending => exact .inl rfl
  | checkCancel =>
    simp only [stepSetup] at h
    split at h
    · cases h
    · exact .inr ⟨rfl, Bool.eq_false_iff.2 ‹_›⟩
  | _ => first
    | (simp only [stepSetup] at h; cases h)
    | (simp only [stepSetup] at h; split at h <;> cases h)

/-! ### Steps of a setup task -/

theorem Handed.pending_setup (h : Handed m) (hpc : (m.setups k).pc = a.pc)
    (hsafe : m.handoverSafe (.setup k a) = true) {k' : Call} (hopen : m.handled k' = false)
    (hreg : ((m.next (.setup k a)).setups k').pc.registered = true) :
    (m.next (.setup k a)).pendingSetups.lookup (m.callId k')
      = some (((m.next (.setup k a)).setups k').generation, k') := by
  simp only [next] at hreg ⊢
  by_cases heq : k' = k
  · subst k'
    rw [Function.update_self] at hreg ⊢
    exact lookup_own_stepPending hpc hreg (h.pending k hopen)
  · rw [Function.update_of_ne heq] at hreg ⊢
    have hentry := h.pending k' hopen hreg
    have hspawned : (m.setups k').pc ≠ .unspawned := by
      intro hpc'
      rw [hpc'] at hreg
      cases hreg
    have hkspawned := spawned_of_pc hpc
    rw [lookup_stepPending, if_neg, if_neg]
    · exact hentry
    · -- a removed entry is the task's own
      intro hc
      obtain ⟨ha, hid, hrel⟩ := hc
      have hdrawn : (m.setups k).pc.drawn = true := by rcases ha with rfl | rfl <;> rw [hpc] <;> rfl
      have hown := (h.release hdrawn).1 hrel
      rw [← hid, hentry] at hown
      exact heq (Prod.mk.inj (Option.some.inj hown)).2
    · -- a replaced entry would be that of an older setup, whose call is over
      intro hc
      obtain ⟨rfl, hid⟩ := hc
      rw [handoverSafe, ← hid, hentry] at hsafe
      have hlt : k' < k := of_decide_eq_true hsafe
      have := h.order k k' hlt hid hkspawned
      rw [hopen] at this
      cases this

theorem Handed.late_setup (h : Handed m) (hpc : (m.setups k).pc = a.pc)
    (hanswer : m.answerSafe (.setup k a) = true) {k' : Call} (hover : m.overlooked k' = true) :
    ((m.next (.setup k a)).setups k').pc.committed = false := by
  simp only [next]
  by_cases heq : k' = k
  · subst k'
    rw [Function.update_self]
    by_contra hne
    rcases stepSetup_committed (Bool.of_not_eq_false hne) with rfl | hcom
    · rw [answerSafe, hover] at hanswer
      cases hanswer
    · rw [← hpc, h.late k hover] at hcom
      cases hcom
  · rw [Function.update_of_ne heq]
    exact h.late k' hover

theorem Handed.not_handled_of_gap (h : Handed m) (hpc : (m.setups k).pc = a.pc)
    (hgap : (m.stepSetup k a).pc.inGap = true) (hkeep : m.cancelled k = false) :
    m.handled k = false := by
  by_contra hne
  have hover : m.overlooked k = true := by
    rw [overlooked, Bool.of_not_eq_false hne, hkeep]
    rfl
  have hcom := h.late k hover
  rw [hpc] at hcom
  rcases stepSetup_inGap hgap with rfl | ⟨rfl, _⟩ <;> cases hcom

theorem Handed.owner_setup (h : Handed m) (hpc : (m.setups k).pc = a.pc)
    (hgap : (m.stepSetup k a).pc = .checkCancel ∧ m.cancelled k = false ∨
      (m.stepSetup k a).pc = .insertSession) : (m.stepSetup k a).owns = true := by
  have hin : (m.stepSetup k a).pc.inGap = true := by
    rcases hgap with hgap | hgap
    · rw [hgap.1]
      rfl
    · rw [hgap]
      rfl
  rcases stepSetup_inGap hin with rfl | ⟨rfl, hkeep⟩
  · have hkeep : m.cancelled k = false := by
      rcases hgap with hgap | hgap
      · exact hgap.2
      · cases hgap
    have hreg : (m.setups k).pc.registered = true := by
      rw [hpc]
      rfl
    exact (h.release (drawn_of_registered hreg)).2
      (h.pending k (h.not_handled_of_gap hpc hin hkeep) hreg)
  · have howns := h.owner k (.inl ⟨hpc, hkeep⟩)
    simpa only [stepSetup, hkeep, Bool.false_eq_true, if_false] using howns

theorem Handed.setup (h : Handed m) (hen : m.enabled (.setup k a))
    (hsafe : m.handoverSafe (.setup k a) = true) (hanswer : m.answerSafe (.setup k a) = true) :
    Handed (m.next (.setup k a)) := by
  have hpc : (m.setups k).pc = a.pc := hen.1
  have hspawned := spawned_of_pc hpc
  have hspawned' : ∀ k', ((m.next (.setup k a)).setups k').pc ≠ .unspawned →
      (m.setups k').pc ≠ .unspawned := by
    intro k' hk'
    by_cases heq : k' = k
    · rwa [heq]
    · simp only [next] at hk'
      rwa [Function.update_of_ne heq] at hk'
  have hkeeps : ∀ k', (m.setups k').pc ≠ .unspawned →
      ((m.next (.setup k a)).setups k').pc ≠ .unspawned := by
    intro k' hk'
    simp only [next]
    by_cases heq : k' = k
    · rw [heq, Function.update_self]
      exact stepSetup_pc_ne_unspawned
    · rwa [Function.update_of_ne heq]
  refine ⟨h.toOwned.next hen, fun k₁ k₂ hlt hid hk₁ => h.order k₁ k₂ hlt hid (hspawned' k₁ hk₁),
    fun k' hk' => ⟨(h.past k' hk').1, hkeeps k' (h.past k' hk').2⟩,
    fun k' hk' => ⟨(h.inMain k' hk').1, hkeeps k' (h.inMain k' hk').2.1, (h.inMain k' hk').2.2⟩,
    fun k' => h.pending_setup hpc hsafe, fun c k' hc => ?_, fun k' => h.late_setup hpc hanswer,
    fun k' hk' => ?_, fun k' hk' => ?_, fun k' hk' => ?_, fun k' hk' => ?_⟩
  · simp only [next] at hc ⊢
    rw [lookup_stepSessions] at hc
    split at hc
    · rename_i hins
      obtain ⟨rfl, rfl⟩ := hins
      cases hc
      have hopen : m.handled k = false := by
        by_contra hne
        exact h.outside k (Bool.of_not_eq_false hne) hpc
      refine ⟨rfl, by rw [Function.update_self]; rfl, hopen, fun hmain => ?_, fun hmain => ?_⟩
      · have hgap := h.cancelling k hmain
        rw [hpc] at hgap
        cases hgap
      · have hret := h.tearing k hmain
        rw [hpc] at hret
        cases hret
    · obtain ⟨hid, hret, hopen, hmain⟩ := h.session c k' hc
      rw [Function.update_of_ne (ne_of_returned hpc hret)]
      exact ⟨hid, hret, hopen, hmain⟩
  · have hhan : m.handled k' = true := hk'
    simp only [next]
    by_cases heq : k' = k
    · subst k'
      rw [Function.update_self]
      intro hins
      have hin : (m.stepSetup k a).pc.inGap = true := by rw [hins]; rfl
      have hkeep : m.cancelled k = false := by
        rcases stepSetup_inGap hin with rfl | hcheck
        · cases hins
        · exact hcheck.2
      rw [h.not_handled_of_gap hpc hin hkeep] at hhan
      cases hhan
    · rw [Function.update_of_ne heq]
      exact h.outside k' hhan
  · simp only [next]
    by_cases heq : k' = k
    · subst k'
      rw [Function.update_self]
      by_contra hne
      rcases stepSetup_inGap (Bool.of_not_eq_false hne) with rfl | ⟨rfl, _⟩
      · exact (bne_iff_ne.1 hsafe) hk'
      · have hgap := h.cancelling k hk'
        rw [hpc] at hgap
        cases hgap
    · rw [Function.update_of_ne heq]
      exact h.cancelling k' hk'
  · have hret := h.tearing k' hk'
    simp only [next]
    rw [Function.update_of_ne (ne_of_returned hpc hret)]
    exact hret
  · simp only [next] at hk' ⊢
    by_cases heq : k' = k
    · subst k'
      rw [Function.update_self] at hk' ⊢
      exact h.owner_setup hpc hk'
    · rw [Function.update_of_ne heq] at hk' ⊢
      exact h.owner k' hk'

end Setup

/-! ### Steps of the main loop -/

theorem Handed.newCall (h : Handed m) {c : CallId} (hen : m.enabled (.newCall c)) :
    Handed (m.next (.newCall c)) := by
  have hid : ∀ k, (m.setups k).pc ≠ .unspawned →
      Function.update m.callId m.nextCall c k = m.callId k := by
    intro k hk
    exact Function.update_of_ne (h.lt_nextCall hk).ne _ _
  have hreg : ∀ k, (m.setups k).pc.registered = true → (m.setups k).pc ≠ .unspawned := by
    intro k hk hpc
    rw [hpc] at hk
    cases hk
  refine ⟨h.toOwned.next hen, fun k k' hlt heq hk => ?_, h.past, h.inMain, fun k hopen hk => ?_,
    fun c' k hk => ?_, h.late, h.outside, h.cancelling, h.tearing, h.owner⟩
  · have hlt' : k' < m.nextCall := Nat.lt_trans hlt (h.lt_nextCall hk)
    simp only [next] at heq
    rw [hid k hk, Function.update_of_ne hlt'.ne] at heq
    exact h.order k k' hlt heq hk
  · simp only [next]
    rw [hid k (hreg k hk)]
    exact h.pending k hopen hk
  · have hsession := h.session c' k hk
    refine ⟨?_, hsession.2⟩
    simp only [next]
    rw [hid k (fun hpc => by rw [hpc] at hsession; cases hsession.2.1), hsession.1]

theorem Handed.incomingCall (h : Handed m) (hen : m.enabled (.incomingCall k)) :
    Handed (m.next (.incomingCall k)) := by
  have hpc : (m.setups k).pc = .unspawned := hen.2.2.1
  have hmain : m.main = .idle := hen.1
  have hother : ∀ k', (m.setups k').pc ≠ .unspawned →
      (m.next (.incomingCall k)).setups k' = m.setups k' := by
    intro k' hk'
    refine Function.update_of_ne (fun heq => ?_) _ _
    rw [heq] at hk'
    exact hk' hpc
  have hnew : ∀ k', ((m.next (.incomingCall k)).setups k').pc = .checkLimit ∨
      (m.next (.incomingCall k)).setups k' = m.setups k' := by
    intro k'
    by_cases heq : k' = k
    · subst k'
      exact .inl (by simp only [next, Function.update_self])
    · exact .inr (Function.update_of_ne heq _ _)
  refine ⟨h.toOwned.next hen, fun k₁ k₂ hlt hid hk₁ => ?_, fun k' hk' => ?_, fun k' hk' => ?_,
    fun k' hopen hk' => ?_, fun c k' hc => ?_, fun k' hk' => ?_, fun k' hk' => ?_, fun k' hk' => ?_,
    fun k' hk' => ?_, fun k' hk' => ?_⟩
  · by_cases heq : k₁ = k
    · subst k₁
      exact hen.2.2.2 k₂ hlt hid
    · apply h.order k₁ k₂ hlt hid
      simp only [next] at hk₁
      rwa [Function.update_of_ne heq] at hk₁
  · have := h.past k' hk'
    exact ⟨this.1, by rw [hother k' this.2]; exact this.2⟩
  · simp only [next, hmain] at hk'
    rcases hk' with hk' | hk' <;> cases hk'
  · rcases hnew k' with hk | hk
    · rw [hk] at hk'
      cases hk'
    · rw [hk] at hk' ⊢
      exact h.pending k' hopen hk'
  · have hsession := h.session c k' hc
    have hk' : (m.setups k').pc ≠ .unspawned := fun hpc' => by rw [hpc'] at hsession; cases hsession.2.1
    exact ⟨hsession.1, by rw [hother k' hk']; exact hsession.2.1, hsession.2.2⟩
  · rcases hnew k' with hk | hk
    · rw [hk]
      rfl
    · rw [hk]
      exact h.late k' hk'
  · rcases hnew k' with hk | hk
    · rw [hk]
      exact SetupPc.noConfusion
    · rw [hk]
      exact h.outside k' hk'
  · simp only [next, hmain] at hk'
    cases hk'
  · simp only [next, hmain] at hk'
    cases hk'
  · rcases hnew k' with hk | hk
    · rw [hk] at hk'
      rcases hk' with hk' | hk' <;> [cases hk'.1; cases hk']
    · rw [hk] at hk' ⊢
      exact h.owner k' hk'

theorem Handed.session_eq (h : Handed m) (hen : m.enabled (.disconnected k)) (k' : Call)
    (hk' : m.sessions.lookup (m.callId k) = some ⟨k'⟩) : k' = k := by
  obtain ⟨hid, hret, hopen, _⟩ := h.session _ k' hk'
  exact h.eq_of_callId hid (fun hpc => by rw [hpc] at hret; cases hret) hen.2.2.1 hopen hen.2.2.2

theorem Handed.disconnected (h : Handed m) (hen : m.enabled (.disconnected k))
    (hsafe : m.handoverSafe (.disconnected k) = true) : Handed (m.next (.disconnected k)) := by
  obtain ⟨hmain, hended, hspawned, hopen⟩ := id hen
  have hmain' : ∀ k', (m.next (.disconnected k)).main = .cancelPending k' ∨
      (m.next (.disconnected k)).main = .teardown k' → k' = k := by
    intro k' hk'
    simp only [next] at hk'
    split at hk' <;> rcases hk' with hk' | hk' <;> cases hk' <;> rfl
  refine ⟨h.toOwned.next hen, h.order, h.past, fun k' hk' => ?_, h.pending, fun c k' hc => ?_, h.late,
    h.outside, fun k' hk' => ?_, fun k' hk' => ?_, h.owner⟩
  · rw [hmain' k' hk']
    exact ⟨hended, hspawned, hopen⟩
  · simp only [next] at hc
    rw [FiniteMap.lookup_erase] at hc
    split at hc
    · cases hc
    · rename_i hne
      obtain ⟨hid, hret, hopen', _⟩ := h.session c k' hc
      have hkk' : k' ≠ k := by
        intro heq
        subst k'
        exact hne hid.symm
      exact ⟨hid, hret, hopen', fun hk' => hkk' (hmain' k' (.inl hk')),
        fun hk' => hkk' (hmain' k' (.inr hk'))⟩
  · rw [hmain' k' (.inl hk')]
    have hgap : (m.setups k).pc.inGap = false := by
      simpa only [handoverSafe, Bool.not_eq_true'] using hsafe
    exact hgap
  · have heq := hmain' k' (.inr hk')
    subst k'
    simp only [next] at hk'
    split at hk'
    · rename_i hsome
      obtain ⟨session, hsession⟩ := Option.isSome_iff_exists.1 hsome
      have hk := h.session_eq hen session.mediaPort hsession
      have := (h.session _ session.mediaPort hsession).2.1
      rwa [hk] at this
    · cases hk'

theorem Handed.cancelPending (h : Handed m) (hen : m.enabled (.cancelPending k)) :
    Handed (m.next (.cancelPending k)) := by
  have hmain : m.main = .cancelPending k := hen
  obtain ⟨hended, hspawned, _⟩ := h.inMain k (.inl hmain)
  have hgap := h.cancelling k hmain
  have hkeep : ∀ k', (m.next (.cancelPending k)).cancelled k' = false → m.cancelled k' = false := by
    intro k' hk'
    exact cancelled_of_cancelPendingSetup hk'
  have hhandled : ∀ k', k' ≠ k → (m.next (.cancelPending k)).handled k' = m.handled k' := by
    intro k' hk'
    exact Function.update_of_ne hk' _ _
  have hkhandled : (m.next (.cancelPending k)).handled k = true := Function.update_self _ _ _
  refine ⟨h.toOwned.next hen, fun k₁ k₂ hlt hid hk₁ => ?_, fun k' hk' => ?_, fun k' hk' => ?_,
    fun k' hopen hk' => ?_, fun c k' hc => ?_, fun k' hk' => ?_, fun k' hk' => ?_, fun k' hk' => ?_,
    fun k' hk' => ?_, fun k' hk' => ?_⟩
  · by_cases heq : k₂ = k
    · rw [heq]
      exact hkhandled
    · rw [hhandled k₂ heq]
      exact h.order k₁ k₂ hlt hid hk₁
  · by_cases heq : k' = k
    · rw [heq]
      exact ⟨hended, hspawned⟩
    · rw [hhandled k' heq] at hk'
      exact h.past k' hk'
  · rcases hk' with hk' | hk' <;> cases hk'
  · have hne : k' ≠ k := by
      intro heq
      rw [heq, hkhandled] at hopen
      cases hopen
    rw [hhandled k' hne] at hopen
    exact h.pending k' hopen hk'
  · obtain ⟨hid, hret, hopen, hc', ht⟩ := h.session c k' hc
    have hne : k' ≠ k := by
      intro heq
      rw [heq] at hc'
      exact hc' hmain
    refine ⟨hid, hret, ?_, MainPc.noConfusion, MainPc.noConfusion⟩
    rw [hhandled k' hne]
    exact hopen
  · simp only [overlooked, Bool.and_eq_true, Bool.not_eq_true'] at hk'
    obtain ⟨hhan, hcan⟩ := hk'
    by_cases heq : k' = k
    · -- a registered setup is cancelled now, and none is between the two maps
      subst k'
      by_contra hne
      have hcom : (m.setups k).pc.committed = true := Bool.of_not_eq_false hne
      have hreg : (m.setups k).pc.registered = true := by
        revert hgap hcom
        cases (m.setups k).pc <;> simp [SetupPc.inGap, SetupPc.committed, SetupPc.registered]
      have hentry := h.pending k (h.inMain k (.inl hmain)).2.2 hreg
      have := cancelPendingSetup_entry hentry
      simp only [next] at hcan
      rw [hcan] at this
      cases this
    · rw [hhandled k' heq] at hhan
      apply h.late k'
      rw [overlooked, hhan, hkeep k' hcan]
      rfl
  · by_cases heq : k' = k
    · intro hins
      subst k'
      simp only [next] at hins
      rw [hins] at hgap
      cases hgap
    · rw [hhandled k' heq] at hk'
      exact h.outside k' hk'
  · cases hk'
  · cases hk'
  · refine h.owner k' (hk'.imp_left fun hcheck => ⟨hcheck.1, hkeep k' hcheck.2⟩)

theorem Handed.sessionTornDown (h : Handed m) (hen : m.enabled (.sessionTornDown k)) :
    Handed (m.next (.sessionTornDown k)) := by
  have hmain : m.main = .teardown k := hen
  obtain ⟨hended, hspawned, _⟩ := h.inMain k (.inr hmain)
  have hret := h.tearing k hmain
  have hhandled : ∀ k', k' ≠ k → (m.next (.sessionTornDown k)).handled k' = m.handled k' := by
    intro k' hk'
    exact Function.update_of_ne hk' _ _
  have hkhandled : (m.next (.sessionTornDown k)).handled k = true := Function.update_self _ _ _
  refine ⟨h.toOwned.next hen, fun k₁ k₂ hlt hid hk₁ => ?_, fun k' hk' => ?_, fun k' hk' => ?_,
    fun k' hopen hk' => ?_, fun c k' hc => ?_, fun k' hk' => ?_, fun k' hk' => ?_, fun k' hk' => ?_,
    fun k' hk' => ?_, h.owner⟩
  · by_cases heq : k₂ = k
    · rw [heq]
      exact hkhandled
    · rw [hhandled k₂ heq]
      exact h.order k₁ k₂ hlt hid hk₁
  · by_cases heq : k' = k
    · rw [heq]
      exact ⟨hended, hspawned⟩
    · rw [hhandled k' heq] at hk'
      exact h.past k' hk'
  · rcases hk' with hk' | hk' <;> cases hk'
  · have hne : k' ≠ k := by
      intro heq
      rw [heq, hkhandled] at hopen
      cases hopen
    rw [hhandled k' hne] at hopen
    exact h.pending k' hopen hk'
  · obtain ⟨hid, hret', hopen, hc', ht⟩ := h.session c k' hc
    have hne : k' ≠ k := by
      intro heq
      rw [heq] at ht
      exact ht hmain
    refine ⟨hid, hret', ?_, MainPc.noConfusion, MainPc.noConfusion⟩
    rw [hhandled k' hne]
    exact hopen
  · by_cases heq : k' = k
    · subst k'
      simp only [next, hret]
      rfl
    · simp only [overlooked] at hk'
      rw [hhandled k' heq] at hk'
      exact h.late k' hk'
  · by_cases heq : k' = k
    · subst k'
      simp only [next, hret]
      exact SetupPc.noConfusion
    · rw [hhandled k' heq] at hk'
      exact h.outside k' hk'
  · cases hk'
  · cases hk'

/-- Under the contract a call that is over is answered only where a newer one uses its id. -/
theorem Handed.answerSafe (h : Handed m) {a : ManagerAction} (hcontract : m.answerContract a = true)
    (hown : m.answersOwn a = true) : m.answerSafe a = true := by
  cases a with
  | setup k a =>
    cases a with
    | answer ok =>
      cases ok
      · rfl
      · simp only [answerContract, answersOwn, Manager.answerSafe, Bool.or_eq_true,
          Bool.not_eq_true', Bool.and_eq_false_iff] at hcontract hown ⊢
        rcases hown with hover | hrec
        · exact hover
        · by_contra hne
          have hover : m.handled k = true := (Bool.and_eq_true_iff.1 (Bool.of_not_eq_false hne)).1
          rw [(h.past k hover).1, hrec] at hcontract
          rcases hcontract with hc | hc <;> cases hc
    | _ => rfl
  | _ => rfl

theorem Handed.next {a : ManagerAction} (h : Handed m) (hen : m.enabled a)
    (hsafe : m.handoverSafe a = true) (hanswer : m.answerSafe a = true) : Handed (m.next a) := by
  cases a with
  | newCall c => exact h.newCall hen
  | endCall k =>
    refine ⟨h.toOwned.next hen, h.order, fun k' hk' => ?_, fun k' hk' => ?_, h.pending, h.session,
      h.late, h.outside, h.cancelling, h.tearing, h.owner⟩
    · exact ⟨ended_next (h.past k' hk').1, (h.past k' hk').2⟩
    · exact ⟨ended_next (h.inMain k' hk').1, (h.inMain k' hk').2⟩
  | incomingCall k => exact h.incomingCall hen
  | disconnected k => exact h.disconnected hen hsafe
  | cancelPending k => exact h.cancelPending hen
  | sessionTornDown k => exact h.sessionTornDown hen
  | setup k a => exact h.setup hen hsafe hanswer

end Manager

theorem reaches_handed {n : Nat} {m : Manager}
    (hm : (manager n).Reaches (fun m a => m.handoverSafe a = true ∧ m.answerSafe a = true) m) :
    m.Handed := by
  refine hm.invariant ?_ fun m a _ h hen hok => h.next hen hok.1 hok.2
  intro m hinit
  rw [hinit]
  exact Manager.handed_initial n

/-! ### No orphaned session -/

/-- The steps of a run in which pjsua keeps its contract and no `Disconnected` event is overlooked. -/
def handsOver (m : Manager) (a : ManagerAction) : Prop :=
  m.answerContract a = true ∧ m.handoverSafe a = true ∧ m.answersOwn a = true

instance (m : Manager) (a : ManagerAction) : Decidable (handsOver m a) :=
  inferInstanceAs (Decidable (_ ∧ _ ∧ _))

/-- Once the `Disconnected` event of a call is processed, its setup task has no session, running or not. -/
theorem no_orphaned_session {n : Nat} {s : State} (hs : (bridge n).Reaches (onManager handsOver) s)
    {k : Call} (hhandled : s.mgr.handled k = true) (c : CallId) :
    s.mgr.sessions.lookup c ≠ some ⟨k⟩ := by
  have h : s.mgr.Handed := by
    refine (reaches_manager hs).invariant ?_ fun m a _ h hen hok => ?_
    · intro m hinit
      rw [hinit]
      exact Manager.handed_initial n
    · exact h.next hen hok.2.1 (h.answerSafe hok.1 hok.2.2)
  intro hc
  have hopen := (h.session c k hc).2.2.1
  rw [hhandled] at hopen
  cases hopen

/-- An established call hangs up and is torn down. -/
theorem no_orphaned_session_torn_down : ∃ s, (bridge 1).Reaches (onManager handsOver) s ∧
    s.mgr.handled 0 = true ∧ (s.mgr.setups 0).pc = .returned ∧ s.mgr.sessions.lookup 3 ≠ some ⟨0⟩ := by
  obtain ⟨s, hs, hP⟩ := System.exists_reaches_of_run (bridge 1) (onManager handsOver) rfl
    (.manager (.newCall 3) :: answerCall 0 ++ attachMedia 3 0 7 ++ establish 0 ++
      [.manager (.endCall 0), .manager (.disconnected 0), .media (.job .main true),
        .media (.job .main true), .media (.job .main true), .media (.job .main true),
        .manager (.sessionTornDown 0)])
    (fun s => s.mgr.handled 0 = true ∧ (s.mgr.setups 0).pc = .returned) (by decide)
  obtain ⟨hhandled, hpc⟩ := of_decide_eq_true hP
  exact ⟨s, hs, hhandled, hpc, no_orphaned_session hs hhandled 3⟩

/-- The call ends after its task has left `pending_setups`: `cancel_pending_setup` finds no entry, the
task finds its token untouched and inserts a session that no event will remove. -/
theorem orphaned_session : ¬∀ (n : Nat) (s : State),
    (bridge n).Reaches (onManager fun m a => m.answerContract a = true) s →
      ∀ k, s.mgr.handled k = true → (s.mgr.setups k).pc.finished = true →
        ∀ c, s.mgr.sessions.lookup c ≠ some ⟨k⟩ := by
  intro hclaim
  obtain ⟨s, hs, hP⟩ := System.exists_reaches_of_run (bridge 1)
    (onManager fun m a => m.answerContract a = true) rfl
    (.manager (.newCall 3) :: answerCall 0 ++ attachMedia 3 0 7 ++
      [.setup 0 .mediaReady, .setup 0 .connected, .setup 0 .removePending, .endCall 0, .disconnected 0,
        .cancelPending 0, .setup 0 .checkCancel, .setup 0 .insertSession].map .manager)
    (fun s => s.mgr.handled 0 = true ∧ (s.mgr.setups 0).pc.finished = true ∧
      s.mgr.sessions.lookup 3 = some ⟨0⟩) (by decide)
  obtain ⟨hhandled, hfin, hsession⟩ := of_decide_eq_true hP
  exact hclaim 1 s hs 0 hhandled hfin 3 hsession

/-! ### Only the owner becomes active -/

/-- The steps of a run in which no `Disconnected` event is overlooked, whatever pjsua answers. -/
def overlooksNothing (m : Manager) (a : ManagerAction) : Prop :=
  m.handoverSafe a = true ∧ m.answerSafe a = true

instance (m : Manager) (a : ManagerAction) : Decidable (overlooksNothing m a) :=
  inferInstanceAs (Decidable (_ ∧ _))

theorem owner_becomes_active {n : Nat} {s : State}
    (hs : (bridge n).Reaches (onManager overlooksNothing) s) {k : Call}
    (hen : s.enabled (.manager (.setup k .insertSession))) :
    (s.mgr.setups k).owns = true ∧ s.mgr.sessions.lookup (s.mgr.callId k) = none := by
  have h : s.mgr.Handed := reaches_handed (reaches_manager hs)
  have hpc : (s.mgr.setups k).pc = .insertSession := hen.1.1
  refine ⟨h.owner k (.inr hpc), ?_⟩
  cases hc : s.mgr.sessions.lookup (s.mgr.callId k) with
  | none => rfl
  | some session =>
    -- its task has returned and its call is open, so it would be this very task
    obtain ⟨hid, hret, hopen, _⟩ := h.session _ session.mediaPort hc
    have hkopen : s.mgr.handled k = false := by
      by_contra hne
      exact h.outside k (Bool.of_not_eq_false hne) hpc
    have heq : session.mediaPort = k := by
      apply h.eq_of_callId hid _ _ hopen hkopen
      · rw [hret]
        exact SetupPc.noConfusion
      · rw [hpc]
        exact SetupPc.noConfusion
    rw [heq, hpc] at hret
    cases hret

/-- A setup task about to insert its session. -/
theorem owner_becomes_active_connected : ∃ s, (bridge 1).Reaches (onManager overlooksNothing) s ∧
    s.enabled (.manager (.setup 0 .insertSession)) ∧
    (s.mgr.setups 0).owns = true ∧ s.mgr.sessions.lookup (s.mgr.callId 0) = none := by
  obtain ⟨s, hs, hP⟩ := System.exists_reaches_of_run (bridge 1) (onManager overlooksNothing) rfl
    (.manager (.newCall 3) :: answerCall 0 ++ attachMedia 3 0 7 ++ (establish 0).dropLast)
    (fun s => s.enabled (.manager (.setup 0 .insertSession))) (by decide)
  have hen := of_decide_eq_true hP
  exact ⟨s, hs, hen, owner_becomes_active hs hen⟩

/-- The first call ends while its task looks up the caller; a second call takes the id and is connected
before the first task registers over its entry. The second task does not own the id any more, is not
cancelled either, and becomes active. -/
theorem non_owner_becomes_active : ¬∀ (n : Nat) (s : State), (bridge n).Reachable s →
    ∀ k, s.enabled (.manager (.setup k .insertSession)) →
      (s.mgr.setups k).owns = true ∧ s.mgr.sessions.lookup (s.mgr.callId k) = none := by
  intro hclaim
  obtain ⟨s, hs, hP⟩ := System.exists_reaches_of_run (bridge 2) System.anyStep rfl
    ([.newCall 3, .incomingCall 0, .setup 0 .checkLimit, .endCall 0, .disconnected 0, .cancelPending 0,
        .newCall 3].map .manager ++ answerCall 1 ++ attachMedia 3 0 7 ++
      [.setup 1 .mediaReady, .setup 1 .connected, .setup 0 (.lookup false), .setup 0 .registerPort,
        .setup 0 .registerReady, .setup 0 .drawGeneration, .setup 0 .registerPending,
        .setup 1 .removePending, .setup 1 .checkCancel].map .manager)
    (fun s => s.enabled (.manager (.setup 1 .insertSession)) ∧ (s.mgr.setups 1).owns = false)
    (by decide)
  obtain ⟨hen, howns⟩ := of_decide_eq_true hP
  rw [(hclaim 2 s hs 1 hen).1] at howns
  cases howns

end MumbleSip
