import MumbleSip.Session.System

/-!
# Who owns an entry of `pending_setups`

Generations are drawn once and never shared, and an entry belongs to a setup task that has registered
it and has not yet called `remove_pending_setup`. Everything else about the map follows: only its own
task or a later registration of the same call id takes an entry out, and when every task has returned
nothing is left in it.
-/

namespace MumbleSip

open Transition

/-- Between the insertion into `pending_setups` and the call of `remove_pending_setup`. -/
def SetupPc.registered : SetupPc → Bool
  | .answer | .awaitMedia | .intro | .connect | .removePending | .abortSetup => true
  | _ => false

/-- After the call of `remove_pending_setup`. -/
def SetupPc.removed : SetupPc → Bool
  | .checkCancel | .insertSession | .teardown | .unregisterReady | .returned => true
  | _ => false

/-- After the generation has been drawn. -/
def SetupPc.drawn (pc : SetupPc) : Bool := pc == .registerPending || pc.registered || pc.removed

/-- The task has not been started, or has returned. -/
def SetupPc.finished : SetupPc → Bool
  | .unspawned | .rejected | .returned => true
  | _ => false

namespace Manager

variable {m : Manager} {k : Call} {a : SetupAction}

/-! ### What a step of `on_incoming_call` does to the task -/

theorem spawned_of_pc (hpc : (m.setups k).pc = a.pc) : (m.setups k).pc ≠ .unspawned := by
  rw [hpc]
  cases a <;> exact SetupPc.noConfusion

theorem ne_of_returned (hpc : (m.setups k).pc = a.pc) {k' : Call} (hret : (m.setups k').pc = .returned) :
    k' ≠ k := by
  rintro rfl
  rw [hpc] at hret
  revert hret
  cases a <;> exact SetupPc.noConfusion

theorem stepSetup_pc_ne_unspawned : (m.stepSetup k a).pc ≠ .unspawned := by
  cases a <;> simp only [stepSetup] <;> (try split) <;> exact SetupPc.noConfusion

theorem stepSetup_generation : (m.stepSetup k a).generation
    = if a = .drawGeneration then m.nextSetupGeneration else (m.setups k).generation := by
  cases a <;> simp only [stepSetup, reduceCtorEq, if_true, if_false] <;> split <;> rfl

theorem stepSetup_registered : (m.stepSetup k a).pc.registered
    = (a == .registerPending || (a.pc.registered && !(a == .removePending || a == .abortSetup))) := by
  cases a <;> simp only [stepSetup] <;> (try split) <;> rfl

theorem stepSetup_removed : (m.stepSetup k a).pc.removed
    = (a == .removePending || a == .abortSetup || a.pc.removed) := by
  cases a <;> simp only [stepSetup] <;> (try split) <;> rfl

theorem stepSetup_drawn : (m.stepSetup k a).pc.drawn = (a == .drawGeneration || a.pc.drawn) := by
  cases a <;> simp only [stepSetup] <;> (try split) <;> rfl

/-! ### `remove_pending_setup` -/

theorem release_eq_true : (m.release k).1 = true ↔
    ∃ t, m.pendingSetups.lookup (m.callId k) = some ((m.setups k).generation, t) := by
  unfold release removePendingSetup
  split
  · rename_i entry hentry
    split
    · rename_i heq
      simp only [hentry, Option.some.injEq, true_iff]
      exact ⟨entry.2, Prod.ext heq rfl⟩
    · rename_i hne
      simp only [hentry, Option.some.injEq, Bool.false_eq_true, false_iff, not_exists]
      rintro t rfl
      exact hne rfl
  · rename_i hnone
    simp only [hnone, reduceCtorEq, exists_false, Bool.false_eq_true]

theorem lookup_release (c : CallId) : (m.release k).2.lookup c
    = if c = m.callId k ∧ (m.release k).1 = true then none else m.pendingSetups.lookup c := by
  unfold release removePendingSetup
  split
  · split
    · simp only [FiniteMap.lookup_erase, and_true]
    · simp only [Bool.false_eq_true, and_false, if_false]
  · simp only [Bool.false_eq_true, and_false, if_false]

theorem lookup_stepPending (c : CallId) : (m.stepPending k a).lookup c
    = if a = .registerPending ∧ c = m.callId k then some ((m.setups k).generation, k)
      else if (a = .removePending ∨ a = .abortSetup) ∧ c = m.callId k ∧ (m.release k).1 = true then none
      else m.pendingSetups.lookup c := by
  cases a <;> simp [stepPending, FiniteMap.lookup_insert, lookup_release]

theorem lookup_own_stepPending (hpc : (m.setups k).pc = a.pc)
    (hreg : (m.stepSetup k a).pc.registered = true)
    (hentry : (m.setups k).pc.registered = true →
      m.pendingSetups.lookup (m.callId k) = some ((m.setups k).generation, k)) :
    (m.stepPending k a).lookup (m.callId k) = some ((m.stepSetup k a).generation, k) := by
  rw [stepSetup_registered] at hreg
  rw [lookup_stepPending, stepSetup_generation]
  by_cases ha : a = .registerPending
  · subst a
    rw [if_pos ⟨rfl, rfl⟩, if_neg SetupAction.noConfusion]
  · simp only [beq_eq_false_iff_ne.2 ha, Bool.false_or, Bool.and_eq_true, Bool.not_eq_true',
      Bool.or_eq_false_iff, beq_eq_false_iff_ne] at hreg
    obtain ⟨hareg, hrem, habort⟩ := hreg
    have hnew : a ≠ .drawGeneration := by
      intro heq
      rw [heq] at hareg
      cases hareg
    rw [if_neg (fun hc => ha hc.1), if_neg (fun hc => hc.1.elim hrem habort), if_neg hnew]
    exact hentry (by rw [hpc]; exact hareg)

theorem lookup_stepSessions (c : CallId) : (m.stepSessions k a).lookup c
    = if a = .insertSession ∧ c = m.callId k then some ⟨k⟩ else m.sessions.lookup c := by
  cases a <;> simp [stepSessions, FiniteMap.lookup_insert]

theorem stepSessions_of_ne (ha : a ≠ .insertSession) : m.stepSessions k a = m.sessions := by
  cases a <;> first | rfl | exact absurd rfl ha

/-! ### The invariant -/

/-- Calls get their names in order, generations are unique, and an entry of `pending_setups` is that of a
task of the same call id which has not removed it yet. -/
structure Owned (m : Manager) : Prop where
  named : ∀ k, m.nextCall ≤ k → (m.setups k).pc = .unspawned
  fresh : ∀ k, (m.setups k).pc.drawn = true → (m.setups k).generation < m.nextSetupGeneration
  unique : ∀ k k', (m.setups k).pc.drawn = true → (m.setups k').pc.drawn = true →
    (m.setups k).generation = (m.setups k').generation → k = k'
  entry : ∀ c g t, m.pendingSetups.lookup c = some (g, t) →
    m.callId t = c ∧ (m.setups t).pc.registered = true ∧ (m.setups t).generation = g

theorem drawn_of_registered {pc : SetupPc} (h : pc.registered = true) : pc.drawn = true := by
  simp only [SetupPc.drawn, h, Bool.or_true, Bool.true_or]

theorem drawn_of_removed {pc : SetupPc} (h : pc.removed = true) : pc.drawn = true := by
  simp only [SetupPc.drawn, h, Bool.or_true]

theorem Owned.lt_nextCall (h : Owned m) (hpc : (m.setups k).pc ≠ .unspawned) : k < m.nextCall := by
  by_contra hle
  exact hpc (h.named k (Nat.le_of_not_lt hle))

/-- The entry a setup finds under its own generation is its own. -/
theorem Owned.release (h : Owned m) (hpc : (m.setups k).pc.drawn = true) :
    (m.release k).1 = true ↔
      m.pendingSetups.lookup (m.callId k) = some ((m.setups k).generation, k) := by
  rw [release_eq_true]
  constructor
  · rintro ⟨t, ht⟩
    obtain ⟨_, hreg, hgen⟩ := h.entry _ _ _ ht
    rw [h.unique k t hpc (drawn_of_registered hreg) hgen.symm] at ht ⊢
    exact ht
  · exact fun hk => ⟨k, hk⟩

theorem owned_initial (n : Nat) : Owned (initial n) := by
  refine ⟨fun _ _ => rfl, fun k hk => ?_, fun k k' hk => ?_, fun c g t ht => ?_⟩
  · cases hk
  · cases hk
  · cases ht

theorem Owned.setup (h : Owned m) (hpc : (m.setups k).pc = a.pc) : Owned (m.next (.setup k a)) := by
  have hspawned : a.pc ≠ .unspawned := hpc ▸ spawned_of_pc hpc
  have hdrawn : (m.stepSetup k a).pc.drawn = true → a ≠ .drawGeneration →
      (m.setups k).pc.drawn = true := by
    rw [stepSetup_drawn, hpc]
    intro hk hne
    simpa only [Bool.or_eq_true, beq_iff_eq, hne, false_or] using hk
  refine ⟨fun k' hk' => ?_, fun k' hk' => ?_, fun k₁ k₂ h₁ h₂ hgen => ?_, fun c g t ht => ?_⟩
  · by_cases heq : k' = k
    · subst k'
      exact absurd (hpc ▸ h.named k hk') hspawned
    · simp only [next, Function.update_of_ne heq]
      exact h.named k' hk'
  · have hle : m.nextSetupGeneration ≤ m.stepGeneration a := by
      cases a <;> simp [stepGeneration]
    simp only [next] at hk' ⊢
    by_cases heq : k' = k
    · subst k'
      simp only [Function.update_self] at hk' ⊢
      rw [stepSetup_generation]
      split
      · rename_i ha
        subst a
        exact Nat.lt_succ_self _
      · rename_i ha
        exact Nat.lt_of_lt_of_le (h.fresh k (hdrawn hk' ha)) hle
    · simp only [Function.update_of_ne heq] at hk' ⊢
      exact Nat.lt_of_lt_of_le (h.fresh k' hk') hle
  · -- a new generation is above every drawn one; otherwise no generation changes
    simp only [next] at h₁ h₂ hgen
    by_cases heq₁ : k₁ = k <;> by_cases heq₂ : k₂ = k
    · exact heq₁.trans heq₂.symm
    · subst k₁
      simp only [Function.update_self, Function.update_of_ne heq₂, stepSetup_generation] at h₁ h₂ hgen
      split at hgen
      · have := h.fresh k₂ h₂
        omega
      · rename_i ha
        exact h.unique k k₂ (hdrawn h₁ ha) h₂ hgen
    · subst k₂
      simp only [Function.update_self, Function.update_of_ne heq₁, stepSetup_generation] at h₁ h₂ hgen
      split at hgen
      · have := h.fresh k₁ h₁
        omega
      · rename_i ha
        exact h.unique k₁ k h₁ (hdrawn h₂ ha) hgen
    · simp only [Function.update_of_ne heq₁, Function.update_of_ne heq₂] at h₁ h₂ hgen
      exact h.unique k₁ k₂ h₁ h₂ hgen
  · simp only [next] at ht ⊢
    rw [lookup_stepPending] at ht
    split at ht
    · rename_i hreg
      obtain ⟨rfl, rfl⟩ := hreg
      cases ht
      rw [Function.update_self, stepSetup_registered, stepSetup_generation]
      exact ⟨rfl, rfl, rfl⟩
    · rename_i hreg
      split at ht
      · cases ht
      · rename_i hrem
        obtain ⟨hc, htreg, htgen⟩ := h.entry c g t ht
        by_cases heq : t = k
        · subst t c
          -- the task has not removed its entry, or it would be gone
          have hkeep : ¬(a = .removePending ∨ a = .abortSetup) := by
            intro ha
            exact hrem ⟨ha, rfl, (h.release (drawn_of_registered htreg)).2 (by rw [ht, htgen])⟩
          have hnew : a ≠ .drawGeneration := by
            rintro rfl
            rw [hpc] at htreg
            cases htreg
          rw [not_or] at hkeep
          simp only [Function.update_self, stepSetup_registered, stepSetup_generation, if_neg hnew]
          rw [hpc] at htreg
          simp [htreg, htgen, hkeep.1, hkeep.2]
        · simp only [Function.update_of_ne heq]
          exact ⟨hc, htreg, htgen⟩

theorem Owned.next {a : ManagerAction} (h : Owned m) (hen : m.enabled a) : Owned (m.next a) := by
  cases a with
  | setup k a => exact h.setup hen.1
  | newCall c =>
    refine ⟨fun k hk => h.named k (Nat.le_of_succ_le hk), h.fresh, h.unique, fun c' g t ht => ?_⟩
    obtain ⟨hc, hreg, hgen⟩ := h.entry c' g t ht
    have hlt : t < m.nextCall := h.lt_nextCall fun hpc => by rw [hpc] at hreg; cases hreg
    refine ⟨?_, hreg, hgen⟩
    simp only [Manager.next]
    rw [Function.update_of_ne hlt.ne, hc]
  | incomingCall k =>
    obtain ⟨_, hlt, hpc, _⟩ := hen
    have hsame : ∀ k', ((m.next (.incomingCall k)).setups k').pc.registered
          = (m.setups k').pc.registered ∧
        ((m.next (.incomingCall k)).setups k').pc.drawn = (m.setups k').pc.drawn ∧
        ((m.next (.incomingCall k)).setups k').generation = (m.setups k').generation := by
      intro k'
      simp only [Manager.next]
      by_cases heq : k' = k
      · subst k'
        rw [Function.update_self, hpc]
        exact ⟨rfl, rfl, rfl⟩
      · rw [Function.update_of_ne heq]
        exact ⟨rfl, rfl, rfl⟩
    refine ⟨fun k' hk' => ?_, fun k' hk' => ?_, fun k₁ k₂ h₁ h₂ hgen => ?_, fun c g t ht => ?_⟩
    · have hne : k' ≠ k := (Nat.lt_of_lt_of_le hlt hk').ne'
      simp only [Manager.next]
      rw [Function.update_of_ne hne]
      exact h.named k' hk'
    · rw [(hsame k').2.2]
      exact h.fresh k' ((hsame k').2.1 ▸ hk')
    · rw [(hsame k₁).2.2, (hsame k₂).2.2] at hgen
      exact h.unique k₁ k₂ ((hsame k₁).2.1 ▸ h₁) ((hsame k₂).2.1 ▸ h₂) hgen
    · rw [(hsame t).1, (hsame t).2.2]
      exact h.entry c g t ht
  | endCall k => exact ⟨h.named, h.fresh, h.unique, h.entry⟩
  | disconnected k => exact ⟨h.named, h.fresh, h.unique, h.entry⟩
  | cancelPending k => exact ⟨h.named, h.fresh, h.unique, h.entry⟩
  | sessionTornDown k => exact ⟨h.named, h.fresh, h.unique, h.entry⟩

end Manager

theorem reaches_owned {n : Nat} {ok : Manager → ManagerAction → Prop} {m : Manager}
    (hm : (manager n).Reaches ok m) : m.Owned := by
  refine hm.invariant ?_ fun m a _ h hen _ => h.next hen
  rintro m rfl
  exact Manager.owned_initial n

/-! ### Removals -/

namespace Manager

variable {m : Manager} {k : Call}

/-- The step in which the setup task of `k` calls `remove_pending_setup` and it returns `true`. -/
def RemovesEntry (m : Manager) (a : ManagerAction) (k : Call) : Prop :=
  (a = .setup k .removePending ∨ a = .setup k .abortSetup) ∧ (m.release k).1 = true

theorem pendingSetups_next (a : ManagerAction) (c : CallId) :
    (m.next a).pendingSetups.lookup c = m.pendingSetups.lookup c ∨
      (∃ k, m.RemovesEntry a k ∧ m.callId k = c ∧ (m.next a).pendingSetups.lookup c = none) ∨
      ∃ k, a = .setup k .registerPending ∧ m.callId k = c ∧
        (m.next a).pendingSetups.lookup c = some ((m.setups k).generation, k) := by
  cases a with
  | setup k a =>
    simp only [next]
    rw [lookup_stepPending]
    split
    · rename_i hreg
      exact .inr (.inr ⟨k, by rw [hreg.1], hreg.2.symm, rfl⟩)
    · split
      · rename_i hrem
        refine .inr (.inl ⟨k, ⟨?_, hrem.2.2⟩, hrem.2.1.symm, rfl⟩)
        exact hrem.1.imp (congrArg _) (congrArg _)
      · exact .inl rfl
  | newCall | endCall | incomingCall | disconnected | cancelPending | sessionTornDown => exact .inl rfl

/-- The generation `g` has been drawn, and its task is past `remove_pending_setup`. -/
def Spent (g : Nat) (m : Manager) : Prop :=
  m.Owned ∧ ∃ k, (m.setups k).pc.removed = true ∧ (m.setups k).generation = g

theorem spent_of_removesEntry {a : ManagerAction} (h : m.Owned) (hen : m.enabled a)
    (hrem : m.RemovesEntry a k) : Spent (m.setups k).generation (m.next a) := by
  refine ⟨h.next hen, k, ?_⟩
  rcases hrem.1 with rfl | rfl
  all_goals
    simp only [next]
    rw [Function.update_self, stepSetup_removed, stepSetup_generation]
    exact ⟨rfl, rfl⟩

theorem Spent.next {g : Nat} {a : ManagerAction} (h : Spent g m) (hen : m.enabled a) :
    Spent g (m.next a) := by
  obtain ⟨howned, k, hpc, hgen⟩ := h
  refine ⟨howned.next hen, k, ?_⟩
  cases a with
  | setup k' a =>
    simp only [Manager.next]
    by_cases heq : k = k'
    · subst k'
      have hne : a ≠ .drawGeneration := by
        rintro rfl
        rw [hen.1] at hpc
        cases hpc
      rw [Function.update_self, stepSetup_removed, stepSetup_generation, if_neg hne, ← hen.1, hpc]
      exact ⟨Bool.or_true _, hgen⟩
    · rw [Function.update_of_ne heq]
      exact ⟨hpc, hgen⟩
  | incomingCall k' =>
    have hne : k ≠ k' := by
      rintro rfl
      rw [hen.2.2.1] at hpc
      cases hpc
    simp only [Manager.next]
    rw [Function.update_of_ne hne]
    exact ⟨hpc, hgen⟩
  | newCall | endCall | disconnected | cancelPending | sessionTornDown => exact ⟨hpc, hgen⟩

theorem Spent.not_removesEntry {g : Nat} {a : ManagerAction} (h : Spent g m) (hen : m.enabled a)
    (hrem : m.RemovesEntry a k) : (m.setups k).generation ≠ g := by
  obtain ⟨howned, k', hpc, hgen⟩ := h
  intro heq
  have hreg : (m.setups k).pc.registered = true := by
    rcases hrem.1 with rfl | rfl <;> rw [hen.1] <;> rfl
  have hkk' : k = k' :=
    howned.unique k k' (drawn_of_registered hreg) (drawn_of_removed hpc) (heq.trans hgen.symm)
  subst k'
  revert hreg hpc
  cases (m.setups k).pc <;> simp [SetupPc.registered, SetupPc.removed]

theorem Owned.pendingSetups_eq_empty (h : m.Owned) (hfin : ∀ k, (m.setups k).pc.finished = true) :
    m.pendingSetups = ∅ := by
  apply FiniteMap.eq_empty_of_lookup
  intro c
  cases hc : m.pendingSetups.lookup c with
  | none => rfl
  | some entry =>
    have hreg := (h.entry c entry.1 entry.2 hc).2.1
    have hend := hfin entry.2
    revert hreg hend
    cases (m.setups entry.2).pc <;> simp [SetupPc.registered, SetupPc.finished]

end Manager

/-! ### The life of an entry -/

/-- The steps of `on_call_disconnected`. -/
def Action.ofDisconnect : Action → Bool
  | .manager (.disconnected _) | .manager (.cancelPending _) | .manager (.sessionTornDown _) => true
  | .media (.job .main _) => true
  | _ => false

/-- The step in which `remove_pending_setup` returns `true` to the setup task of `k`. -/
def State.RemovesEntry (s : State) : Action → Call → Prop
  | .manager a, k => s.mgr.RemovesEntry a k
  | .media _, _ => False

/-- An entry of `pending_setups` goes only with its own task or to a later registration of its call id,
each generation is removed once, `on_call_disconnected` removes nothing, and the map is empty when
every task that was started has returned. -/
theorem pending_setups_owned {n : Nat} {s : State} (hs : (bridge n).Reachable s) :
    (∀ a, s.enabled a → ∀ c entry, s.mgr.pendingSetups.lookup c = some entry →
      (s.next a).mgr.pendingSetups.lookup c ≠ some entry →
      (∃ k, s.RemovesEntry a k ∧ entry = ((s.mgr.setups k).generation, k) ∧
        (s.next a).mgr.pendingSetups.lookup c = none) ∨
      ∃ k, a = .manager (.setup k .registerPending) ∧ s.mgr.callId k = c ∧
        (s.next a).mgr.pendingSetups.lookup c = some ((s.mgr.setups k).generation, k)) ∧
    (∀ a k, s.enabled a → s.RemovesEntry a k →
      ∀ s', ((bridge n).startingAt (s.next a)).Reachable s' →
      ∀ a' k', s'.enabled a' → s'.RemovesEntry a' k' →
        (s'.mgr.setups k').generation ≠ (s.mgr.setups k).generation) ∧
    (∀ a, a.ofDisconnect = true → (s.next a).mgr.pendingSetups = s.mgr.pendingSetups) ∧
    ((∀ k, (s.mgr.setups k).pc.finished = true) → s.mgr.pendingSetups = ∅) := by
  have howned : s.mgr.Owned := reaches_owned (reachable_manager hs)
  refine ⟨fun a hen c entry hentry hgone => ?_, fun a k hen hrem s' hs' a' k' hen' hrem' => ?_,
    fun a ha => ?_, howned.pendingSetups_eq_empty⟩
  · cases a with
    | media b => exact absurd hentry hgone
    | manager a =>
      rcases Manager.pendingSetups_next (m := s.mgr) a c with hsame | ⟨k, hrem, rfl, hnone⟩ |
        ⟨k, rfl, hc, hlast⟩
      · exact absurd (hsame.trans hentry) hgone
      · refine .inl ⟨k, hrem, ?_, hnone⟩
        have hdrawn : (s.mgr.setups k).pc.drawn = true := by
          rcases hrem.1 with rfl | rfl <;> rw [hen.1.1] <;> rfl
        have hown := (howned.release hdrawn).1 hrem.2
        exact Option.some.inj (hentry.symm.trans hown)
      · exact .inr ⟨k, rfl, hc, hlast⟩
  · cases a with
    | media b => exact hrem.elim
    | manager a =>
      have hspent : Manager.Spent (s.mgr.setups k).generation s'.mgr := by
        refine hs'.stable (P := fun s => Manager.Spent _ s.mgr)
          (Manager.spent_of_removesEntry howned hen.1 hrem) fun s b hs hen _ => ?_
        cases b with
        | manager b => exact hs.next hen.1
        | media b => exact hs
      cases a' with
      | media b => exact hrem'.elim
      | manager a' => exact hspent.not_removesEntry hen'.1 hrem'
  · cases a with
    | media b => rfl
    | manager a => cases a <;> first | rfl | cases ha

/-- A call that is answered, connected and established leaves `pending_setups` empty. -/
theorem pending_setups_owned_established : ∃ s, (bridge 1).Reachable s ∧
    s.mgr.sessions.lookup 3 = some ⟨0⟩ ∧ s.mgr.pendingSetups = ∅ := by
  obtain ⟨s, hs, hP⟩ := System.exists_reaches_of_run (bridge 1) System.anyStep rfl
    (.manager (.newCall 3) :: answerCall 0 ++ attachMedia 3 0 7 ++ establish 0)
    (fun s => s.mgr.sessions.lookup 3 = some ⟨0⟩ ∧ s.mgr.nextCall = 1 ∧
      (s.mgr.setups 0).pc = .returned) (by decide)
  obtain ⟨hsession, hnext, hpc⟩ := of_decide_eq_true hP
  refine ⟨s, hs, hsession, (pending_setups_owned hs).2.2.2 fun k => ?_⟩
  rcases Nat.eq_zero_or_pos k with rfl | hk
  · rw [hpc]
    rfl
  · rw [(reaches_owned (reachable_manager hs)).named k (by omega)]
    rfl

end MumbleSip
