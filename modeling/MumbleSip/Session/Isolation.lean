import MumbleSip.Session.Attachment

/-!
# Setups that share a call id

`PENDING_PORTS`, `ACTIVE_MEDIA` and `MEDIA_READY_TX` are keyed by the bare call id, and a new setup writes
them before it enters `pending_setups`. One ownership bit protects all four maps as long as no other
setup of the id is between its first registration and its entry, or cleaning up as the owner, at the
wrong moment. The invariant follows the setup that registered its port last, for each call id.
-/

namespace MumbleSip

open Transition Custody

/-- Between the registration of the port and the insertion into `pending_setups`. -/
def SetupPc.registering : SetupPc → Bool
  | .registerReady | .drawGeneration | .registerPending => true
  | _ => false

/-- The media callback has a port it may still publish or put back. -/
def CallbackPc.holding : CallbackPc → Bool
  | .getConfPort | .createPool | .addPort | .publish | .putBack => true
  | _ => false

/-- A teardown that is about to look at `PENDING_PORTS` or `ACTIVE_MEDIA`. -/
def Stage.looking : Stage → Bool
  | .unregisterPort | .takeActive _ => true
  | _ => false

namespace Manager

variable {m : Manager} {k : Call}

def registering (m : Manager) (k : Call) : Bool := (m.setups k).pc.registering

/-- The setup is being cleaned up as the owner of its call id, or is about to be. -/
def cleaning (m : Manager) (k : Call) : Bool :=
  (m.setups k).owns && ((m.setups k).pc == .teardown || (m.setups k).pc == .unregisterReady ||
    (m.setups k).pc == .checkCancel && m.cancelled k)

/-- Some other setup of the same call id has the property. -/
def another (m : Manager) (k : Call) (p : Call → Bool) : Bool :=
  (List.range m.nextCall).any fun k' => k' != k && m.callId k' == m.callId k && p k'

/-- A setup registers its port while no other setup of its call id is registering or cleaning up, and
begins to clean up as the owner while none is registering. -/
def claimSafe (m : Manager) : ManagerAction → Bool
  | .setup k .registerPort => !m.another k fun k' => m.registering k' || m.cleaning k'
  | .setup k .abortSetup => !((m.release k).1 && m.another k m.registering)
  | .setup k .removePending => !((m.release k).1 && m.cancelled k && m.another k m.registering)
  | _ => true

/-- The setup that registered its port last, for each call id. -/
def claim (m : Manager) (latest : CallId → Option Call) : ManagerAction → CallId → Option Call
  | .setup k .registerPort => Function.update latest (m.callId k) (some k)
  | _ => latest

structure Claimed (latest : CallId → Option Call) (m : Manager) : Prop where
  named : ∀ c k, latest c = some k → m.callId k = c ∧ (m.setups k).pc ≠ .unspawned
  registering : ∀ k, m.registering k = true → latest (m.callId k) = some k
  cleaning : ∀ k, m.cleaning k = true → latest (m.callId k) = some k
  entry : ∀ c g k, m.pendingSetups.lookup c = some (g, k) →
    latest c = some k ∨ ∃ k', latest c = some k' ∧ m.registering k' = true
  unregister : ∀ k, (m.setups k).pc = .unregisterReady → (m.setups k).owns = true

theorem setups_next {b : ManagerAction} (hen : m.enabled b) (hspawned : (m.setups k).pc ≠ .unspawned)
    (hb : ∀ a, b ≠ .setup k a) : (m.next b).setups k = m.setups k := by
  cases b with
  | incomingCall k' =>
    have hne : k ≠ k' := fun heq => hspawned (heq ▸ hen.2.2.1)
    exact Function.update_of_ne hne _ _
  | setup k' a =>
    have hne : k ≠ k' := fun heq => hb a (heq ▸ rfl)
    exact Function.update_of_ne hne _ _
  | _ => rfl

theorem callId_next (howned : m.Owned) (hspawned : (m.setups k).pc ≠ .unspawned) (b : ManagerAction) :
    (m.next b).callId k = m.callId k := by
  cases b with
  | newCall c => exact Function.update_of_ne (howned.lt_nextCall hspawned).ne _ _
  | _ => rfl

theorem claimed_initial (n : Nat) : Claimed (fun _ => none) (initial n) where
  named _ _ h := by cases h
  registering _ h := by cases h
  cleaning _ h := by cases h
  entry _ _ _ h := by cases h
  unregister _ h := by cases h

variable {latest : CallId → Option Call} {a : SetupAction}

theorem not_another {p : Call → Bool} (h : m.another k p = false) {k' : Call} (hlt : k' < m.nextCall)
    (hne : k' ≠ k) (hid : m.callId k' = m.callId k) : p k' = false := by
  rw [another, List.any_eq_false] at h
  have := h k' (List.mem_range.2 hlt)
  simpa only [bne_iff_ne, ne_eq, hne, not_false_eq_true, hid, beq_self_eq_true, Bool.and_true,
    Bool.and_eq_true, decide_true, true_and, Bool.not_eq_true] using this

theorem registering_spawned (h : m.registering k = true) : (m.setups k).pc ≠ .unspawned := by
  intro hpc
  rw [registering, hpc] at h
  cases h

theorem cleaning_spawned (h : m.cleaning k = true) : (m.setups k).pc ≠ .unspawned := by
  intro hpc
  rw [cleaning, hpc] at h
  revert h
  cases (m.setups k).owns <;> exact nofun

/-! ### Steps of a setup task -/

theorem stepSetup_registering : (m.stepSetup k a).pc.registering
    = (a == .registerPort || a == .registerReady || a == .drawGeneration) := by
  cases a <;> simp only [stepSetup] <;> (try split) <;> rfl

theorem cleaning_setup (hpc : (m.setups k).pc = a.pc)
    (h : (m.next (.setup k a)).cleaning k = true) :
    (a = .abortSetup ∨ a = .removePending ∧ m.cancelled k = true) ∧ (m.release k).1 = true ∨
      m.cleaning k = true := by
  simp only [cleaning, Manager.next, Function.update_self, Bool.and_eq_true] at h ⊢
  obtain ⟨howns, hstage⟩ := h
  cases a with
  | abortSetup => exact .inl ⟨.inl rfl, howns⟩
  | removePending => exact .inl ⟨.inr ⟨rfl, by simpa [stepSetup] using hstage⟩, howns⟩
  | checkCancel =>
    simp only [stepSetup] at howns hstage
    split at hstage
    · rename_i hcancel
      rw [if_pos hcancel] at howns
      refine .inr ⟨howns, ?_⟩
      rw [hpc, hcancel]
      rfl
    · cases hstage
  | teardownDone =>
    refine .inr ⟨?_, by rw [hpc]; rfl⟩
    simp only [stepSetup] at howns
    split at howns <;> exact howns
  | checkLimit | mediaReady =>
    simp only [stepSetup] at hstage
    split at hstage <;> cases hstage
  | answer ok => cases ok <;> cases hstage
  | _ => cases hstage

/-- The owner of an entry registered last if no other setup is registering. -/
theorem Claimed.of_release (h : Claimed latest m) (howned : m.Owned)
    (hdrawn : (m.setups k).pc.drawn = true) (hrel : (m.release k).1 = true)
    (hreg : m.registering k = false) (hnone : m.another k m.registering = false) :
    latest (m.callId k) = some k := by
  rcases h.entry _ _ _ ((howned.release hdrawn).1 hrel) with hlatest | ⟨k', hlatest, hk'⟩
  · exact hlatest
  · have hne : k' ≠ k := by
      intro heq
      rw [heq, hreg] at hk'
      cases hk'
    have := not_another hnone (howned.lt_nextCall (registering_spawned hk')) hne (h.named _ _ hlatest).1
    rw [hk'] at this
    cases this

theorem update_latest_eq {k' : Call}
    (hother : k' ≠ k → m.callId k' ≠ m.callId k ∧ latest (m.callId k') = some k') :
    Function.update latest (m.callId k) (some k) (m.callId k') = some k' := by
  by_cases heq : k' = k
  · rw [heq, Function.update_self]
  · rw [Function.update_of_ne (hother heq).1]
    exact (hother heq).2

theorem Claimed.registerPort (h : Claimed latest m) (howned : m.Owned)
    (hen : m.enabled (.setup k .registerPort)) (hsafe : m.claimSafe (.setup k .registerPort) = true) :
    Claimed (Function.update latest (m.callId k) (some k)) (m.next (.setup k .registerPort)) := by
  have hpc : (m.setups k).pc = .registerPort := hen.1
  have hother : ∀ k', k' ≠ k → (m.next (.setup k .registerPort)).setups k' = m.setups k' :=
    fun k' hne => Function.update_of_ne hne _ _
  have hself : (m.next (.setup k .registerPort)).registering k = true := by
    simp only [Manager.registering, Manager.next, Function.update_self]
    rfl
  have hquiet : ∀ k', k' ≠ k → m.callId k' = m.callId k → (m.setups k').pc ≠ .unspawned →
      m.registering k' = false ∧ m.cleaning k' = false := by
    intro k' hne hid hspawned
    have hnone : m.another k (fun k' => m.registering k' || m.cleaning k') = false := by
      simpa only [claimSafe, Bool.not_eq_true'] using hsafe
    exact Bool.or_eq_false_iff.1 (not_another hnone (howned.lt_nextCall hspawned) hne hid)
  refine ⟨fun c k' hk' => ?_, fun k' hk' => ?_, fun k' hk' => ?_, fun c g k' hk' => ?_,
    fun k' hk' => ?_⟩
  · by_cases hc : c = m.callId k
    · rw [hc, Function.update_self] at hk'
      cases hk'
      refine ⟨hc.symm, ?_⟩
      simp only [next, Function.update_self]
      exact stepSetup_pc_ne_unspawned
    · rw [Function.update_of_ne hc] at hk'
      obtain ⟨hid, hspawned⟩ := h.named c k' hk'
      have hne : k' ≠ k := fun heq => hc (by rw [← hid, heq])
      exact ⟨hid, by rw [hother k' hne]; exact hspawned⟩
  · apply update_latest_eq
    intro hne
    have hbefore : m.registering k' = true := by
      rw [Manager.registering, hother k' hne] at hk'
      exact hk'
    refine ⟨?_, h.registering k' hbefore⟩
    intro hid
    have hnot := (hquiet k' hne hid (registering_spawned hbefore)).1
    rw [hbefore] at hnot
    cases hnot
  · apply update_latest_eq
    intro hne
    have hbefore : m.cleaning k' = true := by
      rw [Manager.cleaning, hother k' hne] at hk'
      exact hk'
    refine ⟨?_, h.cleaning k' hbefore⟩
    intro hid
    have hnot := (hquiet k' hne hid (cleaning_spawned hbefore)).2
    rw [hbefore] at hnot
    cases hnot
  · by_cases hc : c = m.callId k
    · exact .inr ⟨k, by rw [hc, Function.update_self], hself⟩
    · rw [Function.update_of_ne hc]
      apply (h.entry c g k' hk').imp_right
      intro hreg
      obtain ⟨k'', hlatest, hk''⟩ := hreg
      have hne : k'' ≠ k := fun heq => hc (by rw [← (h.named _ _ hlatest).1, heq])
      exact ⟨k'', hlatest, by rw [Manager.registering, hother k'' hne]; exact hk''⟩
  · by_cases heq : k' = k
    · rw [heq] at hk'
      simp only [next, Function.update_self] at hk'
      cases hk'
    · rw [hother k' heq] at hk' ⊢
      exact h.unregister k' hk'

theorem Claimed.setup (h : Claimed latest m) (howned : m.Owned) (hen : m.enabled (.setup k a))
    (hsafe : m.claimSafe (.setup k a) = true) :
    Claimed (m.claim latest (.setup k a)) (m.next (.setup k a)) := by
  by_cases ha : a = .registerPort
  · subst a
    exact h.registerPort howned hen hsafe
  have hpc : (m.setups k).pc = a.pc := hen.1
  have hother : ∀ k', k' ≠ k → (m.next (.setup k a)).setups k' = m.setups k' :=
    fun k' hne => Function.update_of_ne hne _ _
  have hclaim : m.claim latest (.setup k a) = latest := by
    cases a <;> first | rfl | exact absurd rfl ha
  rw [hclaim]
  refine ⟨fun c k' hk' => ?_, fun k' hk' => ?_, fun k' hk' => ?_, fun c g k' hk' => ?_,
    fun k' hk' => ?_⟩
  · obtain ⟨hid, hspawned⟩ := h.named c k' hk'
    refine ⟨hid, ?_⟩
    by_cases heq : k' = k
    · rw [heq]
      simp only [next, Function.update_self]
      exact stepSetup_pc_ne_unspawned
    · rw [hother k' heq]
      exact hspawned
  · by_cases heq : k' = k
    · subst k'
      apply h.registering k
      simp only [Manager.registering, Manager.next, Function.update_self] at hk'
      rw [stepSetup_registering] at hk'
      rw [Manager.registering, hpc]
      revert hk' ha
      cases a <;> simp [SetupAction.pc, SetupPc.registering]
    · rw [Manager.registering, hother k' heq] at hk'
      exact h.registering k' hk'
  · by_cases heq : k' = k
    · subst k'
      rcases cleaning_setup hpc hk' with ⟨hcause, hrel⟩ | hclean
      · have hreg : m.registering k = false := by
          rw [Manager.registering, hpc]
          rcases hcause with rfl | ⟨rfl, _⟩ <;> rfl
        have hdrawn : (m.setups k).pc.drawn = true := by
          rw [hpc]
          rcases hcause with rfl | ⟨rfl, _⟩ <;> rfl
        apply h.of_release howned hdrawn hrel hreg
        rcases hcause with rfl | ⟨rfl, hcancel⟩
        · simpa only [claimSafe, hrel, Bool.true_and, Bool.not_eq_true'] using hsafe
        · simpa only [claimSafe, hrel, hcancel, Bool.true_and, Bool.not_eq_true'] using hsafe
      · exact h.cleaning k hclean
    · rw [Manager.cleaning, hother k' heq] at hk'
      exact h.cleaning k' hk'
  · simp only [next] at hk'
    rw [lookup_stepPending] at hk'
    split at hk'
    · rename_i hreg
      obtain ⟨rfl, rfl⟩ := hreg
      cases hk'
      exact .inl (h.registering k (by rw [Manager.registering, hpc]; rfl))
    · rename_i hreg
      split at hk'
      · cases hk'
      · apply (h.entry c g k' hk').imp_right
        intro hlast
        obtain ⟨k'', hlatest, hk''⟩ := hlast
        refine ⟨k'', hlatest, ?_⟩
        by_cases heq : k'' = k
        · -- the setup is still registering, or the entry would be its own
          subst k''
          have hne : a ≠ .registerPending := fun heq => hreg ⟨heq, (h.named _ _ hlatest).1.symm⟩
          rw [Manager.registering, hpc] at hk''
          simp only [Manager.registering, Manager.next, Function.update_self]
          rw [stepSetup_registering]
          revert hk'' hne
          cases a <;> simp [SetupAction.pc, SetupPc.registering]
        · rw [Manager.registering, hother k'' heq]
          exact hk''
  · by_cases heq : k' = k
    · subst k'
      simp only [next, Function.update_self] at hk' ⊢
      cases a with
      | teardownDone =>
        simp only [stepSetup] at hk' ⊢
        split at hk'
        · rename_i howns
          rw [if_pos howns]
          exact (Bool.and_eq_true_iff.1 howns).1
        · cases hk'
      | checkLimit | checkCancel | mediaReady =>
        simp only [stepSetup] at hk'
        split at hk' <;> cases hk'
      | answer ok => cases ok <;> cases hk'
      | _ => cases hk'
    · rw [hother k' heq] at hk' ⊢
      exact h.unregister k' hk'

/-! ### Steps of the main loop -/

theorem cleaning_cancelPending (howned : m.Owned) {k' : Call}
    (h : (m.next (.cancelPending k)).cleaning k' = true) : m.cleaning k' = true := by
  by_cases hcancel : (m.next (.cancelPending k)).cancelled k' = m.cancelled k'
  · simp only [Manager.cleaning, hcancel] at h ⊢
    exact h
  · -- the cancelled entry is that of a setup that has not removed it
    cases hentry : m.pendingSetups.lookup (m.callId k) with
    | none => simp only [next, cancelPendingSetup, hentry, not_true_eq_false] at hcancel
    | some entry =>
      have hk' : k' = entry.2 := by
        by_contra hne
        simp only [next, cancelPendingSetup, hentry, Function.update_of_ne hne,
          not_true_eq_false] at hcancel
      have hreg := (howned.entry _ entry.1 entry.2 hentry).2.1
      rw [← hk'] at hreg
      simp only [Manager.cleaning, next, Bool.and_eq_true] at h
      obtain ⟨_, hstage⟩ := h
      revert hreg hstage
      cases (m.setups k').pc <;> simp [SetupPc.registered]

theorem Claimed.next {b : ManagerAction} (h : Claimed latest m) (howned : m.Owned) (hen : m.enabled b)
    (hsafe : m.claimSafe b = true) : Claimed (m.claim latest b) (m.next b) := by
  cases b with
  | setup k a => exact h.setup howned hen hsafe
  | newCall c =>
    have hid : ∀ k, (m.setups k).pc ≠ .unspawned →
        Function.update m.callId m.nextCall c k = m.callId k :=
      fun k hk => Function.update_of_ne (howned.lt_nextCall hk).ne _ _
    refine ⟨fun c' k hk => ?_, fun k hk => ?_, fun k hk => ?_, h.entry, h.unregister⟩
    · obtain ⟨hk, hspawned⟩ := h.named c' k hk
      exact ⟨(hid k hspawned).trans hk, hspawned⟩
    · show latest (Function.update m.callId m.nextCall c k) = some k
      rw [hid k (registering_spawned (m := m) hk)]
      exact h.registering k hk
    · show latest (Function.update m.callId m.nextCall c k) = some k
      rw [hid k (cleaning_spawned (m := m) hk)]
      exact h.cleaning k hk
  | incomingCall k =>
    have hpc : (m.setups k).pc = .unspawned := hen.2.2.1
    have hother : ∀ k', k' ≠ k → (m.next (.incomingCall k)).setups k' = m.setups k' :=
      fun k' hne => Function.update_of_ne hne _ _
    have hself : ((m.next (.incomingCall k)).setups k).pc = .checkLimit := by
      simp only [Manager.next, Function.update_self]
    have hold : ∀ k', ((m.next (.incomingCall k)).setups k').pc ≠ .checkLimit →
        (m.next (.incomingCall k)).setups k' = m.setups k' :=
      fun k' hne => hother k' fun heq => hne (heq ▸ hself)
    refine ⟨fun c k' hk' => ?_, fun k' hk' => ?_, fun k' hk' => ?_, fun c g k' hk' => ?_,
      fun k' hk' => ?_⟩
    · obtain ⟨hid, hspawned⟩ := h.named c k' hk'
      exact ⟨hid, by rw [hother k' fun heq => hspawned (heq ▸ hpc)]; exact hspawned⟩
    · have hne : ((m.next (.incomingCall k)).setups k').pc ≠ .checkLimit := by
        intro heq
        rw [Manager.registering, heq] at hk'
        cases hk'
      rw [Manager.registering, hold k' hne] at hk'
      exact h.registering k' hk'
    · have hne : ((m.next (.incomingCall k)).setups k').pc ≠ .checkLimit := by
        intro heq
        rw [Manager.cleaning, heq] at hk'
        revert hk'
        cases ((m.next (.incomingCall k)).setups k').owns <;> exact fun h => by cases h
      rw [Manager.cleaning, hold k' hne] at hk'
      exact h.cleaning k' hk'
    · apply (h.entry c g k' hk').imp_right
      intro hreg
      obtain ⟨k'', hlatest, hk''⟩ := hreg
      refine ⟨k'', hlatest, ?_⟩
      rw [Manager.registering, hother k'' fun heq => registering_spawned hk'' (heq ▸ hpc)]
      exact hk''
    · have hne : ((m.next (.incomingCall k)).setups k').pc ≠ .checkLimit := by
        rw [hk']
        intro h
        cases h
      rw [hold k' hne] at hk' ⊢
      exact h.unregister k' hk'
  | cancelPending k =>
    exact ⟨h.named, h.registering, fun k' hk' => h.cleaning k' (cleaning_cancelPending howned hk'),
      h.entry, h.unregister⟩
  | endCall k => exact ⟨h.named, h.registering, h.cleaning, h.entry, h.unregister⟩
  | disconnected k => exact ⟨h.named, h.registering, h.cleaning, h.entry, h.unregister⟩
  | sessionTornDown k => exact ⟨h.named, h.registering, h.cleaning, h.entry, h.unregister⟩

end Manager

/-! ### The media side -/

namespace Media

variable {m : Media} {latest : CallId → Option Call}

/-- Nothing of an earlier call is left in `ACTIVE_MEDIA` under this id, nor in the hands of a media
callback. -/
def noMedia (m : Media) (c : CallId) : Bool :=
  (m.activeMedia.lookup c).isNone && (List.range m.nextCallback).all fun j =>
    !((m.callbacks j).pc.holding && (m.callbacks j).callId == c)

/-- What is registered under a call id, or about to be, is the port registered last. -/
structure Registered (latest : CallId → Option Call) (m : Media) : Prop where
  pending : ∀ c p, m.pendingPorts.lookup c = some p → latest c = some p
  active : ∀ c active, m.activeMedia.lookup c = some active → latest c = some (m.portOf active)
  holding : ∀ j, (m.callbacks j).pc.holding = true →
    latest (m.callbacks j).callId = some (m.callbacks j).port

theorem registered_initial : Registered (fun _ => none) initial where
  pending _ _ h := by cases h
  active _ _ h := by cases h
  holding _ h := by cases h

theorem portOf_setCallback {active : ActiveMedia} {j : Nat} {callback : MediaCallback}
    (hport : active.pool = j → callback.port = (m.callbacks j).port) :
    (m.setCallback j callback).portOf active = m.portOf active := by
  simp only [portOf, setCallback]
  by_cases heq : active.pool = j
  · rw [heq, Function.update_self, hport heq]
  · rw [Function.update_of_ne heq]

theorem Registered.setCallback (h : m.Registered latest) (hslots : m.Slotted) {j : Nat}
    (callback : MediaCallback) (hport : m.Published j → callback.port = (m.callbacks j).port)
    (hhold : callback.pc.holding = true → latest callback.callId = some callback.port) :
    Registered latest (m.setCallback j callback) := by
  refine ⟨h.pending, fun c active hc => ?_, fun j' hj' => ?_⟩
  · rw [portOf_setCallback fun heq => hport (heq ▸ (hslots.active c active hc).1)]
    exact h.active c active hc
  · simp only [Media.setCallback] at hj' ⊢
    by_cases heq : j' = j
    · rw [heq, Function.update_self] at hj' ⊢
      exact hhold hj'
    · rw [Function.update_of_ne heq] at hj' ⊢
      exact h.holding j' hj'

theorem Registered.of_subset (h : m.Registered latest) {m' : Media} (hcallbacks : m'.callbacks = m.callbacks)
    (hpending : ∀ c p, m'.pendingPorts.lookup c = some p → m.pendingPorts.lookup c = some p)
    (hactive : ∀ c active, m'.activeMedia.lookup c = some active →
      m.activeMedia.lookup c = some active) : m'.Registered latest := by
  refine ⟨fun c p hc => h.pending c p (hpending c p hc), fun c active hc => ?_, fun j hj => ?_⟩
  · rw [portOf, hcallbacks]
    exact h.active c active (hactive c active hc)
  · rw [hcallbacks] at hj ⊢
    exact h.holding j hj

theorem Registered.stepJob (h : m.Registered latest) (a : Actor) (ok : Bool) :
    Registered latest (m.stepJob a ok) := by
  have hframe := m.jobFrame_stepJob a ok
  refine h.of_subset hframe.callbacks (fun c p hc => ?_) fun c active hc => ?_
  · rcases hframe.pendingPorts with heq | ⟨_, heq⟩ <;> rw [heq] at hc
    · exact hc
    · exact FiniteMap.lookup_of_erase hc
  · rcases hframe.activeMedia with heq | ⟨_, heq⟩ <;> rw [heq] at hc
    · exact hc
    · exact FiniteMap.lookup_of_erase hc

theorem Registered.publish (h : m.Registered latest) (hslots : m.Slotted) {j : Nat}
    (hpc : (m.callbacks j).pc = .publish) : Registered latest (m.publish j) := by
  have hhold := h.holding j (by rw [hpc]; rfl)
  have hset := h.setCallback hslots (j := j) { m.callbacks j with pc := .notify } (fun _ => rfl) nofun
  refine ⟨h.pending, fun c active hc => ?_, hset.holding⟩
  have hport : (m.publish j).portOf active = m.portOf active :=
    portOf_setCallback (m := m) fun _ => rfl
  rw [hport]
  simp only [Media.publish, gotoCallback, Media.setCallback, FiniteMap.lookup_insert] at hc
  split at hc
  · rename_i hid
    cases hc
    rw [hid]
    exact hhold
  · exact h.active c active hc

theorem Registered.putBack (h : m.Registered latest) (hslots : m.Slotted) {j : Nat}
    (hpc : (m.callbacks j).pc = .putBack) : Registered latest (m.putBack j) := by
  have hhold := h.holding j (by rw [hpc]; rfl)
  have hset := h.setCallback hslots (j := j) { m.callbacks j with pc := .done } (fun _ => rfl) nofun
  refine ⟨fun c p hc => ?_, hset.active, hset.holding⟩
  simp only [Media.putBack, gotoCallback, Media.setCallback, registerPendingPort,
    FiniteMap.lookup_insert] at hc
  split at hc
  · rename_i hid
    cases hc
    rw [hid]
    exact hhold
  · exact h.pending c p hc

theorem Registered.takePort (h : m.Registered latest) (hslots : m.Slotted) {j : Nat}
    (hpc : (m.callbacks j).pc = .takePort) : Registered latest (m.takePort j) := by
  have hnot : ¬m.Published j := by
    intro hpub
    rcases hpub.2 with hpub | hpub <;> rw [hpc] at hpub <;> cases hpub
  simp only [Media.takePort, unregisterPendingPort]
  cases hport : m.pendingPorts.lookup (m.callbacks j).callId with
  | none =>
    have hset := h.setCallback hslots (j := j) { m.callbacks j with pc := .done } (fun _ => rfl)
      (fun h => by cases h)
    exact ⟨fun c p hc => h.pending c p (FiniteMap.lookup_of_erase hc), hset.active, hset.holding⟩
  | some port =>
    have hset := h.setCallback hslots (j := j) { m.callbacks j with port := port, pc := .getConfPort }
      (fun hpub => absurd hpub hnot) fun _ => h.pending _ port hport
    exact ⟨fun c p hc => h.pending c p (FiniteMap.lookup_of_erase hc), hset.active, hset.holding⟩

theorem Registered.next (h : m.Registered latest) (hslots : m.Slotted) {b : MediaAction}
    (hen : m.enabled b) : Registered latest (m.next b) := by
  have hhold : ∀ {j : Nat} {pc : CallbackPc}, (m.callbacks j).pc = pc → pc.holding = true →
      latest (m.callbacks j).callId = some (m.callbacks j).port :=
    fun hpc hholding => h.holding _ (by rw [hpc]; exact hholding)
  cases b with
  | job a ok => exact h.stepJob a ok
  | mediaState c =>
    have hset := h.setCallback hslots (j := m.nextCallback) ⟨c, 0, false, 0, .takePort⟩
      (fun hpub => absurd hpub.1 (Nat.lt_irrefl _)) nofun
    exact ⟨hset.pending, hset.active, hset.holding⟩
  | takePort j => exact h.takePort hslots hen
  | getConfPort j ok => exact h.setCallback hslots _ (fun _ => rfl) fun _ => hhold hen rfl
  | createPool j ok =>
    cases ok <;> exact h.setCallback hslots _ (fun _ => rfl) fun _ => hhold hen rfl
  | addPort j portId =>
    cases portId with
    | none =>
      have hset := h.setCallback hslots (j := j) { m.callbacks j with pc := .putBack } (fun _ => rfl)
        fun _ => hhold hen.1 rfl
      exact ⟨hset.pending, hset.active, hset.holding⟩
    | some conf =>
      have hset := h.setCallback hslots (j := j) { m.callbacks j with portId := conf, pc := .publish }
        (fun _ => rfl) fun _ => hhold hen.1 rfl
      exact ⟨hset.pending, hset.active, hset.holding⟩
  | publish j => exact h.publish hslots hen
  | notify j =>
    have hset := h.setCallback hslots (j := j) { m.callbacks j with pc := .done } (fun _ => rfl) nofun
    exact ⟨hset.pending, hset.active, hset.holding⟩
  | putBack j => exact h.putBack hslots hen
  | portRemoved conf ok => exact h.of_subset rfl (fun _ _ hc => hc) fun _ _ hc => hc
  | confOp i =>
    obtain ⟨_, _, _, _, _, heq⟩ := m.frees_confOp i
    rw [heq]
    exact h.of_subset rfl (fun _ _ hc => hc) fun _ _ hc => hc
  | deferred i =>
    obtain ⟨_, _, _, _, _, heq⟩ := m.frees_deferred i
    rw [heq]
    exact h.of_subset rfl (fun _ _ hc => hc) fun _ _ hc => hc

theorem ready_next {b : MediaAction} (hb : ∀ j, b ≠ .notify j) :
    (m.next b).mediaReadyTx = m.mediaReadyTx ∧ (m.next b).ready = m.ready := by
  cases b with
  | notify j => exact absurd rfl (hb j)
  | job a ok => exact ⟨(m.jobFrame_stepJob a ok).mediaReadyTx, (m.jobFrame_stepJob a ok).ready⟩
  | takePort j =>
    simp only [Media.next, Media.takePort, unregisterPendingPort]
    cases m.pendingPorts.lookup (m.callbacks j).callId <;> exact ⟨rfl, rfl⟩
  | createPool j ok => cases ok <;> exact ⟨rfl, rfl⟩
  | addPort j portId => cases portId <;> exact ⟨rfl, rfl⟩
  | confOp i =>
    obtain ⟨_, _, _, _, _, heq⟩ := m.frees_confOp i
    rw [heq]
    exact ⟨rfl, rfl⟩
  | deferred i =>
    obtain ⟨_, _, _, _, _, heq⟩ := m.frees_deferred i
    rw [heq]
    exact ⟨rfl, rfl⟩
  | _ => exact ⟨rfl, rfl⟩

theorem lookup_mediaReadyTx_next {b : MediaAction} {c : CallId} {k : Call}
    (hc : (m.next b).mediaReadyTx.lookup c = some k) : m.mediaReadyTx.lookup c = some k := by
  by_cases hb : ∃ j, b = .notify j
  · obtain ⟨j, rfl⟩ := hb
    exact FiniteMap.lookup_of_erase hc
  · rwa [(ready_next fun j hj => hb ⟨j, hj⟩).1] at hc

theorem stepJob_looking {a : Actor} {ok : Bool}
    (hlook : ((m.stepJob a ok).jobs a).stage.looking = true) : (m.jobs a).stage.looking = true := by
  cases hstage : (m.jobs a).stage with
  | unregisterPort | takeActive => rfl
  | idle | done =>
    simp only [stepJob, hstage] at hlook
    cases hlook
  | removePort conf =>
    simp only [stepJob, hstage] at hlook
    cases ok <;> simp [setStage, Stage.looking] at hlook
  | takeCleanup conf =>
    simp only [stepJob, hstage, takePendingCleanup] at hlook
    cases hcleanup : m.pendingCleanup.lookup conf <;> rw [hcleanup] at hlook <;>
      simp [setStage, Stage.looking] at hlook
  | destroyPort | registerCleanup | defer =>
    simp [stepJob, hstage, setStage, Stage.looking] at hlook

theorem jobs_next_of_ne {b : MediaAction} {r : Actor} (hb : ∀ ok, b ≠ .job r ok) :
    (m.next b).jobs r = m.jobs r := by
  cases b with
  | job a ok =>
    obtain ⟨stage, heq⟩ := (m.jobFrame_stepJob a ok).jobs
    have hne : r ≠ a := fun heq => hb ok (heq ▸ rfl)
    show (m.stepJob a ok).jobs r = m.jobs r
    rw [heq, Function.update_of_ne hne]
  | takePort j =>
    simp only [Media.next, Media.takePort, unregisterPendingPort]
    cases m.pendingPorts.lookup (m.callbacks j).callId <;> rfl
  | createPool j ok => cases ok <;> rfl
  | addPort j portId => cases portId <;> rfl
  | confOp i =>
    obtain ⟨_, _, _, _, _, heq⟩ := m.frees_confOp i
    rw [heq]
  | deferred i =>
    obtain ⟨_, _, _, _, _, heq⟩ := m.frees_deferred i
    rw [heq]
  | _ => rfl

theorem jobs_next {b : MediaAction} {r : Actor}
    (hlook : ((m.next b).jobs r).stage.looking = true) :
    (m.jobs r).stage.looking = true ∧ ((m.next b).jobs r).callId = (m.jobs r).callId := by
  by_cases hb : ∃ ok, b = .job r ok
  · obtain ⟨ok, rfl⟩ := hb
    obtain ⟨stage, heq⟩ := (m.jobFrame_stepJob r ok).jobs
    refine ⟨stepJob_looking hlook, ?_⟩
    show ((m.stepJob r ok).jobs r).callId = _
    rw [heq, Function.update_self]
  · have hsame : (m.next b).jobs r = m.jobs r := jobs_next_of_ne fun ok hok => hb ⟨ok, hok⟩
    rw [hsame] at hlook ⊢
    exact ⟨hlook, rfl⟩

/-- A port is registered for a call id that nothing is left of. -/
theorem Registered.registerPort (h : m.Registered latest) (hnum : m.Numbered) {c : CallId} {k : Call}
    (hnone : m.noMedia c = true) :
    Registered (Function.update latest c (some k)) (m.registerPendingPort c k) := by
  obtain ⟨hactive, hhold⟩ := Bool.and_eq_true_iff.1 hnone
  refine ⟨fun c' p hc' => ?_, fun c' active hc' => ?_, fun j hj => ?_⟩
  · simp only [registerPendingPort, FiniteMap.lookup_insert] at hc'
    split at hc'
    · rename_i heq
      rw [heq, Function.update_self]
      exact hc'
    · rename_i hne
      rw [Function.update_of_ne hne]
      exact h.pending c' p hc'
  · have hc' : m.activeMedia.lookup c' = some active := hc'
    have hne : c' ≠ c := by
      intro heq
      rw [heq, Option.isNone_iff_eq_none.1 hactive] at hc'
      cases hc'
    rw [Function.update_of_ne hne]
    exact h.active c' active hc'
  · have hj : (m.callbacks j).pc.holding = true := hj
    have hlt : j < m.nextCallback := by
      apply hnum.lt_nextCallback
      intro hpc
      rw [hpc] at hj
      cases hj
    have hne : (m.callbacks j).callId ≠ c := by
      intro heq
      have := List.all_eq_true.1 hhold j (List.mem_range.2 hlt)
      rw [hj, heq, beq_self_eq_true] at this
      cases this
    show Function.update latest c (some k) (m.callbacks j).callId = some (m.callbacks j).port
    rw [Function.update_of_ne hne]
    exact h.holding j hj

end Media

/-! ### The whole system -/

namespace State

variable {s : State} {latest : CallId → Option Call} {k : Call}

/-- No other setup of the call id is in the way where the manager needs it (`claimSafe`), and a setup
registers its port only for an id that no media is left of. -/
def isolationSafe (s : State) : Action → Bool
  | .manager (.setup k .registerPort) =>
    s.mgr.claimSafe (.setup k .registerPort) && s.media.noMedia (s.mgr.callId k)
  | .manager a => s.mgr.claimSafe a
  | .media _ => true

def claim (s : State) (latest : CallId → Option Call) : Action → CallId → Option Call
  | .manager a => s.mgr.claim latest a
  | .media _ => latest

structure Isolated (latest : CallId → Option Call) (s : State) : Prop where
  claimed : s.mgr.Claimed latest
  registered : s.media.Registered latest
  ready : ∀ c k, s.media.mediaReadyTx.lookup c = some k → latest c = some k ∨
    ∃ k', latest c = some k' ∧ (s.mgr.setups k').pc = .registerReady
  job : ∀ k, (s.media.jobs (.setup k)).stage.looking = true → (s.mgr.setups k).pc = .teardown ∧
    (s.mgr.setups k).owns = true ∧ (s.media.jobs (.setup k)).callId = s.mgr.callId k

theorem isolated_initial (n : Nat) : Isolated (fun _ => none) ⟨.initial n, .initial⟩ where
  claimed := Manager.claimed_initial n
  registered := Media.registered_initial
  ready _ _ h := by cases h
  job _ h := by cases h

/-- A teardown that looks at the registries is that of the setup which registered last. -/
theorem Isolated.latest_of_looking (h : s.Isolated latest)
    (hlook : (s.media.jobs (.setup k)).stage.looking = true) :
    latest (s.media.jobs (.setup k)).callId = some k := by
  obtain ⟨hpc, howns, hid⟩ := h.job k hlook
  rw [hid]
  apply h.claimed.cleaning k
  rw [Manager.cleaning, howns, hpc]
  rfl

theorem registered_mediaAfter (h : s.media.Registered latest) (hnum : s.media.Numbered)
    {a : ManagerAction} (hsafe : s.isolationSafe (.manager a) = true) :
    (s.mediaAfter a).Registered (s.mgr.claim latest a) := by
  by_cases ha : ∃ k, a = .setup k .registerPort
  · obtain ⟨k, rfl⟩ := ha
    exact h.registerPort hnum (Bool.and_eq_true_iff.1 hsafe).2
  · have ha : ∀ k, a ≠ .setup k .registerPort := fun k hk => ha ⟨k, hk⟩
    have hclaim : s.mgr.claim latest a = latest := by
      cases a with
      | setup k a => cases a <;> first | rfl | exact absurd rfl (ha k)
      | _ => rfl
    have hpending : ∀ c, (s.mediaAfter a).pendingPorts.lookup c = s.media.pendingPorts.lookup c :=
      fun c => congrFun (portIn_mediaAfter ha) (.pending c)
    rw [hclaim]
    rcases s.mediaAfter_cases a with ⟨r, job, heq, _⟩ | ⟨_, _, _, heq⟩ <;> rw [heq] at hpending ⊢ <;>
      exact h.of_subset rfl (fun c p hc => (hpending c).symm.trans hc) fun _ _ hc => hc

/-! ### The media-ready channels -/

theorem lookup_mediaReadyTx {a : ManagerAction} {c : CallId} (ha : ∀ k, a ≠ .setup k .registerReady)
    (hc : (s.mediaAfter a).mediaReadyTx.lookup c = some k) :
    s.media.mediaReadyTx.lookup c = some k := by
  cases a with
  | disconnected k' =>
    simp only [mediaAfter] at hc
    cases hsession : s.mgr.sessions.lookup (s.mgr.callId k') <;> rw [hsession] at hc <;> exact hc
  | setup k' b =>
    cases b with
    | registerReady => exact absurd rfl (ha k')
    | unregisterReady => exact FiniteMap.lookup_of_erase hc
    | checkCancel =>
      simp only [mediaAfter] at hc
      split at hc <;> exact hc
    | _ => exact hc
  | _ => exact hc

theorem Isolated.ready_manager (h : s.Isolated latest) {a : ManagerAction} (hen : s.mgr.enabled a)
    {c : CallId} (hc : (s.mediaAfter a).mediaReadyTx.lookup c = some k) :
    s.mgr.claim latest a c = some k ∨ ∃ k', s.mgr.claim latest a c = some k' ∧
      ((s.mgr.next a).setups k').pc = .registerReady := by
  -- a setup that has claimed the id and not registered its channel yet
  have hkeep : ∀ k', (s.mgr.setups k').pc = .registerReady → a ≠ .setup k' .registerReady →
      ((s.mgr.next a).setups k').pc = .registerReady := by
    intro k' hpc hne
    rw [Manager.setups_next hen (by rw [hpc]; exact nofun), hpc]
    rintro b rfl
    have hb := hpc.symm.trans hen.1
    cases b <;> first | exact hne rfl | cases hb
  by_cases hready : ∃ k', a = .setup k' .registerReady
  · obtain ⟨k', rfl⟩ := hready
    have hpc : (s.mgr.setups k').pc = .registerReady := hen.1
    simp only [mediaAfter, Media.registerMediaReady, FiniteMap.lookup_insert] at hc
    split at hc
    · rename_i hid
      cases hc
      rw [hid]
      exact .inl (h.claimed.registering k (by rw [Manager.registering, hpc]; rfl))
    · rename_i hid
      apply (h.ready c k hc).imp_right
      intro hlast
      obtain ⟨k'', hlatest, hk''⟩ := hlast
      refine ⟨k'', hlatest, hkeep k'' hk'' fun heq => hid ?_⟩
      cases heq
      exact (h.claimed.named _ _ hlatest).1.symm
  · have hready : ∀ k', a ≠ .setup k' .registerReady := fun k' hk' => hready ⟨k', hk'⟩
    have hc := lookup_mediaReadyTx hready hc
    by_cases hport : ∃ k', a = .setup k' .registerPort ∧ c = s.mgr.callId k'
    · obtain ⟨k', rfl, rfl⟩ := hport
      refine .inr ⟨k', Function.update_self _ _ _, ?_⟩
      simp only [Manager.next, Function.update_self]
      rfl
    · have hclaim : s.mgr.claim latest a c = latest c := by
        cases a with
        | setup k' b =>
          cases b with
          | registerPort => exact Function.update_of_ne (fun heq => hport ⟨k', rfl, heq⟩) _ _
          | _ => rfl
        | _ => rfl
      rw [hclaim]
      apply (h.ready c k hc).imp_right
      intro hlast
      obtain ⟨k', hlatest, hk'⟩ := hlast
      exact ⟨k', hlatest, hkeep k' hk' (hready k')⟩

/-! ### The teardowns -/

theorem jobs_mediaAfter {a : ManagerAction} (ha : ∀ b, a ≠ .setup k b) :
    (s.mediaAfter a).jobs (.setup k) = s.media.jobs (.setup k) := by
  cases a with
  | disconnected k' =>
    simp only [mediaAfter]
    cases s.mgr.sessions.lookup (s.mgr.callId k') with
    | none => rfl
    | some session =>
      have hne : Actor.setup k ≠ .main := fun h => by cases h
      simp only [Media.startJob, Function.update_of_ne hne]
  | setup k' b =>
    have hne : Actor.setup k ≠ .setup k' := fun heq => ha b (Actor.setup.inj heq ▸ rfl)
    cases b with
    | abortSetup => exact Function.update_of_ne hne _ _
    | checkCancel =>
      simp only [mediaAfter]
      split
      · exact Function.update_of_ne hne _ _
      · rfl
    | _ => rfl
  | _ => rfl

theorem Isolated.job_manager (h : s.Isolated latest) (howned : s.mgr.Owned) {a : ManagerAction}
    (hen : s.enabled (.manager a))
    (hlook : ((s.mediaAfter a).jobs (.setup k)).stage.looking = true) :
    ((s.mgr.next a).setups k).pc = .teardown ∧ ((s.mgr.next a).setups k).owns = true ∧
      ((s.mediaAfter a).jobs (.setup k)).callId = (s.mgr.next a).callId k := by
  by_cases ha : ∃ b, a = .setup k b
  · obtain ⟨b, rfl⟩ := ha
    have hold : (s.media.jobs (.setup k)).stage.looking = true → b = .teardownDone := by
      intro hlook
      have hb := (h.job k hlook).1.symm.trans hen.1.1
      cases b <;> first | rfl | cases hb
    have hself : (s.mgr.next (.setup k b)).setups k = s.mgr.stepSetup k b := Function.update_self _ _ _
    rw [hself]
    cases b with
    | abortSetup =>
      simp only [mediaAfter, Media.startJob, Function.update_self] at hlook ⊢
      simp only [cleanupMediaPort] at hlook
      split at hlook
      · exact ⟨rfl, ‹_›, rfl⟩
      · cases hlook
    | checkCancel =>
      simp only [mediaAfter] at hlook ⊢
      by_cases hcancel : s.mgr.cancelled k = true
      · have hstep : s.mgr.stepSetup k .checkCancel
            = { s.mgr.setups k with pc := .teardown, exit := .lateCancel } := if_pos hcancel
        rw [if_pos hcancel] at hlook ⊢
        simp only [Media.startJob, Function.update_self, lateCancel] at hlook ⊢
        rw [hstep]
        split at hlook
        · exact ⟨rfl, ‹_›, rfl⟩
        · cases hlook
      · rw [if_neg hcancel] at hlook
        cases hold hlook
    | teardownDone =>
      have hdone : (s.media.jobs (.setup k)).stage = .done := of_decide_eq_true hen.2
      have hlook : (s.media.jobs (.setup k)).stage.looking = true := hlook
      rw [hdone] at hlook
      cases hlook
    | _ => cases hold hlook
  · have ha : ∀ b, a ≠ .setup k b := fun b hb => ha ⟨b, hb⟩
    rw [jobs_mediaAfter ha] at hlook ⊢
    obtain ⟨hpc, howns, hid⟩ := h.job k hlook
    have hspawned : (s.mgr.setups k).pc ≠ .unspawned := by
      rw [hpc]
      intro h
      cases h
    rw [Manager.setups_next hen.1 hspawned ha, Manager.callId_next howned hspawned]
    exact ⟨hpc, howns, hid⟩

theorem Isolated.next (h : s.Isolated latest) (howned : s.mgr.Owned) (hnum : s.media.Numbered)
    (hslots : s.media.Slotted) {a : Action} (hen : s.enabled a) (hsafe : s.isolationSafe a = true) :
    (s.next a).Isolated (s.claim latest a) := by
  cases a with
  | manager a =>
    have hclaim : s.mgr.claimSafe a = true := by
      cases a with
      | setup k b => cases b <;> first | exact hsafe | exact (Bool.and_eq_true_iff.1 hsafe).1
      | _ => exact hsafe
    exact ⟨h.claimed.next howned hen.1 hclaim, registered_mediaAfter h.registered hnum hsafe,
      fun _ _ hc => h.ready_manager hen.1 hc, fun _ hlook => h.job_manager howned hen hlook⟩
  | media b =>
    refine ⟨h.claimed, h.registered.next hslots hen,
      fun c k hc => h.ready c k (Media.lookup_mediaReadyTx_next hc), fun k hlook => ?_⟩
    obtain ⟨hlook, hid⟩ := Media.jobs_next hlook
    obtain ⟨hpc, howns, hid'⟩ := h.job k hlook
    exact ⟨hpc, howns, hid.trans hid'⟩

end State

/-- The steps of a run in which no other setup of a call id, and no media left of one, is in the way. -/
def isolates (s : State) (a : Action) : Prop := s.isolationSafe a = true

instance (s : State) (a : Action) : Decidable (isolates s a) := inferInstanceAs (Decidable (_ = _))

theorem reaches_isolated {n : Nat} {s : State} (hs : (bridge n).Reaches isolates s) :
    ∃ latest, s.Isolated latest := by
  refine hs.invariant (I := fun s => ∃ latest, s.Isolated latest) ?_ fun s a hs h hen hok => ?_
  · intro s hinit
    rw [hinit]
    exact ⟨_, State.isolated_initial n⟩
  · obtain ⟨latest, h⟩ := h
    have howned := reaches_owned (reachable_manager hs)
    exact ⟨_, h.next howned (reaches_numbered hs) (reaches_slotted hs) hen hok⟩

/-! ### What a cleanup touches -/

/-- The setup leaves `pending_setups` or cleans up after itself. -/
def SetupAction.cleansUp : SetupAction → Bool
  | .removePending | .checkCancel | .abortSetup | .teardownDone | .unregisterReady => true
  | _ => false

def Action.ofCleanup (k : Call) : Action → Bool
  | .manager (.setup k' a) => k' == k && a.cleansUp
  | .media (.job a _) => a == .setup k
  | _ => false

/-- The entries made by or for the other setups are still there. -/
structure State.SparesOthers (s s' : State) (k : Call) : Prop where
  pendingSetups : ∀ c entry, s.mgr.pendingSetups.lookup c = some entry → entry.2 ≠ k →
    s'.mgr.pendingSetups.lookup c = some entry
  pendingPorts : ∀ c p, s.media.pendingPorts.lookup c = some p → p ≠ k →
    s'.media.pendingPorts.lookup c = some p
  activeMedia : ∀ c active, s.media.activeMedia.lookup c = some active → s.media.portOf active ≠ k →
    s'.media.activeMedia.lookup c = some active
  mediaReadyTx : ∀ c k', s.media.mediaReadyTx.lookup c = some k' → k' ≠ k →
    s'.media.mediaReadyTx.lookup c = some k'

namespace State

variable {s : State} {latest : CallId → Option Call} {k : Call}

theorem Isolated.ne_callId_of_looking (h : s.Isolated latest)
    (hlook : (s.media.jobs (.setup k)).stage.looking = true) {c : CallId} {k' : Call}
    (hlatest : latest c = some k') (hne : k' ≠ k) : c ≠ (s.media.jobs (.setup k)).callId := by
  intro hid
  rw [hid, h.latest_of_looking hlook] at hlatest
  exact hne (Option.some.inj hlatest).symm

theorem Isolated.spares_job (h : s.Isolated latest) (ok : Bool) :
    s.SparesOthers (s.next (.media (.job (.setup k) ok))) k := by
  have hframe := s.media.jobFrame_stepJob (.setup k) ok
  refine ⟨fun _ _ hc _ => hc, fun c p hc hne => ?_, fun c active hc hne => ?_, fun c k' hc _ => ?_⟩
  · show (s.media.stepJob _ _).pendingPorts.lookup c = some p
    rcases hframe.pendingPorts with heq | ⟨hstage, heq⟩ <;> rw [heq]
    · exact hc
    · have hlook : (s.media.jobs (.setup k)).stage.looking = true := by
        rw [hstage]
        rfl
      rw [FiniteMap.lookup_erase, if_neg (h.ne_callId_of_looking hlook (h.registered.pending c p hc) hne)]
      exact hc
  · show (s.media.stepJob _ _).activeMedia.lookup c = some active
    rcases hframe.activeMedia with heq | ⟨⟨_, hstage⟩, heq⟩ <;> rw [heq]
    · exact hc
    · have hlook : (s.media.jobs (.setup k)).stage.looking = true := by
        rw [hstage]
        rfl
      rw [FiniteMap.lookup_erase, if_neg (h.ne_callId_of_looking hlook (h.registered.active c active hc) hne)]
      exact hc
  · show (s.media.stepJob _ _).mediaReadyTx.lookup c = some k'
    rw [hframe.mediaReadyTx]
    exact hc

theorem Isolated.ready_eq (h : s.Isolated latest) (hpc : (s.mgr.setups k).pc = .unregisterReady)
    {k' : Call} (hc : s.media.mediaReadyTx.lookup (s.mgr.callId k) = some k') : k' = k := by
  have howns := h.claimed.unregister k hpc
  have hlatest : latest (s.mgr.callId k) = some k := by
    apply h.claimed.cleaning k
    rw [Manager.cleaning, howns, hpc]
    rfl
  rcases h.ready _ _ hc with heq | ⟨k'', heq, hk''⟩
  · rw [hlatest] at heq
    exact (Option.some.inj heq).symm
  · rw [hlatest] at heq
    cases heq
    rw [hpc] at hk''
    cases hk''

theorem Isolated.spares_setup (h : s.Isolated latest) (howned : s.mgr.Owned) {a : SetupAction}
    (hpc : (s.mgr.setups k).pc = a.pc) (ha : a.cleansUp = true) :
    s.SparesOthers (s.next (.manager (.setup k a))) k := by
  have hport : (s.mediaAfter (.setup k a)).portIn = s.media.portIn := by
    apply portIn_mediaAfter
    intro k' hk'
    cases hk'
    cases ha
  have hactive : (s.mediaAfter (.setup k a)).activeMedia = s.media.activeMedia := by
    rcases s.mediaAfter_cases (.setup k a) with ⟨_, _, heq, _⟩ | ⟨_, _, _, heq⟩
    · rw [heq]
      rfl
    · rw [heq]
  refine ⟨fun c entry hc hne => ?_, fun c p hc _ => (congrFun hport (.pending c)).trans hc,
    fun c active hc _ => ?_, fun c k' hc hne => ?_⟩
  · show (s.mgr.stepPending k a).lookup c = some entry
    rw [Manager.lookup_stepPending, if_neg, if_neg]
    · exact hc
    · -- the entry it removes is its own
      intro hremove
      obtain ⟨haction, rfl, hrel⟩ := hremove
      have hdrawn : (s.mgr.setups k).pc.drawn = true := by
        rw [hpc]
        rcases haction with rfl | rfl <;> rfl
      rw [(howned.release hdrawn).1 hrel] at hc
      cases hc
      exact hne rfl
    · intro hregister
      rw [hregister.1] at ha
      cases ha
  · show (s.mediaAfter (.setup k a)).activeMedia.lookup c = some active
    rw [hactive]
    exact hc
  · show (s.mediaAfter (.setup k a)).mediaReadyTx.lookup c = some k'
    cases a with
    | unregisterReady =>
      have hid : c ≠ s.mgr.callId k := by
        intro hid
        rw [hid] at hc
        exact hne (h.ready_eq hpc hc)
      simp only [mediaAfter, Media.unregisterMediaReady, FiniteMap.lookup_erase, if_neg hid]
      exact hc
    | checkCancel =>
      simp only [mediaAfter]
      split <;> exact hc
    | removePending | abortSetup | teardownDone => exact hc
    | _ => cases ha

end State

/-- The cleanup of a setup leaves what other setups have in `pending_setups`, `PENDING_PORTS`,
`ACTIVE_MEDIA` and `MEDIA_READY_TX`. -/
theorem cleanup_isolated {n : Nat} {s : State} (hs : (bridge n).Reaches isolates s) (k : Call)
    (a : Action) (hen : s.enabled a) (ha : a.ofCleanup k = true) : s.SparesOthers (s.next a) k := by
  obtain ⟨latest, h⟩ := reaches_isolated hs
  cases a with
  | manager a =>
    cases a with
    | setup k' a =>
      obtain ⟨hk', hclean⟩ := Bool.and_eq_true_iff.1 ha
      rw [beq_iff_eq] at hk'
      subst k'
      exact h.spares_setup (reaches_owned (reachable_manager hs)) hen.1.1 hclean
    | _ => cases ha
  | media b =>
    cases b with
    | job r ok =>
      rw [show r = .setup k from beq_iff_eq.1 ha]
      exact h.spares_job ok
    | _ => cases ha

/-- A call that took the id of an ended one keeps its entry when the first setup aborts. -/
theorem cleanup_isolated_superseded : ∃ s, (bridge 2).Reaches isolates s ∧
    (s.next (.manager (.setup 0 .abortSetup))).mgr.pendingSetups.lookup 3 = some (1, 1) := by
  obtain ⟨s, hs, hP⟩ := System.exists_reaches_of_run (bridge 2) isolates rfl
    (.manager (.newCall 3) :: answerCall 0 ++ ([.endCall 0, .disconnected 0, .cancelPending 0,
      .newCall 3].map .manager ++ answerCall 1 ++ [.manager (.setup 0 .mediaCancelled)]))
    (fun s => s.enabled (.manager (.setup 0 .abortSetup)) ∧
      s.mgr.pendingSetups.lookup 3 = some (1, 1)) (by decide)
  obtain ⟨hen, hentry⟩ := of_decide_eq_true hP
  exact ⟨s, hs, (cleanup_isolated hs 0 _ hen rfl).pendingSetups 3 (1, 1) hentry (by decide)⟩

/-- A call is answered and ends. A new call takes its id and has registered its port and its media-ready
channel, but no entry in `pending_setups`, when the first setup aborts: it owns the id, and its teardown
removes the port of the second one. -/
theorem cleanup_not_isolated : ¬∀ (n : Nat) (s : State), (bridge n).Reachable s →
    ∀ k a, s.enabled a → a.ofCleanup k = true → s.SparesOthers (s.next a) k := by
  intro hclaim
  obtain ⟨s, hs, hP⟩ := System.exists_reaches_of_run (bridge 2) System.anyStep rfl
    (.manager (.newCall 3) :: answerCall 0 ++
      [.endCall 0, .disconnected 0, .cancelPending 0, .newCall 3, .incomingCall 1,
        .setup 1 .checkLimit, .setup 1 (.lookup false), .setup 1 .registerPort,
        .setup 1 .registerReady, .setup 0 .mediaCancelled, .setup 0 .abortSetup].map .manager)
    (fun s => s.enabled (.media (.job (.setup 0) true)) ∧ s.media.pendingPorts.lookup 3 = some 1 ∧
      (s.next (.media (.job (.setup 0) true))).media.pendingPorts.lookup 3 = none) (by decide)
  obtain ⟨hen, hbefore, hafter⟩ := of_decide_eq_true hP
  have := (hclaim 2 s hs 0 _ hen rfl).pendingPorts 3 1 hbefore (by decide)
  rw [hafter] at this
  cases this

end MumbleSip
