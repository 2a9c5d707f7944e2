import MumbleSip.Session.Custody

/-!
# Where a port is attached

What pjsip can reach of a port: it waits in `PENDING_PORTS`, it is in the hands of a media callback, or
it is in a slot of the bridge. A port is in one of these places at most, in whatever order registrations,
callbacks and teardowns run; and a slot that somebody means to remove is still occupied, because only
the holder of the slot removes it.
-/

namespace MumbleSip

open Transition Custody

/-! ### The places of a port -/

inductive Position
  | pending (c : CallId)
  | hand (j : Nat)
  | slot (conf : ConfPortId)
  deriving DecidableEq

/-- The port a media callback has taken and neither attached nor put back. -/
def MediaCallback.hand (callback : MediaCallback) : Option MediaPort :=
  match callback.pc with
  | .getConfPort | .createPool | .addPort | .putBack => some callback.port
  | _ => none

namespace Media

variable {m : Media} {j : Nat}

def portIn (m : Media) : Position → Option MediaPort
  | .pending c => m.pendingPorts.lookup c
  | .hand j => (m.callbacks j).hand
  | .slot conf => m.bridge.lookup conf

/-- pjsip can no longer reach the port. -/
def Loose (m : Media) (p : MediaPort) : Prop := ∀ r, m.portIn r ≠ some p

/-- No two places have the same port. -/
def Apart (m : Media) : Prop := ∀ r r' p, m.portIn r = some p → m.portIn r' = some p → r = r'

/-- `Loose`, computed. -/
def loose (m : Media) (p : MediaPort) : Bool :=
  p ∉ m.pendingPorts.values ∧ (∀ j < m.nextCallback, (m.callbacks j).hand ≠ some p) ∧
    p ∉ m.bridge.values

theorem loose_iff (h : m.Numbered) {p : MediaPort} : m.loose p = true ↔ m.Loose p := by
  rw [loose, decide_eq_true_iff, FiniteMap.mem_values, FiniteMap.mem_values, not_exists, not_exists]
  constructor
  · intro hp r
    cases r with
    | pending c => exact hp.1 c
    | hand j =>
      by_cases hj : j < m.nextCallback
      · exact hp.2.1 j hj
      · rw [portIn, MediaCallback.hand, h.callback j (Nat.le_of_not_lt hj)]
        exact nofun
    | slot conf => exact hp.2.2 conf
  · exact fun hp => ⟨fun c => hp (.pending c), fun j _ => hp (.hand j), fun conf => hp (.slot conf)⟩

theorem portIn_registerPendingPort (c : CallId) (p : MediaPort) :
    (m.registerPendingPort c p).portIn = Function.update m.portIn (.pending c) (some p) := by
  refine Function.eq_update_iff.2 ⟨?_, fun r hr => ?_⟩
  · simp only [portIn, registerPendingPort, FiniteMap.lookup_insert, if_true]
  · cases r with
    | pending c' =>
      have hne : c' ≠ c := fun heq => hr (congrArg _ heq)
      simp only [portIn, registerPendingPort, FiniteMap.lookup_insert, if_neg hne]
    | _ => rfl

theorem portIn_unregisterPendingPort (c : CallId) : (m.unregisterPendingPort c).2.portIn
    = Function.update m.portIn (.pending c) none := by
  refine Function.eq_update_iff.2 ⟨?_, fun r hr => ?_⟩
  · simp only [portIn, unregisterPendingPort, FiniteMap.lookup_erase, if_true]
  · cases r with
    | pending c' =>
      have hne : c' ≠ c := fun heq => hr (congrArg _ heq)
      simp only [portIn, unregisterPendingPort, FiniteMap.lookup_erase, if_neg hne]
    | _ => rfl

theorem portIn_setCallback (callback : MediaCallback) : (m.setCallback j callback).portIn
    = Function.update m.portIn (.hand j) callback.hand := by
  refine Function.eq_update_iff.2 ⟨?_, fun r hr => ?_⟩
  · simp only [portIn, setCallback, Function.update_self]
  · cases r with
    | hand j' =>
      have hne : j' ≠ j := fun heq => hr (congrArg _ heq)
      simp only [portIn, setCallback, Function.update_of_ne hne]
    | _ => rfl

theorem portIn_setCallback_same {callback : MediaCallback}
    (hhand : callback.hand = (m.callbacks j).hand) : (m.setCallback j callback).portIn = m.portIn := by
  rw [portIn_setCallback, hhand]
  exact Function.update_eq_self (Position.hand j) m.portIn

theorem portIn_attach (conf : ConfPortId) (p : MediaPort) :
    portIn { m with bridge := m.bridge.insert conf p }
      = Function.update m.portIn (.slot conf) (some p) := by
  refine Function.eq_update_iff.2 ⟨?_, fun r hr => ?_⟩
  · simp only [portIn, FiniteMap.lookup_insert, if_true]
  · cases r with
    | slot conf' =>
      have hne : conf' ≠ conf := fun heq => hr (congrArg _ heq)
      simp only [portIn, FiniteMap.lookup_insert, if_neg hne]
    | _ => rfl

theorem portIn_detach (conf : ConfPortId) : portIn { m with bridge := m.bridge.erase conf }
    = Function.update m.portIn (.slot conf) none := by
  refine Function.eq_update_iff.2 ⟨?_, fun r hr => ?_⟩
  · simp only [portIn, FiniteMap.lookup_erase, if_true]
  · cases r with
    | slot conf' =>
      have hne : conf' ≠ conf := fun heq => hr (congrArg _ heq)
      simp only [portIn, FiniteMap.lookup_erase, if_neg hne]
    | _ => rfl

theorem portIn_congr {m' : Media} (hpending : m'.pendingPorts = m.pendingPorts)
    (hcallbacks : m'.callbacks = m.callbacks) (hbridge : m'.bridge = m.bridge) : m'.portIn = m.portIn := by
  funext r
  cases r with
  | pending c => simp only [portIn, hpending]
  | hand j => simp only [portIn, hcallbacks]
  | slot conf => simp only [portIn, hbridge]

theorem portIn_stepJob (a : Actor) (ok : Bool) : (m.stepJob a ok).portIn = m.portIn ∨
    ∃ c, (m.stepJob a ok).portIn = Function.update m.portIn (.pending c) none := by
  have hframe := m.jobFrame_stepJob a ok
  rcases hframe.pendingPorts with hpending | ⟨_, hpending⟩
  · exact .inl (portIn_congr hpending hframe.callbacks hframe.bridge)
  · refine .inr ⟨(m.jobs a).callId, ?_⟩
    rw [← portIn_unregisterPendingPort]
    exact portIn_congr hpending hframe.callbacks hframe.bridge

/-- A step of the media side leaves the ports where they are, takes one out of reach, or moves one. -/
theorem portIn_next {b : MediaAction} (hen : m.enabled b) : (m.next b).portIn = m.portIn ∨
    (∃ r, (m.next b).portIn = Function.update m.portIn r none) ∨
    ∃ r r', (m.next b).portIn
      = Function.update (Function.update m.portIn r none) r' (m.portIn r) := by
  cases b with
  | job a ok =>
    rcases m.portIn_stepJob a ok with hsame | ⟨c, hlose⟩
    · exact .inl hsame
    · exact .inr (.inl ⟨_, hlose⟩)
  | mediaState c =>
    refine .inr (.inl ⟨.hand m.nextCallback, ?_⟩)
    exact portIn_setCallback (m := m) (j := m.nextCallback) ⟨c, 0, false, 0, .takePort⟩
  | takePort j =>
    simp only [next, takePort]
    cases hport : m.pendingPorts.lookup (m.callbacks j).callId with
    | none =>
      simp only [unregisterPendingPort, hport]
      refine .inr (.inl ⟨.pending (m.callbacks j).callId, ?_⟩)
      rw [gotoCallback, portIn_setCallback_same, ← portIn_unregisterPendingPort]
      · rfl
      · simp only [MediaCallback.hand]
        rw [show (m.callbacks j).pc = .takePort from hen]
    | some port =>
      refine .inr (.inr ⟨.pending (m.callbacks j).callId, .hand j, ?_⟩)
      have hpending : m.portIn (.pending (m.callbacks j).callId) = some port := hport
      rw [hpending, ← portIn_unregisterPendingPort]
      simp only [unregisterPendingPort, hport]
      exact portIn_setCallback _
  | getConfPort j ok =>
    refine .inl (portIn_setCallback_same ?_)
    simp only [MediaCallback.hand]
    rw [show (m.callbacks j).pc = .getConfPort from hen]
    cases ok <;> rfl
  | createPool j ok =>
    have hpc : (m.callbacks j).pc = .createPool := hen
    cases ok <;> refine .inl (portIn_setCallback_same ?_) <;> simp only [MediaCallback.hand, hpc]
  | addPort j portId =>
    have hpc : (m.callbacks j).pc = .addPort := hen.1
    cases portId with
    | none =>
      refine .inl (portIn_setCallback_same (m := m.poolRelease (some j)) ?_)
      show _ = (m.callbacks j).hand
      simp only [MediaCallback.hand, hpc]
      rfl
    | some conf =>
      refine .inr (.inr ⟨.hand j, .slot conf, ?_⟩)
      have hhand : m.portIn (.hand j) = some (m.callbacks j).port := by
        simp only [portIn, MediaCallback.hand, hpc]
      have hne : Position.hand j ≠ .slot conf := fun h => by cases h
      rw [hhand, Function.update_comm hne, ← portIn_attach]
      exact portIn_setCallback _
  | publish j =>
    refine .inl (portIn_setCallback_same (m := { m with activeMedia := m.activeMedia.insert _ _ }) ?_)
    show _ = (m.callbacks j).hand
    simp only [MediaCallback.hand]
    rw [show (m.callbacks j).pc = .publish from hen]
  | notify j =>
    refine .inl (portIn_setCallback_same
      (m := { m with ready := m.setReady _ .fired, mediaReadyTx := m.mediaReadyTx.erase _ }) ?_)
    show _ = (m.callbacks j).hand
    simp only [MediaCallback.hand]
    rw [show (m.callbacks j).pc = .notify from hen]
  | putBack j =>
    refine .inr (.inr ⟨.hand j, .pending (m.callbacks j).callId, ?_⟩)
    have hhand : m.portIn (.hand j) = some (m.callbacks j).port := by
      simp only [portIn, MediaCallback.hand]
      rw [show (m.callbacks j).pc = .putBack from hen]
    have hne : Position.hand j ≠ .pending (m.callbacks j).callId := fun h => by cases h
    rw [hhand, Function.update_comm hne, ← portIn_registerPendingPort]
    exact portIn_setCallback _
  | portRemoved conf ok =>
    cases ok
    · exact .inl rfl
    · exact .inr (.inl ⟨.slot conf, portIn_detach conf⟩)
  | confOp i =>
    obtain ⟨_, _, _, _, _, heq⟩ := m.frees_confOp i
    rw [heq]
    exact .inl rfl
  | deferred i =>
    obtain ⟨_, _, _, _, _, heq⟩ := m.frees_deferred i
    rw [heq]
    exact .inl rfl

theorem Loose.next {p : MediaPort} (h : m.Loose p) {b : MediaAction} (hen : m.enabled b) :
    (m.next b).Loose p := by
  intro r hr
  rcases m.portIn_next hen with hsame | ⟨r', hlose⟩ | ⟨r', q, hmove⟩
  · exact h r (hsame ▸ hr)
  · rw [hlose] at hr
    exact h r (of_update_none hr).2
  · rw [hmove] at hr
    obtain ⟨r'', hr''⟩ := of_update_move hr
    exact h r'' hr''

end Media

/-- The media port of a setup task that has not registered it. -/
def SetupPc.freshPort (k : Call) : SetupPc → Option MediaPort
  | .unspawned | .checkLimit | .lookup | .registerPort => some k
  | _ => none

namespace Manager

variable {m : Manager} {k : Call} {b : SetupAction}

def freshPort (m : Manager) (k : Call) : Option MediaPort := (m.setups k).pc.freshPort k

theorem freshPort_setup : (m.next (.setup k b)).freshPort
    = Function.update m.freshPort k ((m.stepSetup k b).pc.freshPort k) := by
  refine Function.eq_update_iff.2 ⟨?_, fun k' hk' => ?_⟩
  · simp only [freshPort, next, Function.update_self]
  · simp only [freshPort, next, Function.update_of_ne hk']

theorem stepSetup_freshPort : (m.stepSetup k b).pc.freshPort k = none ∨
    (m.stepSetup k b).pc.freshPort k = b.pc.freshPort k := by
  cases b with
  | checkLimit =>
    simp only [stepSetup]
    split
    · exact .inl rfl
    · exact .inr rfl
  | checkCancel | teardownDone | mediaReady =>
    simp only [stepSetup]
    split <;> exact .inl rfl
  | answer ok => cases ok <;> exact .inl rfl
  | lookup playIntro => exact .inr rfl
  | _ => exact .inl rfl

theorem freshPort_incomingCall (hpc : (m.setups k).pc = .unspawned) :
    (m.next (.incomingCall k)).freshPort = m.freshPort := by
  funext k'
  simp only [freshPort, next]
  by_cases heq : k' = k
  · rw [heq, Function.update_self, hpc]
    rfl
  · rw [Function.update_of_ne heq]

end Manager

namespace State

variable {s : State}

/-- Every port is in one place, counting its setup task until that has registered it. -/
def Placed (s : State) : Prop := Settled (Sum.elim s.mgr.freshPort s.media.portIn) []

theorem Placed.apart (h : s.Placed) : s.media.Apart := by
  intro r r' p hr hr'
  exact Sum.inr.inj (Settled.linear h (.inr r) (.inr r') p hr hr')

theorem Placed.media (h : s.Placed) {b : MediaAction} (hen : s.media.enabled b) :
    Placed (s.next (.media b)) := by
  simp only [Placed, next]
  rcases s.media.portIn_next hen with hsame | ⟨r, hlose⟩ | ⟨r, r', hmove⟩
  · rw [hsame]
    exact h
  · rw [hlose, ← Sum.update_elim_inr]
    exact Settled.lose h _
  · rw [hmove, ← Sum.update_elim_inr, ← Sum.update_elim_inr]
    exact Settled.move h (.inr r) (.inr r')

theorem portIn_mediaAfter {a : ManagerAction} (ha : ∀ k, a ≠ .setup k .registerPort) :
    (s.mediaAfter a).portIn = s.media.portIn := by
  cases a with
  | disconnected k =>
    simp only [mediaAfter]
    cases s.mgr.sessions.lookup (s.mgr.callId k) <;> rfl
  | setup k a =>
    cases a with
    | registerPort => exact absurd rfl (ha k)
    | checkCancel =>
      simp only [mediaAfter]
      split <;> rfl
    | _ => rfl
  | _ => rfl

theorem Placed.manager {a : ManagerAction} (h : s.Placed) (hen : s.mgr.enabled a) :
    Placed (s.next (.manager a)) := by
  by_cases ha : ∃ k, a = .setup k .registerPort
  · obtain ⟨k, rfl⟩ := ha
    have hmove := Settled.move h (.inl k) (.inr (.pending (s.mgr.callId k)))
    have hpc : (s.mgr.setups k).pc = .registerPort := hen.1
    have hfresh : s.mgr.freshPort k = some k := by
      rw [Manager.freshPort, hpc]
      rfl
    rw [Sum.elim_inl, hfresh, Sum.update_elim_inl, Sum.update_elim_inr,
      ← Media.portIn_registerPendingPort] at hmove
    simp only [Placed, next]
    rw [Manager.freshPort_setup]
    exact hmove
  · have ha : ∀ k, a ≠ .setup k .registerPort := fun k hk => ha ⟨k, hk⟩
    simp only [Placed, next]
    rw [portIn_mediaAfter ha]
    cases a with
    | newCall | endCall | disconnected | cancelPending | sessionTornDown => exact h
    | incomingCall k =>
      rw [Manager.freshPort_incomingCall hen.2.2.1]
      exact h
    | setup k b =>
      rw [Manager.freshPort_setup, ← Sum.update_elim_inl]
      rcases Manager.stepSetup_freshPort (m := s.mgr) (k := k) (b := b) with hlose | hkeep
      · rw [hlose]
        exact Settled.lose h _
      · have hself : b.pc.freshPort k = Sum.elim s.mgr.freshPort s.media.portIn (.inl k) := by
          rw [Sum.elim_inl, Manager.freshPort, hen.1]
        rw [hkeep, hself, Function.update_eq_self]
        exact h

end State

theorem reaches_placed {n : Nat} {ok : State → Action → Prop} {s : State}
    (hs : (bridge n).Reaches ok s) : s.Placed := by
  refine hs.invariant ?_ fun s a _ h hen _ => ?_
  · intro s hinit
    rw [hinit]
    refine Settled.initial (fun k => .inl k) fun p k hp => ?_
    rcases p with p | (p | p | p)
    · cases hp
      rfl
    all_goals cases hp
  · cases a with
    | manager a => exact h.manager hen.1
    | media b => exact h.media hen

/-! ### The slots -/

/-- The slot a teardown means to remove. -/
def Stage.slot : Stage → Option ConfPortId
  | .registerCleanup active => some active.confPortId
  | .removePort conf | .takeCleanup conf => some conf
  | _ => none

/-- The slot a media callback has attached its port to and not published. -/
def MediaCallback.slot (callback : MediaCallback) : Option ConfPortId :=
  if callback.pc = .publish then some callback.portId else none

/-- Who holds a slot that is not being removed. -/
inductive SlotPlace
  | callback (j : Nat)
  | active (c : CallId)
  | job (a : Actor)
  deriving DecidableEq

namespace Media

variable {m : Media} {a : Actor} {j : Nat}

def slotAt (m : Media) : SlotPlace → Option ConfPortId
  | .callback j => (m.callbacks j).slot
  | .active c => (m.activeMedia.lookup c).map ActiveMedia.confPortId
  | .job a => (m.jobs a).stage.slot

/-- The port that was published as active media. -/
def portOf (m : Media) (active : ActiveMedia) : MediaPort := (m.callbacks active.pool).port

/-- The callback has published, so that its port will not change any more. -/
def Published (m : Media) (j : Nat) : Prop :=
  j < m.nextCallback ∧ ((m.callbacks j).pc = .notify ∨ (m.callbacks j).pc = .done)

/-- Published media whose port is in its slot. -/
def Attached (m : Media) (active : ActiveMedia) : Prop :=
  m.Published active.pool ∧ m.bridge.lookup active.confPortId = some (m.portOf active)

/-- A slot is held once, and whoever holds it finds it occupied, by the port it was published with. -/
structure Slotted (m : Media) : Prop where
  slots : Settled m.slotAt m.removing
  occupied : ∀ r conf, m.slotAt r = some conf → m.bridge.lookup conf ≠ none
  removing : ∀ conf ∈ m.removing, m.bridge.lookup conf ≠ none
  publishing : ∀ j, (m.callbacks j).pc = .publish →
    m.bridge.lookup (m.callbacks j).portId = some (m.callbacks j).port
  active : ∀ c active, m.activeMedia.lookup c = some active → m.Attached active
  taken : ∀ a active, (m.jobs a).stage = .registerCleanup active → m.Attached active

theorem slotted_initial : Slotted initial where
  slots := Settled.initial (fun _ => .callback 0) fun r conf hr => by cases r <;> cases hr
  occupied r conf hr := by cases r <;> cases hr
  removing _ h := by cases h
  publishing _ h := by cases h
  active _ _ h := by cases h
  taken _ _ h := by cases h

theorem slotAt_startJob (job : Job) : (m.startJob a job).slotAt
    = Function.update m.slotAt (.job a) job.stage.slot := by
  refine Function.eq_update_iff.2 ⟨?_, fun r hr => ?_⟩
  · simp only [slotAt, startJob, Function.update_self]
  · cases r with
    | job a' =>
      have hne : a' ≠ a := fun heq => hr (congrArg _ heq)
      simp only [slotAt, startJob, Function.update_of_ne hne]
    | _ => rfl

theorem slotAt_setCallback (callback : MediaCallback) : (m.setCallback j callback).slotAt
    = Function.update m.slotAt (.callback j) callback.slot := by
  refine Function.eq_update_iff.2 ⟨?_, fun r hr => ?_⟩
  · simp only [slotAt, setCallback, Function.update_self]
  · cases r with
    | callback j' =>
      have hne : j' ≠ j := fun heq => hr (congrArg _ heq)
      simp only [slotAt, setCallback, Function.update_of_ne hne]
    | _ => rfl

theorem slotAt_takeActiveMedia (c : CallId) : (m.takeActiveMedia c).2.slotAt
    = Function.update m.slotAt (.active c) none := by
  refine Function.eq_update_iff.2 ⟨?_, fun r hr => ?_⟩
  · simp only [slotAt, takeActiveMedia, FiniteMap.lookup_erase, if_true, Option.map_none]
  · cases r with
    | active c' =>
      have hne : c' ≠ c := fun heq => hr (congrArg _ heq)
      simp only [slotAt, takeActiveMedia, FiniteMap.lookup_erase, if_neg hne]
    | _ => rfl

theorem slotAt_publish (c : CallId) (active : ActiveMedia) :
    slotAt { m with activeMedia := m.activeMedia.insert c active }
      = Function.update m.slotAt (.active c) (some active.confPortId) := by
  refine Function.eq_update_iff.2 ⟨?_, fun r hr => ?_⟩
  · simp only [slotAt, FiniteMap.lookup_insert, if_true, Option.map_some]
  · cases r with
    | active c' =>
      have hne : c' ≠ c := fun heq => hr (congrArg _ heq)
      simp only [slotAt, FiniteMap.lookup_insert, if_neg hne]
    | _ => rfl

/-! ### Slots and teardowns -/

theorem Slotted.startJob (h : m.Slotted) {job : Job}
    (hslot : job.stage.slot = none ∨ job.stage.slot = (m.jobs a).stage.slot)
    (htaken : ∀ active, job.stage ≠ .registerCleanup active) : Slotted (m.startJob a job) := by
  have hsub : ∀ r conf, (m.startJob a job).slotAt r = some conf → m.slotAt r = some conf := by
    intro r conf hr
    rw [slotAt_startJob] at hr
    by_cases heq : r = .job a
    · rw [heq, Function.update_self] at hr
      rcases hslot with hnone | hkeep
      · rw [hnone] at hr
        cases hr
      · rw [heq, slotAt, ← hkeep, hr]
    · rwa [Function.update_of_ne heq] at hr
  refine ⟨?_, fun r conf hr => h.occupied r conf (hsub r conf hr), h.removing, h.publishing, h.active,
    fun a' active ha' => ?_⟩
  · rw [slotAt_startJob]
    rcases hslot with hnone | hkeep
    · rw [hnone]
      exact h.slots.lose _
    · have hself : job.stage.slot = m.slotAt (.job a) := hkeep
      rw [hself, Function.update_eq_self]
      exact h.slots
  · simp only [Media.startJob] at ha'
    by_cases heq : a' = a
    · rw [heq, Function.update_self] at ha'
      exact absurd ha' (htaken active)
    · rw [Function.update_of_ne heq] at ha'
      exact h.taken a' active ha'

theorem Slotted.takeActiveMedia (h : m.Slotted) (c : CallId) : Slotted (m.takeActiveMedia c).2 := by
  refine ⟨?_, fun r conf hr => ?_, h.removing, h.publishing, fun c' active hc' => ?_, h.taken⟩
  · rw [slotAt_takeActiveMedia]
    exact h.slots.lose _
  · rw [slotAt_takeActiveMedia] at hr
    exact h.occupied r conf (of_update_none hr).2
  · exact h.active c' active (FiniteMap.lookup_of_erase hc')

theorem Slotted.registerCleanup (h : m.Slotted) {c : CallId} {active : ActiveMedia}
    (hactive : m.activeMedia.lookup c = some active) :
    Slotted ((m.takeActiveMedia c).2.setStage a (.registerCleanup active)) := by
  have hslot : m.slotAt (.active c) = some active.confPortId := by rw [slotAt, hactive]; rfl
  have hslots : slotAt ((m.takeActiveMedia c).2.setStage a (.registerCleanup active))
      = Function.update (Function.update m.slotAt (.active c) none) (.job a)
        (some active.confPortId) := by
    rw [← slotAt_takeActiveMedia]
    exact slotAt_startJob _
  refine ⟨?_, fun r conf hr => ?_, h.removing, h.publishing, (h.takeActiveMedia c).active,
    fun a' active' ha' => ?_⟩
  · rw [hslots, ← hslot]
    exact h.slots.move _ _
  · rw [hslots] at hr
    by_cases heq : r = .job a
    · rw [heq, Function.update_self] at hr
      exact h.occupied (.active c) conf (hslot.trans hr)
    · rw [Function.update_of_ne heq] at hr
      exact h.occupied r conf (of_update_none hr).2
  · simp only [Media.setStage] at ha'
    by_cases heq : a' = a
    · rw [heq, Function.update_self] at ha'
      rw [← Stage.registerCleanup.inj ha']
      exact h.active c active hactive
    · rw [Function.update_of_ne heq] at ha'
      exact h.taken a' active' ha'

theorem Slotted.removePort (h : m.Slotted) {conf : ConfPortId}
    (hstage : (m.jobs a).stage = .removePort conf) :
    Slotted ({ m with removing := conf :: m.removing }.setStage a .done) := by
  have hslot : m.slotAt (.job a) = some conf := by rw [slotAt, hstage]; rfl
  have hslots : slotAt ({ m with removing := conf :: m.removing }.setStage a .done)
      = Function.update m.slotAt (.job a) none := slotAt_startJob (m := m) _
  refine ⟨?_, fun r conf' hr => ?_, fun conf' hconf' => ?_, h.publishing, h.active,
    fun a' active ha' => ?_⟩
  · have hrelease := h.slots.release (.job a)
    rw [hslot] at hrelease
    rw [hslots]
    exact hrelease
  · rw [hslots] at hr
    exact h.occupied r conf' (of_update_none hr).2
  · rcases List.mem_cons.1 hconf' with rfl | hconf'
    · exact h.occupied _ _ hslot
    · exact h.removing conf' hconf'
  · simp only [Media.setStage] at ha'
    by_cases heq : a' = a
    · rw [heq, Function.update_self] at ha'
      cases ha'
    · rw [Function.update_of_ne heq] at ha'
      exact h.taken a' active ha'

theorem Slotted.stepJob (h : m.Slotted) (ok : Bool) : Slotted (m.stepJob a ok) := by
  have hgo : ∀ stage : Stage, stage.slot = none ∨ stage.slot = (m.jobs a).stage.slot →
      (∀ active, stage ≠ .registerCleanup active) → Slotted (m.setStage a stage) :=
    fun _ hslot htaken => h.startJob hslot htaken
  cases hstage : (m.jobs a).stage with
  | idle | done => simpa only [Media.stepJob, hstage] using h
  | unregisterPort =>
    have := hgo (.takeActive (m.pendingPorts.lookup (m.jobs a).callId).isSome) (.inl rfl)
      fun _ h => by cases h
    simp only [Media.stepJob, hstage]
    exact ⟨this.slots, this.occupied, this.removing, this.publishing, this.active, this.taken⟩
  | takeActive wasPending =>
    simp only [Media.stepJob, hstage]
    cases hactive : m.activeMedia.lookup (m.jobs a).callId with
    | none =>
      refine (h.takeActiveMedia (m.jobs a).callId).startJob (.inl ?_) ?_ <;>
        simp only [Media.takeActiveMedia, hactive, Job.afterLookup] <;>
        cases wasPending <;> cases (m.jobs a).skipUnknown <;> first | rfl | exact fun _ h => by cases h
    | some active =>
      cases wasPending
      · have := h.registerCleanup (a := a) hactive
        simp only [Media.takeActiveMedia, hactive] at this ⊢
        exact this
      · exact (h.takeActiveMedia (m.jobs a).callId).startJob (.inl rfl) (fun _ h => by cases h)
  | destroyPort =>
    have := hgo .done (.inl rfl) (fun _ h => by cases h)
    simp only [Media.stepJob, hstage]
    exact ⟨this.slots, this.occupied, this.removing, this.publishing, this.active, this.taken⟩
  | registerCleanup active =>
    have := hgo (.removePort active.confPortId) (.inr (by rw [hstage]; rfl)) (fun _ h => by cases h)
    simp only [Media.stepJob, hstage]
    exact ⟨this.slots, this.occupied, this.removing, this.publishing, this.active, this.taken⟩
  | removePort conf =>
    simp only [Media.stepJob, hstage]
    cases ok
    · exact hgo _ (.inr (by rw [hstage]; rfl)) (fun _ h => by cases h)
    · exact h.removePort hstage
  | takeCleanup conf =>
    have := hgo .done (.inl rfl) (fun _ h => by cases h)
    simp only [Media.stepJob, hstage, takePendingCleanup]
    cases m.pendingCleanup.lookup conf <;>
      exact ⟨this.slots, this.occupied, this.removing, this.publishing, this.active, this.taken⟩
  | defer =>
    have := hgo .done (.inl rfl) (fun _ h => by cases h)
    simp only [Media.stepJob, hstage]
    exact ⟨this.slots, this.occupied, this.removing, this.publishing, this.active, this.taken⟩

/-! ### Slots and callbacks -/

theorem Attached.of_ne {active : ActiveMedia} (h : m.Attached active) {callback : MediaCallback}
    (hkeep : m.Published j → callback.port = (m.callbacks j).port ∧
      (callback.pc = .notify ∨ callback.pc = .done)) : (m.setCallback j callback).Attached active := by
  obtain ⟨⟨hlt, hpc⟩, hbridge⟩ := h
  simp only [Attached, Published, portOf, setCallback]
  by_cases heq : active.pool = j
  · obtain ⟨hport, hpc'⟩ := hkeep (heq ▸ ⟨hlt, hpc⟩)
    rw [heq, Function.update_self, hport]
    exact ⟨⟨heq ▸ hlt, hpc'⟩, by rw [hbridge, portOf, heq]⟩
  · rw [Function.update_of_ne heq]
    exact ⟨⟨hlt, hpc⟩, hbridge⟩

theorem Slotted.setCallback (h : m.Slotted) (callback : MediaCallback) (hpc : callback.pc ≠ .publish)
    (hkeep : m.Published j → callback.port = (m.callbacks j).port ∧
      (callback.pc = .notify ∨ callback.pc = .done)) : Slotted (m.setCallback j callback) := by
  have hslot : callback.slot = none := if_neg hpc
  refine ⟨?_, fun r conf hr => ?_, h.removing, fun j' hj' => ?_,
    fun c active hc => (h.active c active hc).of_ne hkeep,
    fun a active ha => (h.taken a active ha).of_ne hkeep⟩
  · rw [slotAt_setCallback, hslot]
    exact h.slots.lose _
  · rw [slotAt_setCallback, hslot] at hr
    exact h.occupied r conf (of_update_none hr).2
  · simp only [Media.setCallback] at hj' ⊢
    by_cases heq : j' = j
    · rw [heq, Function.update_self] at hj'
      exact absurd hj' hpc
    · rw [Function.update_of_ne heq] at hj' ⊢
      exact h.publishing j' hj'

theorem Slotted.spawnCallback (h : m.Slotted) (c : CallId) : Slotted (m.spawnCallback c) := by
  have hkeep : m.Published m.nextCallback → (0 : MediaPort) = (m.callbacks m.nextCallback).port ∧
      (CallbackPc.takePort = .notify ∨ CallbackPc.takePort = .done) := fun hpub =>
    absurd hpub.1 (Nat.lt_irrefl _)
  have hset : Slotted (m.setCallback m.nextCallback ⟨c, 0, false, 0, .takePort⟩) :=
    h.setCallback _ nofun hkeep
  refine ⟨hset.slots, hset.occupied, hset.removing, hset.publishing, fun c' active hc' => ?_,
    fun a active ha => ?_⟩
  · obtain ⟨⟨hlt, hpc⟩, hbridge⟩ := hset.active c' active hc'
    exact ⟨⟨Nat.lt_succ_of_lt hlt, hpc⟩, hbridge⟩
  · obtain ⟨⟨hlt, hpc⟩, hbridge⟩ := hset.taken a active ha
    exact ⟨⟨Nat.lt_succ_of_lt hlt, hpc⟩, hbridge⟩

theorem Slotted.not_held (h : m.Slotted) {conf : ConfPortId} (hfree : m.bridge.lookup conf = none) :
    (∀ r, m.slotAt r ≠ some conf) ∧ conf ∉ m.removing :=
  ⟨fun r hr => h.occupied r conf hr hfree, fun hr => h.removing conf hr hfree⟩

theorem Slotted.attach (h : m.Slotted) {conf : ConfPortId} (hpc : (m.callbacks j).pc = .addPort)
    (hfree : m.bridge.lookup conf = none) : Slotted (m.addPort j (some conf)) := by
  obtain ⟨hheld, hremoving⟩ := h.not_held hfree
  have hslots : (m.addPort j (some conf)).slotAt
      = Function.update m.slotAt (.callback j) (some conf) :=
    slotAt_setCallback (m := m) { m.callbacks j with portId := conf, pc := .publish }
  have hbridge : ∀ conf', m.bridge.lookup conf' ≠ none →
      (m.addPort j (some conf)).bridge.lookup conf' = m.bridge.lookup conf' := by
    intro conf' hconf'
    have hne : conf' ≠ conf := fun heq => hconf' (heq ▸ hfree)
    simp only [Media.addPort, Media.setCallback, FiniteMap.lookup_insert, if_neg hne]
  have hattached : ∀ active, m.Attached active → (m.addPort j (some conf)).Attached active := by
    intro active hactive
    obtain ⟨⟨hlt, hpub⟩, hslot⟩ := hactive
    have hne : active.pool ≠ j := by
      intro heq
      rw [heq, hpc] at hpub
      rcases hpub with hpub | hpub <;> cases hpub
    have hcallback : (m.addPort j (some conf)).callbacks active.pool = m.callbacks active.pool :=
      Function.update_of_ne hne _ _
    refine ⟨⟨hlt, by rw [hcallback]; exact hpub⟩, ?_⟩
    rw [hbridge _ (by rw [hslot]; exact fun h => by cases h), portOf, hcallback]
    exact hslot
  refine ⟨?_, fun r conf' hr => ?_, fun conf' hconf' => ?_, fun j' hj' => ?_,
    fun c active hc => hattached active (h.active c active hc),
    fun a active ha => hattached active (h.taken a active ha)⟩
  · rw [hslots]
    exact h.slots.acquire _ hheld hremoving
  · rw [hslots] at hr
    by_cases heq : r = .callback j
    · rw [heq, Function.update_self] at hr
      cases hr
      simp only [Media.addPort, Media.setCallback, FiniteMap.lookup_insert, if_true]
      intro h
      cases h
    · rw [Function.update_of_ne heq] at hr
      rw [hbridge conf' (h.occupied r conf' hr)]
      exact h.occupied r conf' hr
  · rw [hbridge conf' (h.removing conf' hconf')]
    exact h.removing conf' hconf'
  · by_cases heq : j' = j
    · subst j'
      simp only [Media.addPort, Media.setCallback, Function.update_self, FiniteMap.lookup_insert,
        if_true]
    · have hcallback : (m.addPort j (some conf)).callbacks j' = m.callbacks j' :=
        Function.update_of_ne heq _ _
      rw [hcallback] at hj' ⊢
      have hslot := h.publishing j' hj'
      rw [hbridge _ (by rw [hslot]; exact fun h => by cases h)]
      exact hslot

theorem Slotted.publish (h : m.Slotted) (hj : j < m.nextCallback)
    (hpc : (m.callbacks j).pc = .publish) : Slotted (m.publish j) := by
  have hslot : m.slotAt (.callback j) = some (m.callbacks j).portId := by
    rw [slotAt, MediaCallback.slot, if_pos hpc]
  have hslots : (m.publish j).slotAt = Function.update (Function.update m.slotAt (.callback j) none)
      (.active (m.callbacks j).callId) (some (m.callbacks j).portId) := by
    have hne : SlotPlace.active (m.callbacks j).callId ≠ .callback j := nofun
    rw [Function.update_comm hne.symm]
    have hpublish := slotAt_publish (m := m) (m.callbacks j).callId ⟨(m.callbacks j).portId, j⟩
    rw [← hpublish]
    exact slotAt_setCallback _
  have hattached : ∀ active, m.Attached active → (m.publish j).Attached active := by
    intro active hactive
    apply Attached.of_ne (m := { m with activeMedia := _ }) hactive
    intro hpub
    rcases hpub.2 with hpub | hpub <;> rw [show (m.callbacks j).pc = .publish from hpc] at hpub <;>
      cases hpub
  refine ⟨?_, fun r conf hr => ?_, h.removing, fun j' hj' => ?_, fun c active hc => ?_,
    fun a active ha => hattached active (h.taken a active ha)⟩
  · rw [hslots, ← hslot]
    exact h.slots.move _ _
  · rw [hslots] at hr
    by_cases heq : r = .active (m.callbacks j).callId
    · rw [heq, Function.update_self] at hr
      exact h.occupied (.callback j) conf (hslot.trans hr)
    · rw [Function.update_of_ne heq] at hr
      exact h.occupied r conf (of_update_none hr).2
  · by_cases heq : j' = j
    · subst j'
      simp only [Media.publish, gotoCallback, Media.setCallback, Function.update_self] at hj'
      cases hj'
    · have hcallback : (m.publish j).callbacks j' = m.callbacks j' := Function.update_of_ne heq _ _
      rw [hcallback] at hj' ⊢
      exact h.publishing j' hj'
  · simp only [Media.publish, gotoCallback, Media.setCallback, FiniteMap.lookup_insert] at hc
    split at hc
    · cases hc
      simp only [Attached, Published, portOf, Media.publish, gotoCallback, Media.setCallback,
        Function.update_self]
      exact ⟨⟨hj, .inl trivial⟩, h.publishing j hpc⟩
    · exact hattached active (h.active c active hc)

/-- The bridge completes a removal that it accepted, or one of a slot that is not ours. -/
theorem Slotted.portRemoved (h : m.Slotted) {conf : ConfPortId} {ok : Bool}
    (hen : conf ∈ m.removing ∨ m.bridge.lookup conf = none) : Slotted (m.portRemoved conf ok) := by
  have hheld : ∀ r, m.slotAt r ≠ some conf := by
    rcases hen with hremoving | hfree
    · exact fun r hr => h.slots.free r conf hr hremoving
    · exact (h.not_held hfree).1
  have hbridge : ∀ conf' ≠ conf, (m.portRemoved conf ok).bridge.lookup conf' = m.bridge.lookup conf' := by
    intro conf' hne
    cases ok
    · rfl
    · simp only [Media.portRemoved, if_true, FiniteMap.lookup_erase, if_neg hne]
  have hattached : ∀ active, m.Attached active → active.confPortId ≠ conf →
      (m.portRemoved conf ok).Attached active := by
    intro active hactive hne
    exact ⟨hactive.1, (hbridge _ hne).trans hactive.2⟩
  refine ⟨h.slots.forget (List.erase_sublist), fun r conf' hr => ?_, fun conf' hconf' => ?_,
    fun j hj => ?_, fun c active hc => ?_, fun a active ha => ?_⟩
  · rw [hbridge conf' fun heq => hheld r (heq ▸ hr)]
    exact h.occupied r conf' hr
  · obtain ⟨hne, hconf'⟩ := (List.Nodup.mem_erase_iff h.slots.nodup).1 hconf'
    rw [hbridge conf' hne]
    exact h.removing conf' hconf'
  · refine (hbridge _ fun heq => hheld (.callback j) ?_).trans (h.publishing j hj)
    rw [slotAt, MediaCallback.slot, if_pos (show (m.callbacks j).pc = .publish from hj)]
    exact congrArg some heq
  · refine hattached active (h.active c active hc) fun heq => hheld (.active c) ?_
    rw [slotAt, show m.activeMedia.lookup c = some active from hc, Option.map_some, heq]
  · refine hattached active (h.taken a active ha) fun heq => hheld (.job a) ?_
    rw [slotAt, show (m.jobs a).stage = .registerCleanup active from ha, Stage.slot, heq]

theorem Slotted.next (h : m.Slotted) (hnum : m.Numbered) {b : MediaAction} (hen : m.enabled b) :
    Slotted (m.next b) := by
  have hnot : ∀ {j : Nat} {pc : CallbackPc}, (m.callbacks j).pc = pc → pc ≠ .notify → pc ≠ .done →
      ¬m.Published j := by
    intro j pc hpc hnotify hdone hpub
    rcases hpub.2 with hpub | hpub
    · exact hnotify (hpc.symm.trans hpub)
    · exact hdone (hpc.symm.trans hpub)
  cases b with
  | job a ok => exact h.stepJob ok
  | mediaState c => exact h.spawnCallback c
  | takePort j =>
    have hnot := hnot hen (fun h => by cases h) (fun h => by cases h)
    simp only [Media.next, Media.takePort, unregisterPendingPort]
    cases m.pendingPorts.lookup (m.callbacks j).callId with
    | none =>
      have := h.setCallback (j := j) { m.callbacks j with pc := .done } (fun h => by cases h)
        fun hpub => absurd hpub hnot
      exact ⟨this.slots, this.occupied, this.removing, this.publishing, this.active, this.taken⟩
    | some port =>
      have := h.setCallback (j := j)
        { m.callbacks j with port := port, pc := .getConfPort } (fun h => by cases h)
        fun hpub => absurd hpub hnot
      exact ⟨this.slots, this.occupied, this.removing, this.publishing, this.active, this.taken⟩
  | getConfPort j ok =>
    have hnot := hnot hen (fun h => by cases h) (fun h => by cases h)
    cases ok <;> exact h.setCallback _ (fun h => by cases h) fun hpub => absurd hpub hnot
  | createPool j ok =>
    have hnot := hnot hen (fun h => by cases h) (fun h => by cases h)
    cases ok <;> exact h.setCallback _ (fun h => by cases h) fun hpub => absurd hpub hnot
  | addPort j portId =>
    cases portId with
    | none =>
      have hnot := hnot hen.1 (fun h => by cases h) (fun h => by cases h)
      have := h.setCallback (j := j) { m.callbacks j with pc := .putBack } (fun h => by cases h)
        fun hpub => absurd hpub hnot
      exact ⟨this.slots, this.occupied, this.removing, this.publishing, this.active, this.taken⟩
    | some conf => exact h.attach hen.1 (Option.isNone_iff_eq_none.1 hen.2)
  | publish j =>
    have hnot : (m.callbacks j).pc ≠ .done := by
      intro hdone
      cases hdone.symm.trans hen
    exact h.publish (hnum.lt_nextCallback hnot) hen
  | notify j =>
    have := h.setCallback (j := j) { m.callbacks j with pc := .done } (fun h => by cases h)
      fun _ => ⟨rfl, .inr rfl⟩
    exact ⟨this.slots, this.occupied, this.removing, this.publishing, this.active, this.taken⟩
  | putBack j =>
    have hnot := hnot hen (fun h => by cases h) (fun h => by cases h)
    have := h.setCallback (j := j) { m.callbacks j with pc := .done } (fun h => by cases h)
      fun hpub => absurd hpub hnot
    exact ⟨this.slots, this.occupied, this.removing, this.publishing, this.active, this.taken⟩
  | portRemoved conf ok => exact h.portRemoved hen
  | confOp i =>
    obtain ⟨_, _, _, _, _, heq⟩ := m.frees_confOp i
    rw [heq]
    exact ⟨h.slots, h.occupied, h.removing, h.publishing, h.active, h.taken⟩
  | deferred i =>
    obtain ⟨_, _, _, _, _, heq⟩ := m.frees_deferred i
    rw [heq]
    exact ⟨h.slots, h.occupied, h.removing, h.publishing, h.active, h.taken⟩

end Media

theorem State.slotted_mediaAfter {s : State} {a : ManagerAction} (h : s.media.Slotted) :
    (s.mediaAfter a).Slotted := by
  rcases s.mediaAfter_cases a with ⟨r, job, heq, hstart, _⟩ | ⟨_, _, _, heq⟩ <;> rw [heq]
  · rcases Stage.cases_starting hstart with hstage | hstage | hstage <;>
      exact h.startJob (.inl (by rw [hstage]; rfl)) (by rw [hstage]; exact nofun)
  · exact ⟨h.slots, h.occupied, h.removing, h.publishing, h.active, h.taken⟩

theorem reaches_slotted {n : Nat} {ok : State → Action → Prop} {s : State}
    (hs : (bridge n).Reaches ok s) : s.media.Slotted := by
  refine hs.invariant (I := fun s => s.media.Slotted) ?_ fun s a hs h hen _ => ?_
  · intro s hinit
    rw [hinit]
    exact Media.slotted_initial
  · cases a with
    | manager a => exact State.slotted_mediaAfter h
    | media b => exact h.next (reaches_numbered hs) hen

end MumbleSip
