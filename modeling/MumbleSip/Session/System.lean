import MumbleSip.Lib.Transition
import MumbleSip.Session.Manager

/-!
# The whole system

The session manager and the media side together, for any number of calls: the steps of the setup tasks,
of the main loop, of the pjsip callbacks and of the deferred threads, in every order.
-/

namespace MumbleSip

open Transition

structure State where
  mgr : Manager
  media : Media

inductive Action
  | manager (a : ManagerAction)
  | media (b : MediaAction)
  deriving DecidableEq

namespace State

/-- What a step of `on_incoming_call` or of the main loop does on the media side. -/
def mediaAfter (s : State) : ManagerAction → Media
  | .setup k .registerPort => s.media.registerPendingPort (s.mgr.callId k) k
  | .setup k .registerReady => s.media.registerMediaReady (s.mgr.callId k) k
  | .setup k .abortSetup =>
    s.media.startJob (.setup k) (cleanupMediaPort (s.mgr.callId k) k (s.mgr.release k).1)
  | .setup k .checkCancel =>
    if s.mgr.cancelled k then
      s.media.startJob (.setup k) (lateCancel (s.mgr.callId k) k (s.mgr.setups k).owns)
    else s.media
  | .setup k .unregisterReady => s.media.unregisterMediaReady (s.mgr.callId k)
  | .disconnected k =>
    match s.mgr.sessions.lookup (s.mgr.callId k) with
    | some session => s.media.startJob .main (teardownSession (s.mgr.callId k) session.mediaPort)
    | none => s.media
  | _ => s.media

/-- What a step of the manager waits for on the media side. -/
def mediaGuard (s : State) : ManagerAction → Bool
  | .setup k .mediaReady => s.media.ready k = .fired
  | .setup k .mediaDropped => s.media.ready k = .dropped
  | .setup k .teardownDone => (s.media.jobs (.setup k)).stage = .done
  | .sessionTornDown _ => (s.media.jobs .main).stage = .done
  | _ => true

def enabled (s : State) : Action → Prop
  | .manager a => s.mgr.enabled a ∧ s.mediaGuard a = true
  | .media b => s.media.enabled b

instance (s : State) : ∀ a : Action, Decidable (s.enabled a)
  | .manager _ => inferInstanceAs (Decidable (_ ∧ _))
  | .media _ => inferInstanceAs (Decidable (Media.enabled _ _))

def next (s : State) : Action → State
  | .manager a => ⟨s.mgr.next a, s.mediaAfter a⟩
  | .media b => ⟨s.mgr, s.media.next b⟩

end State

/-- The bridge for a configured `sip.max_concurrent_calls`. -/
def bridge (maxConcurrentCalls : Nat) : System State Action where
  init s := s = ⟨.initial maxConcurrentCalls, .initial⟩
  enabled := State.enabled
  next := State.next

/-- The session manager alone, with a media side that answers anything. -/
def manager (maxConcurrentCalls : Nat) : System Manager ManagerAction where
  init m := m = .initial maxConcurrentCalls
  enabled := Manager.enabled
  next := Manager.next

instance (n : Nat) (s : State) (a : Action) : Decidable ((bridge n).enabled s a) :=
  inferInstanceAs (Decidable (s.enabled a))

instance (n : Nat) (m : Manager) (a : ManagerAction) : Decidable ((manager n).enabled m a) :=
  inferInstanceAs (Decidable (m.enabled a))

/-- A condition on the steps of the manager, as one on the steps of the whole system. -/
def onManager (ok : Manager → ManagerAction → Prop) (s : State) : Action → Prop
  | .manager a => ok s.mgr a
  | .media _ => True

instance (ok : Manager → ManagerAction → Prop) [∀ m a, Decidable (ok m a)] (s : State) :
    ∀ a : Action, Decidable (onManager ok s a)
  | .manager _ => inferInstanceAs (Decidable (ok _ _))
  | .media _ => inferInstanceAs (Decidable True)

/-- A condition on the steps of the media side. -/
def onMedia (ok : Media → MediaAction → Prop) (s : State) : Action → Prop
  | .manager _ => True
  | .media b => ok s.media b

instance (ok : Media → MediaAction → Prop) [∀ m b, Decidable (ok m b)] (s : State) :
    ∀ a : Action, Decidable (onMedia ok s a)
  | .manager _ => inferInstanceAs (Decidable True)
  | .media _ => inferInstanceAs (Decidable (ok _ _))

/-- The manager sees every run of the system as a run of its own. -/
theorem reaches_manager {n : Nat} {ok : Manager → ManagerAction → Prop} {s : State}
    (hs : (bridge n).Reaches (onManager ok) s) : (manager n).Reaches ok s.mgr := by
  apply hs.map State.mgr
  · rintro s rfl
    rfl
  · intro s a hen hok
    cases a with
    | manager a => exact .inr ⟨a, hen.1, hok, rfl⟩
    | media b => exact .inl rfl

theorem reachable_manager {n : Nat} {s : State} {ok : State → Action → Prop}
    (hs : (bridge n).Reaches ok s) : (manager n).Reachable s.mgr := by
  refine reaches_manager (hs.mono fun s a _ _ _ => ?_)
  cases a <;> trivial

/-! ### Runs of one call -/

/-- A setup task from its start to the answered call. -/
def answerCall (k : Call) : List Action :=
  [.incomingCall k, .setup k .checkLimit, .setup k (.lookup false), .setup k .registerPort,
    .setup k .registerReady, .setup k .drawGeneration, .setup k .registerPending,
    .setup k (.answer true)].map .manager

/-- The media callback with number `j` attaches the registered port of the call id to a slot. -/
def attachMedia (callId : CallId) (j : Nat) (slot : ConfPortId) : List Action :=
  [.mediaState callId, .takePort j, .getConfPort j true, .createPool j true, .addPort j (some slot),
    .publish j, .notify j].map .media

/-- An answered call becomes a session. -/
def establish (k : Call) : List Action :=
  [.setup k .mediaReady, .setup k .connected, .setup k .removePending, .setup k .checkCancel,
    .setup k .insertSession].map .manager

end MumbleSip
