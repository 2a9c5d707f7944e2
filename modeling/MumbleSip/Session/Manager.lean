import MumbleSip.Sip.Media

/-!
# The session manager

`SessionManager` of `session.rs` as the main loop and the setup tasks drive it: the admission check, the
generation-scoped `pending_setups`, the cancel tokens and `sessions`. A setup task is a program counter
over `on_incoming_call`, one value for each await and each lock acquisition; what the outside answers
(the caller store, `pjsua_call_answer`, `MumbleClient::connect`) is part of the action. Media ports
are torn down by the programs of `Sip.Media`.
-/

namespace MumbleSip

/-- Where a setup task is in `on_incoming_call`; each value names the step it takes next. -/
inductive SetupPc
  | unspawned
  | checkLimit
  | rejected
  | lookup
  | registerPort
  | registerReady
  | drawGeneration
  | registerPending
  | answer
  | awaitMedia
  | intro
  | connect
  | removePending
  | checkCancel
  | insertSession
  | abortSetup
  | teardown
  | unregisterReady
  | returned
  deriving DecidableEq

/-- Where `on_incoming_call` gave up. -/
inductive Exit
  | answerFailed
  | mediaDropped
  | mediaCancelled
  | introCancelled
  | connectCancelled
  | connectFailed
  | lateCancel
  deriving DecidableEq

/-- The exits that call `unregister_media_ready` when the setup still owns its call id. -/
def Exit.unregistersReady : Exit → Bool
  | .answerFailed | .mediaCancelled => true
  | _ => false

/-- The local variables of a setup task. -/
structure Setup where
  pc : SetupPc
  playIntro : Bool
  generation : Nat
  owns : Bool
  exit : Exit
  deriving DecidableEq

/-- `CallSession`, of which the teardown reads the media port. -/
structure CallSession where
  mediaPort : MediaPort
  deriving DecidableEq

/-- Where the main loop is: between two events, or inside `on_call_disconnected`. -/
inductive MainPc
  | idle
  | cancelPending (k : Call)
  | teardown (k : Call)
  deriving DecidableEq

structure Manager where
  maxConcurrentCalls : Nat
  /-- The calls pjsua has reported: their ids, which are over, and whose `Disconnected` event the main
  loop has processed. -/
  nextCall : Nat
  callId : Call → CallId
  ended : Call → Bool
  handled : Call → Bool
  main : MainPc
  setups : Call → Setup
  /-- A generation and the cancel token of a setup. -/
  pendingSetups : FiniteMap CallId (Nat × Call)
  nextSetupGeneration : Nat
  cancelled : Call → Bool
  sessions : FiniteMap CallId CallSession

inductive SetupAction
  | checkLimit
  | lookup (playIntro : Bool)
  | registerPort
  | registerReady
  | drawGeneration
  | registerPending
  | answer (ok : Bool)
  | mediaReady
  | mediaDropped
  | mediaCancelled
  | introDone
  | introCancelled
  | connected
  | connectFailed
  | connectCancelled
  | removePending
  | checkCancel
  | insertSession
  | abortSetup
  | teardownDone
  | unregisterReady
  deriving DecidableEq

/-- Where in `on_incoming_call` the action is taken. -/
def SetupAction.pc : SetupAction → SetupPc
  | .checkLimit => .checkLimit
  | .lookup _ => .lookup
  | .registerPort => .registerPort
  | .registerReady => .registerReady
  | .drawGeneration => .drawGeneration
  | .registerPending => .registerPending
  | .answer _ => .answer
  | .mediaReady | .mediaDropped | .mediaCancelled => .awaitMedia
  | .introDone | .introCancelled => .intro
  | .connected | .connectFailed | .connectCancelled => .connect
  | .removePending => .removePending
  | .checkCancel => .checkCancel
  | .insertSession => .insertSession
  | .abortSetup => .abortSetup
  | .teardownDone => .teardown
  | .unregisterReady => .unregisterReady

/-- The `cancel_token.cancelled()` branches of the `select!`s. -/
def SetupAction.onCancel : SetupAction → Bool
  | .mediaCancelled | .introCancelled | .connectCancelled => true
  | _ => false

inductive ManagerAction
  /-- pjsua reports a call under a free id, and its end. -/
  | newCall (callId : CallId)
  | endCall (k : Call)
  /-- The main loop takes the `IncomingCall` event of a call and spawns its setup task. -/
  | incomingCall (k : Call)
  /-- The main loop takes the `Disconnected` event of a call: `on_call_disconnected` up to the removal
  from `sessions`, then `cancel_pending_setup` or the end of the teardown. -/
  | disconnected (k : Call)
  | cancelPending (k : Call)
  | sessionTornDown (k : Call)
  | setup (k : Call) (a : SetupAction)
  deriving DecidableEq

namespace Manager

def initial (maxConcurrentCalls : Nat) : Manager where
  maxConcurrentCalls := maxConcurrentCalls
  nextCall := 0
  callId := fun _ => 0
  ended := fun _ => false
  handled := fun _ => false
  main := .idle
  setups := fun _ => ⟨.unspawned, false, 0, false, .answerFailed⟩
  pendingSetups := ∅
  nextSetupGeneration := 0
  cancelled := fun _ => false
  sessions := ∅

/-- `remove_pending_setup`: the entry is removed only if the generation matches. -/
def removePendingSetup (m : Manager) (callId : CallId) (generation : Nat) :
    Bool × FiniteMap CallId (Nat × Call) :=
  match m.pendingSetups.lookup callId with
  | some entry =>
    if entry.1 = generation then (true, m.pendingSetups.erase callId) else (false, m.pendingSetups)
  | none => (false, m.pendingSetups)

/-- The setup's own call of `remove_pending_setup`. -/
def release (m : Manager) (k : Call) : Bool × FiniteMap CallId (Nat × Call) :=
  m.removePendingSetup (m.callId k) (m.setups k).generation

/-- `cancel_pending_setup`: the token of the entry is cancelled and the entry stays. -/
def cancelPendingSetup (m : Manager) (callId : CallId) : Call → Bool :=
  match m.pendingSetups.lookup callId with
  | some entry => Function.update m.cancelled entry.2 true
  | none => m.cancelled

/-- A setup task starts only from an `IncomingCall` event, and the events of one call id alternate: the
previous call of the id has been reported disconnected first. -/
def enabled (m : Manager) : ManagerAction → Prop
  | .newCall c => ∀ k < m.nextCall, m.callId k = c → m.ended k = true
  | .endCall k => k < m.nextCall ∧ m.ended k = false
  | .incomingCall k =>
    m.main = .idle ∧ k < m.nextCall ∧ (m.setups k).pc = .unspawned ∧
      ∀ k' < k, m.callId k' = m.callId k → m.handled k' = true
  | .disconnected k =>
    m.main = .idle ∧ m.ended k = true ∧ (m.setups k).pc ≠ .unspawned ∧ m.handled k = false
  | .cancelPending k => m.main = .cancelPending k
  | .sessionTornDown k => m.main = .teardown k
  | .setup k a => (m.setups k).pc = a.pc ∧ (a.onCancel = true → m.cancelled k = true)

instance (m : Manager) : ∀ a : ManagerAction, Decidable (m.enabled a)
  | .newCall _ => inferInstanceAs (Decidable (∀ _ < _, _ → _))
  | .endCall _ | .disconnected _ | .setup _ _ => inferInstanceAs (Decidable (_ ∧ _))
  | .incomingCall _ => inferInstanceAs (Decidable (_ ∧ _ ∧ _ ∧ ∀ _ < _, _ → _))
  | .cancelPending _ | .sessionTornDown _ => inferInstanceAs (Decidable (_ = _))

/-- `on_incoming_call`, step by step: what the action does to the task's own variables. -/
def stepSetup (m : Manager) (k : Call) : SetupAction → Setup
  | .checkLimit =>
    if m.maxConcurrentCalls ≤ m.sessions.size + m.pendingSetups.size then
      { m.setups k with pc := .rejected }
    else { m.setups k with pc := .lookup }
  | .lookup playIntro => { m.setups k with pc := .registerPort, playIntro := playIntro }
  | .registerPort => { m.setups k with pc := .registerReady }
  | .registerReady => { m.setups k with pc := .drawGeneration }
  | .drawGeneration =>
    { m.setups k with pc := .registerPending, generation := m.nextSetupGeneration }
  | .registerPending => { m.setups k with pc := .answer }
  | .answer ok =>
    if ok then { m.setups k with pc := .awaitMedia }
    else { m.setups k with pc := .abortSetup, exit := .answerFailed }
  | .mediaReady =>
    if (m.setups k).playIntro then { m.setups k with pc := .intro }
    else { m.setups k with pc := .connect }
  | .mediaDropped => { m.setups k with pc := .abortSetup, exit := .mediaDropped }
  | .mediaCancelled => { m.setups k with pc := .abortSetup, exit := .mediaCancelled }
  | .introDone => { m.setups k with pc := .connect }
  | .introCancelled => { m.setups k with pc := .abortSetup, exit := .introCancelled }
  | .connected => { m.setups k with pc := .removePending }
  | .connectFailed => { m.setups k with pc := .abortSetup, exit := .connectFailed }
  | .connectCancelled => { m.setups k with pc := .abortSetup, exit := .connectCancelled }
  | .removePending => { m.setups k with pc := .checkCancel, owns := (m.release k).1 }
  | .checkCancel =>
    if m.cancelled k then { m.setups k with pc := .teardown, exit := .lateCancel }
    else { m.setups k with pc := .insertSession }
  | .insertSession => { m.setups k with pc := .returned }
  | .abortSetup => { m.setups k with pc := .teardown, owns := (m.release k).1 }
  | .teardownDone =>
    if (m.setups k).owns && (m.setups k).exit.unregistersReady then
      { m.setups k with pc := .unregisterReady }
    else { m.setups k with pc := .returned }
  | .unregisterReady => { m.setups k with pc := .returned }

/-- What it does to `pending_setups`. -/
def stepPending (m : Manager) (k : Call) : SetupAction → FiniteMap CallId (Nat × Call)
  | .registerPending => m.pendingSetups.insert (m.callId k) ((m.setups k).generation, k)
  | .removePending | .abortSetup => (m.release k).2
  | _ => m.pendingSetups

/-- What it does to `sessions`. -/
def stepSessions (m : Manager) (k : Call) : SetupAction → FiniteMap CallId CallSession
  | .insertSession => m.sessions.insert (m.callId k) ⟨k⟩
  | _ => m.sessions

/-- `next_setup_generation.fetch_add(1)`. -/
def stepGeneration (m : Manager) : SetupAction → Nat
  | .drawGeneration => m.nextSetupGeneration + 1
  | _ => m.nextSetupGeneration

def next (m : Manager) : ManagerAction → Manager
  | .newCall c =>
    { m with callId := Function.update m.callId m.nextCall c, nextCall := m.nextCall + 1 }
  | .endCall k => { m with ended := Function.update m.ended k true }
  | .incomingCall k =>
    { m with setups := Function.update m.setups k { m.setups k with pc := .checkLimit } }
  | .disconnected k =>
    { m with
      sessions := m.sessions.erase (m.callId k)
      main := if (m.sessions.lookup (m.callId k)).isSome then .teardown k else .cancelPending k }
  | .cancelPending k =>
    { m with
      cancelled := m.cancelPendingSetup (m.callId k)
      handled := Function.update m.handled k true
      main := .idle }
  | .sessionTornDown k => { m with handled := Function.update m.handled k true, main := .idle }
  | .setup k a =>
    { m with
      setups := Function.update m.setups k (m.stepSetup k a)
      pendingSetups := m.stepPending k a
      nextSetupGeneration := m.stepGeneration a
      sessions := m.stepSessions k a }

end Manager

end MumbleSip
