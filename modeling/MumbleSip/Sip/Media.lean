import MumbleSip.Lib.FiniteMap
import Mathlib.Logic.Function.Basic

/-!
# The media side of a call

The registries of `sip/callbacks.rs`, the conference bridge they talk to, and the programs that run
over them: the two pjsip callbacks, the port teardown shared by `SessionManager::cleanup_media_port`,
the late-cancel branch of `on_incoming_call` and `on_call_disconnected`, and the threads of
`DeferredCleanup`. Every lock acquisition and every pjsua call is a step of its own; what pjsua answers
is part of the action.
-/

namespace MumbleSip

/-- `pjsua_call_id`. pjsua hands an id out again once its call is over. -/
abbrev CallId := Int

/-- `pjsua_conf_port_id`, a slot of the conference bridge, handed out again likewise. -/
abbrev ConfPortId := Int

/-- The calls, numbered in the order pjsua reports them. A call also names what its setup task creates
once: the media port, the media-ready channel and the cancel token. -/
abbrev Call := Nat

/-- What `create_custom_port` returned to the setup task of a call. -/
abbrev MediaPort := Call

/-- The memory pool created by the invocation of `on_call_media_state` with this number. -/
abbrev Pool := Nat

structure ActiveMedia where
  confPortId : ConfPortId
  pool : Pool
  deriving DecidableEq

/-- `PendingCleanup` and `DeferredCleanup`: a port to destroy, and its pool if it has one. -/
structure Cleanup where
  port : MediaPort
  pool : Option Pool
  deriving DecidableEq

/-- What the receiver of a media-ready channel sees. -/
inductive Ready
  | waiting
  | fired
  | dropped
  deriving DecidableEq

/-! ### Programs -/

/-- Who tears a port down: the setup task of a call, or the main loop in `on_call_disconnected`. -/
inductive Actor
  | setup (k : Call)
  | main
  deriving DecidableEq

/-- What a port teardown does next. -/
inductive Stage
  | idle
  | unregisterPort
  | takeActive (wasPending : Bool)
  | destroyPort
  | registerCleanup (active : ActiveMedia)
  | removePort (confPortId : ConfPortId)
  | takeCleanup (confPortId : ConfPortId)
  | defer
  | done
  deriving DecidableEq

/-- A port teardown. With neither a pending nor an active registration to go by, it leaves the port
alone where `skipUnknown` is set and defers the destruction otherwise. -/
structure Job where
  callId : CallId
  port : MediaPort
  skipUnknown : Bool
  stage : Stage
  deriving DecidableEq

/-- `SessionManager::cleanup_media_port`. -/
def cleanupMediaPort (callId : CallId) (port : MediaPort) (ownsCall : Bool) : Job where
  callId := callId
  port := port
  skipUnknown := false
  stage := if ownsCall then .unregisterPort else .defer

/-- The teardown of `on_incoming_call` for a call cancelled after it left `pending_setups`. -/
def lateCancel (callId : CallId) (port : MediaPort) (owns : Bool) : Job where
  callId := callId
  port := port
  skipUnknown := true
  stage := if owns then .takeActive false else .defer

/-- The teardown of `on_call_disconnected`. -/
def teardownSession (callId : CallId) (port : MediaPort) : Job where
  callId := callId
  port := port
  skipUnknown := true
  stage := .unregisterPort

/-- Where the teardown goes once it has looked at `PENDING_PORTS` and `ACTIVE_MEDIA`. -/
def Job.afterLookup (job : Job) (wasPending : Bool) (active : Option ActiveMedia) : Stage :=
  if wasPending then .destroyPort
  else match active with
    | some active => .registerCleanup active
    | none => if job.skipUnknown then .done else .defer

inductive CallbackPc
  | takePort
  | getConfPort
  | createPool
  | addPort
  | publish
  | notify
  | putBack
  | done
  deriving DecidableEq

/-- One invocation of `on_call_media_state`, with its local variables. -/
structure MediaCallback where
  callId : CallId
  port : MediaPort
  poolCreated : Bool
  portId : ConfPortId
  pc : CallbackPc
  deriving DecidableEq

/-- One invocation of `on_conf_op_completed` for a `REMOVE_PORT` operation. `skipped` is the return for a
failed operation, with the cleanup it had already taken. -/
inductive ConfOp
  | take (confPortId : ConfPortId) (ok : Bool)
  | destroy (cleanup : Cleanup)
  | skipped (cleanup : Cleanup)
  | done
  deriving DecidableEq

def ConfOp.running : ConfOp → Bool
  | .take _ _ | .destroy _ => true
  | .skipped _ | .done => false

/-! ### State -/

structure Media where
  /-- `PENDING_PORTS`, `ACTIVE_MEDIA`, `MEDIA_READY_TX`, `PENDING_CLEANUP`. -/
  pendingPorts : FiniteMap CallId MediaPort
  activeMedia : FiniteMap CallId ActiveMedia
  mediaReadyTx : FiniteMap CallId Call
  pendingCleanup : FiniteMap ConfPortId Cleanup
  ready : Call → Ready
  /-- The custom ports attached to the conference bridge, and the removals pjsua has accepted. -/
  bridge : FiniteMap ConfPortId MediaPort
  removing : List ConfPortId
  jobs : Actor → Job
  callbacks : Nat → MediaCallback
  nextCallback : Nat
  confOps : Nat → ConfOp
  nextConfOp : Nat
  deferred : Nat → Option Cleanup
  nextDeferred : Nat
  /-- The ports passed to `destroy_custom_port` and the pools passed to `pj_pool_release`. -/
  destroyed : List MediaPort
  released : List Pool

namespace Media

def initial : Media where
  pendingPorts := ∅
  activeMedia := ∅
  mediaReadyTx := ∅
  pendingCleanup := ∅
  ready := fun _ => .waiting
  bridge := ∅
  removing := []
  jobs := fun _ => ⟨0, 0, false, .idle⟩
  callbacks := fun _ => ⟨0, 0, false, 0, .done⟩
  nextCallback := 0
  confOps := fun _ => .done
  nextConfOp := 0
  deferred := fun _ => none
  nextDeferred := 0
  destroyed := []
  released := []

/-! ### `sip/callbacks.rs`, the registries -/

def registerPendingPort (m : Media) (callId : CallId) (port : MediaPort) : Media :=
  { m with pendingPorts := m.pendingPorts.insert callId port }

def unregisterPendingPort (m : Media) (callId : CallId) : Option MediaPort × Media :=
  (m.pendingPorts.lookup callId, { m with pendingPorts := m.pendingPorts.erase callId })

/-- The receivers after the sender registered for `callId` has been given the state `r`. -/
def setReady (m : Media) (callId : CallId) (r : Ready) : Call → Ready :=
  match m.mediaReadyTx.lookup callId with
  | some k => Function.update m.ready k r
  | none => m.ready

def registerMediaReady (m : Media) (callId : CallId) (k : Call) : Media :=
  { m with
    ready := Function.update (m.setReady callId .dropped) k .waiting
    mediaReadyTx := m.mediaReadyTx.insert callId k }

def unregisterMediaReady (m : Media) (callId : CallId) : Media :=
  { m with
    ready := m.setReady callId .dropped
    mediaReadyTx := m.mediaReadyTx.erase callId }

def takeActiveMedia (m : Media) (callId : CallId) : Option ActiveMedia × Media :=
  (m.activeMedia.lookup callId, { m with activeMedia := m.activeMedia.erase callId })

def registerPendingCleanup (m : Media) (confPortId : ConfPortId) (cleanup : Cleanup) : Media :=
  { m with pendingCleanup := m.pendingCleanup.insert confPortId cleanup }

def takePendingCleanup (m : Media) (confPortId : ConfPortId) : Option Cleanup × Media :=
  (m.pendingCleanup.lookup confPortId,
    { m with pendingCleanup := m.pendingCleanup.erase confPortId })

/-! ### `media_port::destroy_custom_port` and `DeferredCleanup` -/

def destroyCustomPort (m : Media) (port : MediaPort) : Media :=
  { m with destroyed := port :: m.destroyed }

def poolRelease (m : Media) (pool : Option Pool) : Media :=
  { m with released := pool.toList ++ m.released }

/-- `DeferredCleanup::spawn_deferred`. -/
def spawnDeferred (m : Media) (cleanup : Cleanup) : Media :=
  { m with
    deferred := Function.update m.deferred m.nextDeferred (some cleanup)
    nextDeferred := m.nextDeferred + 1 }

/-! ### Port teardown -/

def startJob (m : Media) (a : Actor) (job : Job) : Media :=
  { m with jobs := Function.update m.jobs a job }

def setStage (m : Media) (a : Actor) (stage : Stage) : Media :=
  { m with jobs := Function.update m.jobs a { m.jobs a with stage := stage } }

/-- The next step of a teardown; `ok` is what `pjsua_conf_remove_port` answers. -/
def stepJob (m : Media) (a : Actor) (ok : Bool) : Media :=
  let job := m.jobs a
  match job.stage with
  | .idle | .done => m
  | .unregisterPort =>
    let (found, m) := m.unregisterPendingPort job.callId
    m.setStage a (.takeActive found.isSome)
  | .takeActive wasPending =>
    let (active, m) := m.takeActiveMedia job.callId
    m.setStage a (job.afterLookup wasPending active)
  | .destroyPort => (m.destroyCustomPort job.port).setStage a .done
  | .registerCleanup active =>
    (m.registerPendingCleanup active.confPortId ⟨job.port, some active.pool⟩).setStage a
      (.removePort active.confPortId)
  | .removePort conf =>
    if ok then { m with removing := conf :: m.removing }.setStage a .done
    else m.setStage a (.takeCleanup conf)
  | .takeCleanup conf =>
    match m.takePendingCleanup conf with
    | (some cleanup, m) => (m.spawnDeferred cleanup).setStage a .done
    | (none, m) => m.setStage a .done
  | .defer => (m.spawnDeferred ⟨job.port, none⟩).setStage a .done

end Media

/-! ### What pjsip and the deferred threads do on their own -/

inductive MediaAction
  /-- A step of a running teardown. -/
  | job (a : Actor) (ok : Bool)
  /-- pjsip calls `on_call_media_state`, and its steps. -/
  | mediaState (callId : CallId)
  | takePort (j : Nat)
  | getConfPort (j : Nat) (ok : Bool)
  | createPool (j : Nat) (ok : Bool)
  | addPort (j : Nat) (portId : Option ConfPortId)
  | publish (j : Nat)
  | notify (j : Nat)
  | putBack (j : Nat)
  /-- The bridge completes a `REMOVE_PORT` and calls `on_conf_op_completed`, and its steps. -/
  | portRemoved (confPortId : ConfPortId) (ok : Bool)
  | confOp (i : Nat)
  /-- A thread of `DeferredCleanup` runs. -/
  | deferred (i : Nat)
  deriving DecidableEq

namespace Media

def setCallback (m : Media) (j : Nat) (callback : MediaCallback) : Media :=
  { m with callbacks := Function.update m.callbacks j callback }

def gotoCallback (m : Media) (j : Nat) (pc : CallbackPc) : Media :=
  m.setCallback j { m.callbacks j with pc := pc }

def setConfOp (m : Media) (i : Nat) (op : ConfOp) : Media :=
  { m with confOps := Function.update m.confOps i op }

/-- `on_call_media_state` up to its first lock. -/
def spawnCallback (m : Media) (callId : CallId) : Media :=
  { m.setCallback m.nextCallback ⟨callId, 0, false, 0, .takePort⟩ with
    nextCallback := m.nextCallback + 1 }

/-- `pending_ports().lock().unwrap().remove(&call_id)`. -/
def takePort (m : Media) (j : Nat) : Media :=
  match m.unregisterPendingPort (m.callbacks j).callId with
  | (some port, m) => m.setCallback j { m.callbacks j with port := port, pc := .getConfPort }
  | (none, m) => m.gotoCallback j .done

/-- `pjsua_conf_add_port`: a free slot, or a failure after which the pool is released. -/
def addPort (m : Media) (j : Nat) (portId : Option ConfPortId) : Media :=
  match portId with
  | some conf =>
    { m with bridge := m.bridge.insert conf (m.callbacks j).port }.setCallback j
      { m.callbacks j with portId := conf, pc := .publish }
  | none => (m.poolRelease (some j)).gotoCallback j .putBack

def publish (m : Media) (j : Nat) : Media :=
  let callback := m.callbacks j
  { m with
    activeMedia := m.activeMedia.insert callback.callId ⟨callback.portId, j⟩ }.gotoCallback j .notify

/-- Remove the media-ready sender of the call and fire it. -/
def notify (m : Media) (j : Nat) : Media :=
  let callId := (m.callbacks j).callId
  { m with
    ready := m.setReady callId .fired
    mediaReadyTx := m.mediaReadyTx.erase callId }.gotoCallback j .done

def putBack (m : Media) (j : Nat) : Media :=
  (m.registerPendingPort (m.callbacks j).callId (m.callbacks j).port).gotoCallback j .done

/-- A completed removal frees the slot; either way `on_conf_op_completed` is called. -/
def portRemoved (m : Media) (conf : ConfPortId) (ok : Bool) : Media :=
  { m with
    bridge := if ok then m.bridge.erase conf else m.bridge
    removing := m.removing.erase conf
    confOps := Function.update m.confOps m.nextConfOp (.take conf ok)
    nextConfOp := m.nextConfOp + 1 }

/-- `on_conf_op_completed`: take the cleanup, look at the status, destroy the port and release the pool. -/
def stepConfOp (m : Media) (i : Nat) : Media :=
  match m.confOps i with
  | .take conf ok =>
    match m.takePendingCleanup conf with
    | (some cleanup, m) => m.setConfOp i (if ok then .destroy cleanup else .skipped cleanup)
    | (none, m) => m.setConfOp i .done
  | .destroy cleanup =>
    ((m.destroyCustomPort cleanup.port).poolRelease cleanup.pool).setConfOp i .done
  | .skipped _ | .done => m

/-- `DeferredCleanup::run`. -/
def runDeferred (m : Media) (i : Nat) : Media :=
  match m.deferred i with
  | some cleanup =>
    { (m.destroyCustomPort cleanup.port).poolRelease cleanup.pool with
      deferred := Function.update m.deferred i none }
  | none => m

/-- When an action can be taken. pjsua gives out a slot only while it is free, and completes only removals
it accepted, here or for ports that are not ours. -/
def enabled (m : Media) : MediaAction → Prop
  | .job a _ => (m.jobs a).stage ≠ .idle ∧ (m.jobs a).stage ≠ .done
  | .mediaState _ => True
  | .takePort j => (m.callbacks j).pc = .takePort
  | .getConfPort j _ => (m.callbacks j).pc = .getConfPort
  | .createPool j _ => (m.callbacks j).pc = .createPool
  | .addPort j portId =>
    (m.callbacks j).pc = .addPort ∧ portId.all fun conf => (m.bridge.lookup conf).isNone
  | .publish j => (m.callbacks j).pc = .publish
  | .notify j => (m.callbacks j).pc = .notify
  | .putBack j => (m.callbacks j).pc = .putBack
  | .portRemoved conf _ => conf ∈ m.removing ∨ m.bridge.lookup conf = none
  | .confOp i => (m.confOps i).running = true
  | .deferred i => (m.deferred i).isSome = true

instance (m : Media) : ∀ b : MediaAction, Decidable (m.enabled b)
  | .job _ _ => inferInstanceAs (Decidable (_ ∧ _))
  | .mediaState _ => inferInstanceAs (Decidable True)
  | .takePort _ | .getConfPort _ _ | .createPool _ _ | .publish _ | .notify _ | .putBack _ =>
    inferInstanceAs (Decidable (_ = _))
  | .addPort _ _ => inferInstanceAs (Decidable (_ ∧ _))
  | .portRemoved _ _ => inferInstanceAs (Decidable (_ ∨ _))
  | .confOp _ | .deferred _ => inferInstanceAs (Decidable (_ = _))

def next (m : Media) : MediaAction → Media
  | .job a ok => m.stepJob a ok
  | .mediaState callId => m.spawnCallback callId
  | .takePort j => m.takePort j
  | .getConfPort j ok => m.gotoCallback j (if ok then .createPool else .putBack)
  | .createPool j ok =>
    if ok then m.setCallback j { m.callbacks j with poolCreated := true, pc := .addPort }
    else m.gotoCallback j .putBack
  | .addPort j portId => m.addPort j portId
  | .publish j => m.publish j
  | .notify j => m.notify j
  | .putBack j => m.putBack j
  | .portRemoved conf ok => m.portRemoved conf ok
  | .confOp i => m.stepConfOp i
  | .deferred i => m.runDeferred i

end Media

end MumbleSip
