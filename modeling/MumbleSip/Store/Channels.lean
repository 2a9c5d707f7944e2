import MumbleSip.Store.Callers

/-!
# The last channel of a caller

Who writes and reads `caller_channels`: `on_call_disconnected` spawns a task that runs
`set_last_channel_id`, and `on_incoming_call` runs `get_last_channel_id` once `get_or_create_caller` has
returned. The tasks of different calls are ordered by nothing; `drain_pending_writes` waits for those whose
handles `pending_writes` holds.
-/

namespace MumbleSip

open Transition

/-- The primary key of `caller_channels`. -/
structure ChannelKey where
  phoneNumber : String
  serverHost : String
  deriving DecidableEq

/-- The column `channel_id` of `caller_channels`. -/
abbrev CallerChannels := FiniteMap ChannelKey Int64

namespace CallerChannels

/-- `INSERT INTO caller_channels .. ON CONFLICT .. DO UPDATE SET channel_id = excluded.channel_id`. -/
def setLastChannelId (channels : CallerChannels) (key : ChannelKey) (channelId : UInt32) :
    CallerChannels :=
  channels.insert key channelId.toUInt64.toInt64

/-- `SELECT channel_id FROM caller_channels WHERE phone_number = ? AND server_host = ?`. -/
def getLastChannelId (channels : CallerChannels) (key : ChannelKey) : Option UInt32 :=
  (channels.lookup key).map fun id => id.toUInt64.toUInt32

theorem getLastChannelId_setLastChannelId (channels : CallerChannels) (key key' : ChannelKey)
    (channelId : UInt32) : (channels.setLastChannelId key channelId).getLastChannelId key'
      = if key' = key then some channelId else channels.getLastChannelId key' := by
  unfold setLastChannelId getLastChannelId
  rw [FiniteMap.lookup_insert]
  split
  · simp
  · rfl

end CallerChannels

/-- Where a call is: in its setup, of which the caller lookup is told apart, or established. -/
inductive CallPc
  | unhandled
  | checkLimit
  | lookup
  | setup
  | session
  | over
  deriving DecidableEq

/-- What `get_last_channel_id` has returned to the setup. -/
inductive ChannelAnswer
  | notAsked
  | found (channelId : Option UInt32)
  | error
  deriving DecidableEq

structure ChannelCall where
  pc : CallPc
  callerNumber : Option String
  serverHost : String
  answer : ChannelAnswer
  currentChannelId : UInt32
  /-- The number of writes spawned before the `IncomingCall` event was handled. -/
  seen : Nat
  deriving DecidableEq

def ChannelCall.key (call : ChannelCall) : Option ChannelKey :=
  call.callerNumber.map fun phone => ⟨phone, call.serverHost⟩

/-- A task spawned to run `set_last_channel_id`. -/
structure ChannelWrite where
  key : ChannelKey
  channelId : UInt32
  deriving DecidableEq

inductive WriteStatus
  | unspawned
  | pending
  | executed
  | failed
  deriving DecidableEq

/-- `handle.is_finished()`. -/
def WriteStatus.isFinished : WriteStatus → Bool
  | .executed | .failed => true
  | _ => false

/-- Where the main loop is: taking events, in `drain_pending_writes`, or past it. -/
inductive DrainPc
  | running
  | draining (handles : List Nat)
  | drained
  deriving DecidableEq

def DrainPc.handles : DrainPc → List Nat
  | .draining handles => handles
  | _ => []

structure ChannelStore where
  callerStore : CallerStore
  channels : CallerChannels
  calls : Nat → ChannelCall
  /-- The writes in the order of the `Disconnected` events that spawned them. -/
  writes : Nat → ChannelWrite
  nextWrite : Nat
  status : Nat → WriteStatus
  pendingWrites : List Nat
  drain : DrainPc
  /-- The write that each row has been given by. -/
  lastWrite : ChannelKey → Option Nat

inductive ChannelAction
  /-- The main loop takes an `IncomingCall` event; the task it spawns checks the limit. -/
  | incomingCall (k : Nat) (callerNumber : Option String) (serverHost : String)
  | rejected (k : Nat)
  | admitted (k : Nat) (now : Int64)
  /-- A statement of `get_or_create_caller`. -/
  | store (a : StoreAction)
  | callerFailed (k : Nat)
  | select (k : Nat)
  | selectFailed (k : Nat)
  | established (k : Nat) (channelId : UInt32)
  | setupEnded (k : Nat)
  | navigate (k : Nat) (channelId : UInt32)
  /-- The main loop takes the `Disconnected` event of a call with a session. -/
  | disconnected (k : Nat)
  | execute (w : Nat)
  | failWrite (w : Nat)
  | drain
  | drained
  deriving DecidableEq

def CallerPc.isReturned : CallerPc → Bool
  | .returned _ => true
  | _ => false

def StoreAction.isCall : StoreAction → Bool
  | .call _ _ _ => true
  | _ => false

/-- The write of the latest of the first `n` disconnects for a key. -/
def latestWrite (writes : Nat → ChannelWrite) (key : ChannelKey) : Nat → Option Nat
  | 0 => none
  | n + 1 => if (writes n).key = key then some n else latestWrite writes key n

theorem lt_of_latestWrite {writes : Nat → ChannelWrite} {key : ChannelKey} {n w : Nat}
    (h : latestWrite writes key n = some w) : w < n ∧ (writes w).key = key := by
  induction n with
  | zero => cases h
  | succ n ih =>
    simp only [latestWrite] at h
    split at h
    · rename_i hkey
      rw [← Option.some.inj h]
      exact ⟨Nat.lt_succ_self n, hkey⟩
    · exact ⟨Nat.lt_succ_of_lt (ih h).1, (ih h).2⟩

theorem latestWrite_update {writes : Nat → ChannelWrite} {key : ChannelKey} {n m : Nat} (hle : n ≤ m)
    (write : ChannelWrite) : latestWrite (Function.update writes m write) key n
      = latestWrite writes key n := by
  induction n with
  | zero => rfl
  | succ n ih =>
    have hne : n ≠ m := by omega
    simp only [latestWrite, Function.update_of_ne hne, ih (Nat.le_of_succ_le hle)]

namespace ChannelStore

def setCall (s : ChannelStore) (k : Nat) (call : ChannelCall) : ChannelStore :=
  { s with calls := Function.update s.calls k call }

def goto (s : ChannelStore) (k : Nat) (pc : CallPc) : ChannelStore :=
  s.setCall k { s.calls k with pc := pc }

/-- The number of the call is looked up if it has one. -/
def admitted (s : ChannelStore) (k : Nat) (now : Int64) : ChannelStore :=
  match (s.calls k).callerNumber with
  | some phone => { s with callerStore := s.callerStore.next (.call k phone now) }.goto k .lookup
  | none => s.goto k .setup

def select (s : ChannelStore) (k : Nat) : ChannelStore :=
  match (s.calls k).key with
  | some key =>
    s.setCall k { s.calls k with pc := .setup, answer := .found (s.channels.getLastChannelId key) }
  | none => s.goto k .setup

/-- `reap_completed_writes`. -/
def reapCompletedWrites (s : ChannelStore) : List Nat :=
  s.pendingWrites.filter fun w => !(s.status w).isFinished

/-- `on_call_disconnected`, as far as it persists the channel. -/
def disconnected (s : ChannelStore) (k : Nat) : ChannelStore :=
  match (s.calls k).key with
  | some key =>
    { s.goto k .over with
      writes := Function.update s.writes s.nextWrite ⟨key, (s.calls k).currentChannelId⟩
      nextWrite := s.nextWrite + 1
      status := Function.update s.status s.nextWrite .pending
      pendingWrites := s.reapCompletedWrites ++ [s.nextWrite] }
  | none => { s.goto k .over with pendingWrites := s.reapCompletedWrites }

def execute (s : ChannelStore) (w : Nat) : ChannelStore :=
  { s with
    channels := s.channels.setLastChannelId (s.writes w).key (s.writes w).channelId
    status := Function.update s.status w .executed
    lastWrite := Function.update s.lastWrite (s.writes w).key (some w) }

/-- The foreign key lets a write through only for a phone number in `callers`. -/
def enabled (s : ChannelStore) : ChannelAction → Prop
  | .incomingCall k _ _ => s.drain = .running ∧ (s.calls k).pc = .unhandled
  | .rejected k | .admitted k _ => (s.calls k).pc = .checkLimit
  | .store a => a.isCall = false ∧ s.callerStore.enabled a
  | .callerFailed k => (s.calls k).pc = .lookup ∧ (s.callerStore.lookups k).pc = .failed
  | .select k | .selectFailed k =>
    (s.calls k).pc = .lookup ∧ (s.callerStore.lookups k).pc.isReturned = true
  | .established k _ | .setupEnded k => (s.calls k).pc = .setup
  | .navigate k _ => (s.calls k).pc = .session
  | .disconnected k => s.drain = .running ∧ (s.calls k).pc = .session
  | .execute w =>
    s.status w = .pending ∧ (s.callerStore.callers.lookup (s.writes w).key.phoneNumber).isSome = true
  | .failWrite w => s.status w = .pending
  | .drain => s.drain = .running
  | .drained => s.drain ≠ .running ∧ s.drain ≠ .drained ∧
      ∀ w ∈ s.drain.handles, (s.status w).isFinished = true

instance (s : ChannelStore) : ∀ a : ChannelAction, Decidable (s.enabled a)
  | .store a => inferInstanceAs (Decidable (_ ∧ s.callerStore.enabled a))
  | .incomingCall _ _ _ | .callerFailed _ | .select _ | .selectFailed _ | .disconnected _ | .execute _ =>
    inferInstanceAs (Decidable (_ ∧ _))
  | .rejected _ | .admitted _ _ | .established _ _ | .setupEnded _ | .navigate _ _ | .failWrite _
  | .drain => inferInstanceAs (Decidable (_ = _))
  | .drained => inferInstanceAs (Decidable (_ ∧ _ ∧ ∀ w ∈ s.drain.handles, _ = _))

def next (s : ChannelStore) : ChannelAction → ChannelStore
  | .incomingCall k callerNumber serverHost =>
    s.setCall k ⟨.checkLimit, callerNumber, serverHost, .notAsked, 0, s.nextWrite⟩
  | .rejected k => s.goto k .over
  | .admitted k now => s.admitted k now
  | .store a => { s with callerStore := s.callerStore.next a }
  | .callerFailed k => s.goto k .setup
  | .select k => s.select k
  | .selectFailed k => s.setCall k { s.calls k with pc := .setup, answer := .error }
  | .established k channelId => s.setCall k { s.calls k with pc := .session, currentChannelId := channelId }
  | .setupEnded k => s.goto k .over
  | .navigate k channelId => s.setCall k { s.calls k with currentChannelId := channelId }
  | .disconnected k => s.disconnected k
  | .execute w => s.execute w
  | .failWrite w => { s with status := Function.update s.status w .failed }
  | .drain => { s with drain := .draining s.pendingWrites, pendingWrites := [] }
  | .drained => { s with drain := .drained }

end ChannelStore

/-- The process, from any database. -/
def channelStore : System ChannelStore ChannelAction where
  init s := callerStore.init s.callerStore ∧ (∀ k, (s.calls k).pc = .unhandled) ∧ s.nextWrite = 0 ∧
    (∀ w, s.status w = .unspawned) ∧ s.pendingWrites = [] ∧ s.drain = .running ∧
    ∀ key, s.lastWrite key = none
  enabled := ChannelStore.enabled
  next := ChannelStore.next

instance (s : ChannelStore) (a : ChannelAction) : Decidable (channelStore.enabled s a) :=
  inferInstanceAs (Decidable (s.enabled a))

end MumbleSip
