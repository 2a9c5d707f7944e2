import MumbleSip.Audio.Cache
import MumbleSip.Lib.Transition
import MumbleSip.Lib.Watch
import Mathlib.Algebra.Group.Nat.Defs

/-!
# The TTS runtime

`PocketTtsRuntime` of `tts.rs` under any number of calls of `synthesize_phrase` and the background tasks they
spawn, a step for each lock acquisition and each await. The scrutinee of an `if let` keeps its temporaries, so
a caller that finds its key in `in_flight` at the first look holds that lock while it waits; `cache` and
`runtime_state` are never held across an await. What the network answers and what the clock reads is part of
the action.
-/

namespace MumbleSip

open Transition

/-- Five minutes, in nanoseconds. -/
def postFailureCooldown : Nat := 5 * 60 * 10 ^ 9

def postFailureRetryAttempts : Nat := 4

/-- The samples of a phrase, or the text of an error. -/
abbrev Synthesis := Except String Pcm

inductive InFlightSynthesisState
  | pending
  | ready (result : Synthesis)
  deriving DecidableEq

inductive RuntimeAvailability
  | healthy
  | recovering
  | cooldown (deadline : Nat)
  deriving DecidableEq

/-- Where a call of `synthesize_phrase` is; `borrow` and `changed` are `wait_for_in_flight_result`, on the
channel of a task. -/
inductive PhrasePc
  | uncalled
  | checkCache
  | checkInFlight
  | assertAvailable
  | launch
  | borrow (t : Nat)
  | changed (t : Nat) (seen : Nat)
  | hit (pcm : Pcm)
  | refused (error : String)
  | answered (t : Nat) (result : Synthesis)
  | cancelled
  deriving DecidableEq

structure PhraseCall where
  cacheKey : String
  pc : PhrasePc
  deriving DecidableEq

/-- Where a background task is in `run_background_synthesis`; `burst` counts the health checks made. -/
inductive SynthesisPc
  | unspawned
  | synthesize
  | insertCache
  | markHealthy
  | handleFailure
  | burst (attempt : Nat)
  | verdict (recovered : Bool)
  | send
  | remove
  | done
  deriving DecidableEq

structure SynthesisTask where
  cacheKey : String
  pc : SynthesisPc
  result : Option Synthesis
  channel : Watch InFlightSynthesisState
  deriving DecidableEq

structure PocketTtsRuntime where
  voice : String
  sampleRate : UInt32
  cache : CacheState
  /-- The task whose channel the stored receiver belongs to. -/
  inFlight : FiniteMap String Nat
  inFlightLock : Option Nat
  availability : RuntimeAvailability
  /-- The task that has last set `Recovering`. -/
  recoveringTask : Nat
  calls : Nat → PhraseCall
  nextCall : Nat
  tasks : Nat → SynthesisTask
  nextTask : Nat

inductive PhraseAction
  | checkCache
  | checkInFlight
  | assertAvailable (now : Nat)
  | launch
  | borrow
  | changed
  | cancel
  deriving DecidableEq

inductive SynthesisAction
  | synthesized (result : Synthesis)
  | insertCache
  | markHealthy
  | handleFailure (now : Nat)
  | healthCheck (ok : Bool)
  | verdict (now : Nat)
  | send
  | remove
  deriving DecidableEq

inductive TtsAction
  | synthesizePhrase (phrase : String)
  | call (i : Nat) (a : PhraseAction)
  | task (t : Nat) (a : SynthesisAction)
  deriving DecidableEq

namespace PhrasePc

/-- The channel a call waits on. -/
def waitsOn : PhrasePc → Option Nat
  | .borrow t | .changed t _ => some t
  | _ => none

def isBorrow : PhrasePc → Bool
  | .borrow _ => true
  | _ => false

/-- The pcs of an await, where a call can be cancelled. -/
def awaits : PhrasePc → Bool
  | .checkCache | .checkInFlight | .assertAvailable | .launch | .changed _ _ => true
  | _ => false

/-- Past the cache miss, and not past the second look at `in_flight`. -/
def missed : PhrasePc → Bool
  | .checkInFlight | .assertAvailable | .launch => true
  | _ => false

end PhrasePc

namespace SynthesisPc

/-- The task is synthesizing, or has not published its result yet. -/
def publishing : SynthesisPc → Bool
  | .unspawned | .remove | .done => false
  | _ => true

/-- The task has not removed its entry from `in_flight` yet. -/
def inFlight : SynthesisPc → Bool
  | .unspawned | .done => false
  | _ => true

def isBurst : SynthesisPc → Bool
  | .burst _ => true
  | _ => false

def isVerdict : SynthesisPc → Bool
  | .verdict _ => true
  | _ => false

/-- Between setting `Recovering` and writing the verdict. -/
def recovering (pc : SynthesisPc) : Bool := pc.isBurst || pc.isVerdict

end SynthesisPc

namespace PocketTtsRuntime

def new (voice : String) (sampleRate : UInt32) : PocketTtsRuntime where
  voice := voice
  sampleRate := sampleRate
  cache := .new
  inFlight := ∅
  inFlightLock := none
  availability := .healthy
  recoveringTask := 0
  calls := fun _ => ⟨"", .uncalled⟩
  nextCall := 0
  tasks := fun _ => ⟨"", .unspawned, none, .channel .pending⟩
  nextTask := 0

def cacheKey (r : PocketTtsRuntime) (phrase : String) : String :=
  r.voice ++ "|" ++ toString r.sampleRate ++ "|" ++ phrase

def setCall (r : PocketTtsRuntime) (i : Nat) (pc : PhrasePc) : PocketTtsRuntime :=
  { r with calls := Function.update r.calls i { r.calls i with pc := pc } }

def setTask (r : PocketTtsRuntime) (t : Nat) (task : SynthesisTask) : PocketTtsRuntime :=
  { r with tasks := Function.update r.tasks t task }

def goto (r : PocketTtsRuntime) (t : Nat) (pc : SynthesisPc) : PocketTtsRuntime :=
  r.setTask t { r.tasks t with pc := pc }

/-- A call that ends drops the guard it may hold. -/
def unlock (r : PocketTtsRuntime) (i : Nat) : PocketTtsRuntime :=
  { r with inFlightLock := if r.inFlightLock = some i then none else r.inFlightLock }

/-! ### `synthesize_phrase` -/

def synthesizePhrase (r : PocketTtsRuntime) (phrase : String) : PocketTtsRuntime :=
  { r with
    calls := Function.update r.calls r.nextCall ⟨r.cacheKey phrase, .checkCache⟩
    nextCall := r.nextCall + 1 }

def checkCache (r : PocketTtsRuntime) (i : Nat) : PocketTtsRuntime :=
  { r with cache := (r.cache.get (r.calls i).cacheKey).2 }.setCall i
    (match (r.cache.get (r.calls i).cacheKey).1 with
      | some pcm => .hit pcm
      | none => .checkInFlight)

def checkInFlight (r : PocketTtsRuntime) (i : Nat) : PocketTtsRuntime :=
  match r.inFlight.lookup (r.calls i).cacheKey with
  | some t => { r with inFlightLock := some i }.setCall i (.borrow t)
  | none => r.setCall i .assertAvailable

/-- `assert_runtime_available_for_new_synthesis`. -/
def assertAvailable (r : PocketTtsRuntime) (i now : Nat) : PocketTtsRuntime :=
  match r.availability with
  | .healthy => r.setCall i .launch
  | .recovering => r.setCall i (.refused "pocket-tts is recovering from a failure")
  | .cooldown deadline =>
    if deadline ≤ now then { r with availability := .healthy }.setCall i .launch
    else r.setCall i (.refused "pocket-tts cooldown is active after runtime failures")

/-- The second look at `in_flight`: without an entry, the call stores one and spawns the task. -/
def launch (r : PocketTtsRuntime) (i : Nat) : PocketTtsRuntime :=
  match r.inFlight.lookup (r.calls i).cacheKey with
  | some t => r.setCall i (.borrow t)
  | none =>
    { r with
      inFlight := r.inFlight.insert (r.calls i).cacheKey r.nextTask
      tasks := Function.update r.tasks r.nextTask
        ⟨(r.calls i).cacheKey, .synthesize, none, .channel .pending⟩
      nextTask := r.nextTask + 1 }.setCall i (.borrow r.nextTask)

/-- `clone_in_flight_result`: the call returns if the channel has a result. -/
def cloneResult (r : PocketTtsRuntime) (i t seen : Nat) : PocketTtsRuntime :=
  match (r.tasks t).channel.value with
  | .pending => r.setCall i (.changed t seen)
  | .ready result => (r.unlock i).setCall i (.answered t result)

def borrow (r : PocketTtsRuntime) (i : Nat) : PocketTtsRuntime :=
  match (r.calls i).pc with
  | .borrow t => r.cloneResult i t 0
  | _ => r

def changed (r : PocketTtsRuntime) (i : Nat) : PocketTtsRuntime :=
  match (r.calls i).pc with
  | .changed t seen =>
    match (r.tasks t).channel.changed seen with
    | some (.version version) => r.cloneResult i t version
    | some .closed => (r.unlock i).setCall i (.answered t (.error "background synthesis channel closed"))
    | none => r
  | _ => r

def stepCall (r : PocketTtsRuntime) (i : Nat) : PhraseAction → PocketTtsRuntime
  | .checkCache => r.checkCache i
  | .checkInFlight => r.checkInFlight i
  | .assertAvailable now => r.assertAvailable i now
  | .launch => r.launch i
  | .borrow => r.borrow i
  | .changed => r.changed i
  | .cancel => (r.unlock i).setCall i .cancelled

/-- Whether `changed` returns to the call. -/
def hasChanged (r : PocketTtsRuntime) : PhrasePc → Bool
  | .changed t seen => ((r.tasks t).channel.changed seen).isSome
  | _ => false

def enabledCall (r : PocketTtsRuntime) (i : Nat) : PhraseAction → Prop
  | .checkCache => (r.calls i).pc = .checkCache
  | .checkInFlight => (r.calls i).pc = .checkInFlight ∧ r.inFlightLock = none
  | .assertAvailable _ => (r.calls i).pc = .assertAvailable
  | .launch => (r.calls i).pc = .launch ∧ r.inFlightLock = none
  | .borrow => (r.calls i).pc.isBorrow = true
  | .changed => r.hasChanged (r.calls i).pc = true
  | .cancel => (r.calls i).pc.awaits = true

instance (r : PocketTtsRuntime) (i : Nat) : ∀ a : PhraseAction, Decidable (r.enabledCall i a)
  | .checkCache | .assertAvailable _ | .borrow | .changed | .cancel => inferInstanceAs (Decidable (_ = _))
  | .checkInFlight | .launch => inferInstanceAs (Decidable (_ ∧ _))

/-! ### `run_background_synthesis` -/

def synthesized (r : PocketTtsRuntime) (t : Nat) (result : Synthesis) : PocketTtsRuntime :=
  r.setTask t { r.tasks t with
    result := some result
    pc := if result.isOk then .insertCache else .handleFailure }

def insertCache (r : PocketTtsRuntime) (t : Nat) : PocketTtsRuntime :=
  match (r.tasks t).result with
  | some (.ok pcm) => { r with cache := r.cache.insert (r.tasks t).cacheKey pcm }.goto t .markHealthy
  | _ => r

/-- `mark_runtime_healthy`. -/
def markHealthy (r : PocketTtsRuntime) (t : Nat) : PocketTtsRuntime :=
  { r with availability := .healthy }.goto t .send

/-- The runtime is set to recover, and the retry burst starts. -/
def startRecovery (r : PocketTtsRuntime) (t : Nat) : PocketTtsRuntime :=
  { r with availability := .recovering, recoveringTask := t }.goto t (.burst 0)

/-- `handle_runtime_failure` up to the burst. -/
def handleFailure (r : PocketTtsRuntime) (t now : Nat) : PocketTtsRuntime :=
  match r.availability with
  | .healthy => r.startRecovery t
  | .recovering => r.goto t .send
  | .cooldown deadline => if deadline ≤ now then r.startRecovery t else r.goto t .send

/-- One attempt of `run_post_failure_retry_burst`. -/
def healthCheck (r : PocketTtsRuntime) (t : Nat) (ok : Bool) : PocketTtsRuntime :=
  match (r.tasks t).pc with
  | .burst attempt =>
    if ok then r.goto t (.verdict true)
    else if attempt + 1 < postFailureRetryAttempts then r.goto t (.burst (attempt + 1))
    else r.goto t (.verdict false)
  | _ => r

/-- The end of `handle_runtime_failure`. -/
def verdict (r : PocketTtsRuntime) (t now : Nat) : PocketTtsRuntime :=
  match (r.tasks t).pc with
  | .verdict recovered =>
    { r with
      availability := if recovered then .healthy else .cooldown (now + postFailureCooldown) }.goto t .send
  | _ => r

def send (r : PocketTtsRuntime) (t : Nat) : PocketTtsRuntime :=
  match (r.tasks t).result with
  | some result =>
    r.setTask t { r.tasks t with
      channel := (r.tasks t).channel.send (.ready result)
      pc := .remove }
  | none => r

/-- The entry is removed, and the task ends and drops its sender. -/
def remove (r : PocketTtsRuntime) (t : Nat) : PocketTtsRuntime :=
  { r with inFlight := r.inFlight.erase (r.tasks t).cacheKey }.setTask t
    { r.tasks t with pc := .done, channel := (r.tasks t).channel.close }

def stepTask (r : PocketTtsRuntime) (t : Nat) : SynthesisAction → PocketTtsRuntime
  | .synthesized result => r.synthesized t result
  | .insertCache => r.insertCache t
  | .markHealthy => r.markHealthy t
  | .handleFailure now => r.handleFailure t now
  | .healthCheck ok => r.healthCheck t ok
  | .verdict now => r.verdict t now
  | .send => r.send t
  | .remove => r.remove t

def enabledTask (r : PocketTtsRuntime) (t : Nat) : SynthesisAction → Prop
  | .synthesized _ => (r.tasks t).pc = .synthesize
  | .insertCache => (r.tasks t).pc = .insertCache
  | .markHealthy => (r.tasks t).pc = .markHealthy
  | .handleFailure _ => (r.tasks t).pc = .handleFailure
  | .healthCheck _ => (r.tasks t).pc.isBurst = true
  | .verdict _ => (r.tasks t).pc.isVerdict = true
  | .send => (r.tasks t).pc = .send
  | .remove => (r.tasks t).pc = .remove ∧ r.inFlightLock = none

instance (r : PocketTtsRuntime) (t : Nat) : ∀ a : SynthesisAction, Decidable (r.enabledTask t a)
  | .synthesized _ | .insertCache | .markHealthy | .handleFailure _ | .healthCheck _ | .verdict _
  | .send => inferInstanceAs (Decidable (_ = _))
  | .remove => inferInstanceAs (Decidable (_ ∧ _))

def enabled (r : PocketTtsRuntime) : TtsAction → Prop
  | .synthesizePhrase _ => True
  | .call i a => r.enabledCall i a
  | .task t a => r.enabledTask t a

instance (r : PocketTtsRuntime) : ∀ a : TtsAction, Decidable (r.enabled a)
  | .synthesizePhrase _ => inferInstanceAs (Decidable True)
  | .call i a => inferInstanceAs (Decidable (r.enabledCall i a))
  | .task t a => inferInstanceAs (Decidable (r.enabledTask t a))

def next (r : PocketTtsRuntime) : TtsAction → PocketTtsRuntime
  | .synthesizePhrase phrase => r.synthesizePhrase phrase
  | .call i a => r.stepCall i a
  | .task t a => r.stepTask t a

end PocketTtsRuntime

/-- A runtime that has just been created, for any voice and sample rate. -/
def ttsRuntime : System PocketTtsRuntime TtsAction where
  init r := ∃ voice sampleRate, r = .new voice sampleRate
  enabled := PocketTtsRuntime.enabled
  next := PocketTtsRuntime.next

instance (r : PocketTtsRuntime) (a : TtsAction) : Decidable (ttsRuntime.enabled r a) :=
  inferInstanceAs (Decidable (r.enabled a))

end MumbleSip
