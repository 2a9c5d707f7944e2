import MumbleSip.Audio.Encoder
import MumbleSip.Lib.Transition

/-!
# The mixed decoder

The loop of `AudioBridge::spawn_mixed_decoder` in `bridge.rs`: a step for each tick, for each packet of a
speaker and for each sound received. The decoder is any function of its state and a packet, and a tick visits
the speakers in any order. What has been received and mixed is kept in histories that no step reads.
-/

namespace MumbleSip

open Transition

/-- `Decoder::decode`: the samples written to the buffer, unless it fails. -/
structure Opus (δ : Type) where
  decode : δ → Bytes → Option Pcm × δ

structure MixerConfig where
  sampleRate : Nat
  jitterFrames : Nat

namespace MixerConfig

variable (config : MixerConfig)

def frameSamples : Nat := config.sampleRate * frameDurationMs / 1000

/-- A packet lasts 120 ms at most. -/
def maxDecodeSamples : Nat := max (config.sampleRate * 120 / 1000) config.frameSamples

def maxPacketsPerSpeaker : Nat := max (config.jitterFrames * 2) 4

end MixerConfig

/-- `SPEAKER_IDLE_TIMEOUT`, in nanoseconds. -/
def speakerIdleTimeout : Nat := 5 * 10 ^ 9

/-- The decoder a speaker has been created with and the number of frames mixed before; the packets that have
arrived, and those taken from `pending_packets`, by the decoder or else evicted. -/
structure SpeakerHistory (δ : Type) where
  decoder : δ
  createdAt : Nat
  arrived : List Bytes
  taken : List (Bytes × Bool)

structure SpeakerState (δ : Type) where
  decoder : δ
  pendingPackets : List Bytes
  pendingPcm : Pcm
  lastPacketAt : Nat
  history : SpeakerHistory δ

/-- A frame pushed to the ring buffer, with the samples each speaker and the sounds have put into it. -/
structure MixedFrame where
  samples : Pcm
  speakers : List (UInt32 × Pcm)
  sound : Pcm
  deriving DecidableEq

structure Mixer (δ : Type) where
  speakers : FiniteMap UInt32 (SpeakerState δ)
  soundQueue : Pcm
  soundClosed : Bool
  stopped : Bool
  emitted : List MixedFrame
  sounds : List Pcm

inductive MixerAction (δ : Type)
  /-- The order in which the tick visits the speakers, and its clock. -/
  | tick (order : List UInt32) (now : Nat)
  /-- A packet, with what `Decoder::new` returns if the speaker is not known. -/
  | packet (sessionId : UInt32) (opusData : Bytes) (decoder : Option δ) (now : Nat)
  | packetsClosed
  | sound (pcm : Pcm)
  | soundsClosed

namespace SpeakerState

variable {δ : Type}

/-- The front packet has been taken. -/
def take (state : SpeakerState δ) (opusData : Bytes) (packets : List Bytes) (decoded : Bool) :
    SpeakerState δ :=
  { state with
    pendingPackets := packets
    history := { state.history with taken := state.history.taken ++ [(opusData, decoded)] } }

/-- The `while` loop of a tick, on the packets in `pending_packets`: decode until there are enough samples. A
packet that decodes to nothing is skipped; one that fails ends the loop. -/
def decodeLoop (opus : Opus δ) (frameSamples : Nat) : List Bytes → SpeakerState δ → SpeakerState δ
  | [], state => state
  | opusData :: packets, state =>
    if state.pendingPcm.length < frameSamples then
      match opus.decode state.decoder opusData with
      | (some decoded, decoder) => decodeLoop opus frameSamples packets
          { state.take opusData packets true with
            decoder := decoder
            pendingPcm := state.pendingPcm ++ decoded }
      | (none, decoder) => { state.take opusData packets true with decoder := decoder }
    else state

def fill (opus : Opus δ) (frameSamples : Nat) (state : SpeakerState δ) : SpeakerState δ :=
  decodeLoop opus frameSamples state.pendingPackets state

/-- The samples that go into the frame are popped. -/
def mix (frameSamples : Nat) (state : SpeakerState δ) : SpeakerState δ :=
  { state with pendingPcm := state.pendingPcm.drop frameSamples }

/-- Nothing to play, and no packet for a while. -/
def isStale (state : SpeakerState δ) (now : Nat) : Bool :=
  state.pendingPcm.isEmpty && state.pendingPackets.isEmpty &&
    decide (speakerIdleTimeout < now - state.lastPacketAt)

/-- The oldest packet of a full queue is evicted. -/
def evict (maxPackets : Nat) (state : SpeakerState δ) : SpeakerState δ :=
  if maxPackets ≤ state.pendingPackets.length then
    match state.pendingPackets with
    | opusData :: packets => state.take opusData packets false
    | [] => state
  else state

def receive (maxPackets : Nat) (state : SpeakerState δ) (opusData : Bytes) (now : Nat) : SpeakerState δ :=
  let state := state.evict maxPackets
  { state with
    pendingPackets := state.pendingPackets ++ [opusData]
    lastPacketAt := now
    history := { state.history with arrived := state.history.arrived ++ [opusData] } }

end SpeakerState

/-- `mix_accum[idx] += sample as i32` from position 0 on. -/
def addSamples : List Int32 → Pcm → List Int32
  | accum :: accums, sample :: samples => (accum + sample.toInt32) :: addSamples accums samples
  | accums, _ => accums

/-- `clamp(i16::MIN as i32, i16::MAX as i32) as i16`. -/
def clampSample (accum : Int32) : Int16 :=
  if accum < -32768 then -32768 else if 32767 < accum then 32767 else accum.toInt16

/-- The samples of a frame. -/
def mixFrame (frameSamples : Nat) (parts : List Pcm) : Pcm :=
  (parts.foldl addSamples (List.replicate frameSamples 0)).map clampSample

namespace Mixer

variable {δ : Type} (opus : Opus δ) (config : MixerConfig)

def start : Mixer δ := ⟨∅, [], false, false, [], []⟩

/-- The speakers after the `while` loop of a tick. -/
def filled (m : Mixer δ) : FiniteMap UInt32 (SpeakerState δ) :=
  m.speakers.mapValues fun _ state => state.fill opus config.frameSamples

/-- What the speakers put into the frame. -/
def parts (m : Mixer δ) (order : List UInt32) : List (UInt32 × Pcm) :=
  order.filterMap fun sessionId =>
    match (m.filled opus config).lookup sessionId with
    | some state =>
      if state.pendingPcm.isEmpty then none
      else some (sessionId, state.pendingPcm.take config.frameSamples)
    | none => none

def staleSpeakers (m : Mixer δ) (order : List UInt32) (now : Nat) : List UInt32 :=
  order.filter fun sessionId => ((m.filled opus config).lookup sessionId).any fun state => state.isStale now

/-- Without a speaker or a sound to play there is no frame. -/
def frame (m : Mixer δ) (order : List UInt32) : Option MixedFrame :=
  let parts := m.parts opus config order
  if parts.isEmpty && m.soundQueue.isEmpty then none
  else
    let sound := m.soundQueue.take config.frameSamples
    some ⟨mixFrame config.frameSamples (parts.map Prod.snd ++ [sound]), parts, sound⟩

def tick (m : Mixer δ) (order : List UInt32) (now : Nat) : Mixer δ :=
  { m with
    speakers := ((m.filled opus config).mapValues fun _ state => state.mix config.frameSamples).eraseAll
      (m.staleSpeakers opus config order now)
    soundQueue := m.soundQueue.drop config.frameSamples
    emitted := m.emitted ++ (m.frame opus config order).toList }

/-- A packet of a speaker that is not known creates it, unless there is no decoder for it. -/
def packet (m : Mixer δ) (sessionId : UInt32) (opusData : Bytes) (decoder : Option δ) (now : Nat) : Mixer δ :=
  match m.speakers.lookup sessionId with
  | some state =>
    { m with
      speakers := m.speakers.insert sessionId
        (state.receive config.maxPacketsPerSpeaker opusData now) }
  | none =>
    match decoder with
    | some decoder =>
      { m with
        speakers := m.speakers.insert sessionId
          (SpeakerState.receive config.maxPacketsPerSpeaker
            ⟨decoder, [], [], now, ⟨decoder, m.emitted.length, [], []⟩⟩ opusData now) }
    | none => m

def enabled (m : Mixer δ) : MixerAction δ → Prop
  | .tick order _ => m.stopped = false ∧ order.Perm m.speakers.keys
  | .packet _ _ _ _ | .packetsClosed => m.stopped = false
  | .sound _ | .soundsClosed => m.stopped = false ∧ m.soundClosed = false

instance (m : Mixer δ) : ∀ a : MixerAction δ, Decidable (m.enabled a)
  | .tick order _ => inferInstanceAs (Decidable (_ ∧ order.Perm m.speakers.keys))
  | .packet _ _ _ _ | .packetsClosed => inferInstanceAs (Decidable (_ = _))
  | .sound _ | .soundsClosed => inferInstanceAs (Decidable (_ ∧ _))

def next (m : Mixer δ) : MixerAction δ → Mixer δ
  | .tick order now => m.tick opus config order now
  | .packet sessionId opusData decoder now => m.packet config sessionId opusData decoder now
  | .packetsClosed => { m with stopped := true }
  | .sound pcm => { m with soundQueue := m.soundQueue ++ pcm, sounds := m.sounds ++ [pcm] }
  | .soundsClosed => { m with soundClosed := true }

end Mixer

def mixedDecoder {δ : Type} (opus : Opus δ) (config : MixerConfig) : System (Mixer δ) (MixerAction δ) where
  init m := m = .start
  enabled := Mixer.enabled
  next := Mixer.next opus config

instance {δ : Type} (opus : Opus δ) (config : MixerConfig) (m : Mixer δ) (a : MixerAction δ) :
    Decidable ((mixedDecoder opus config).enabled m a) :=
  inferInstanceAs (Decidable (m.enabled a))

end MumbleSip
