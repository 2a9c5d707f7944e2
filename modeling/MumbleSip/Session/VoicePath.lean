import MumbleSip.Audio.Encoder
import MumbleSip.Lib.Mpsc
import MumbleSip.Mumble.Control
import MumbleSip.Sip.MediaPort

/-!
# From the call to the Mumble server

What becomes of the audio of a caller: `port_put_frame` fills a ring buffer, the encoder reads frames from it and
offers packets to a queue, the voice forwarder passes them on to the outgoing channel of the Mumble client, and
the send loop of `control.rs` writes them to the connection, between its pings and the joins that the session
asks for. Each of these tasks goes at its own pace, each may be aborted, and the connection may fail.
-/

namespace MumbleSip

open Transition

/-- `opus::Encoder`: what it makes of a buffer depends on those it has encoded before. -/
structure OpusEncoder (ε : Type) where
  new : ε
  encode : ε → Pcm → Option Bytes × ε

/-- What the client sends: `Authenticate`, `UDPTunnel` with a `VoicePacket::Audio`, `UserState`, `Ping`. -/
inductive ServerboundPacket
  | authenticate (username : String) (password : Option String) (opus : Bool)
  | udpTunnel (target seqNum : Nat) (payload : Bytes) (endOfTransmission : Bool)
  | userState (channelId : ChannelId)
  | ping
  deriving DecidableEq

namespace ServerboundPacket

/-- The packet of `send_voice`. -/
def sendVoice (frame : OpusFrame) : ServerboundPacket :=
  .udpTunnel 0 frame.seqNum frame.opusData frame.endOfTransmission

/-- The packet of `join_channel`. -/
def joinChannel (channelId : ChannelId) : ServerboundPacket := .userState channelId

def voice : ServerboundPacket → Option OpusFrame
  | .udpTunnel _ seqNum payload endOfTransmission => some ⟨seqNum, payload, endOfTransmission⟩
  | _ => none

def joins : ServerboundPacket → Option ChannelId
  | .userState channelId => some channelId
  | _ => none

end ServerboundPacket

/-- What the client has sent when it is connected. -/
def connectPackets (username password : String) (targetChannelId : Option ChannelId) : List ServerboundPacket :=
  .authenticate username (if password.isEmpty then none else some password) true ::
    (targetChannelId.map ServerboundPacket.joinChannel).toList

structure VoiceConfig (ε : Type) where
  frameSamples : Nat
  aboveThreshold : Pcm → Bool
  opus : OpusEncoder ε
  queueCapacity : Nat
  username : String
  password : String
  targetChannelId : Option ChannelId

/-- The variables of the encoder task. -/
structure EncoderTask (ε : Type) where
  encoder : Encoder
  opus : ε

namespace VoiceConfig

variable {ε : Type} (config : VoiceConfig ε)

/-- The frame the encoder has read, for the gate and for `encode`. -/
def frame (task : EncoderTask ε) (pcm : Pcm) (trySend : SendResult) : Frame :=
  ⟨pcm, fun buffer => (config.opus.encode task.opus buffer).1, trySend⟩

def input (task : EncoderTask ε) (pcm : Pcm) (trySend : SendResult) : EncoderInput :=
  ⟨config.frameSamples, config.aboveThreshold, fun _ => config.frame task pcm trySend⟩

/-- What a turn of the loop offers to the queue. -/
def offered (task : EncoderTask ε) (pcm : Pcm) : Option OpusFrame :=
  ((config.input task pcm .ok).offer task.encoder (config.frame task pcm .ok)).map Prod.fst

/-- A turn of the loop, given the answer of the queue. -/
def turn (task : EncoderTask ε) (pcm : Pcm) (trySend : SendResult) : EncoderTask ε where
  encoder := (config.input task pcm trySend).turn task.encoder (config.frame task pcm trySend)
  opus :=
    let input := config.input task pcm trySend
    let state := (input.transmitState task.encoder (config.frame task pcm trySend)).1
    match input.frameToEncode pcm state with
    | some (buffer, _) => (config.opus.encode task.opus buffer).2
    | none => task.opus

def start : EncoderTask ε := ⟨.start, config.opus.new⟩

end VoiceConfig

structure VoicePath (ring : RingBuffer Int16) (ε : Type) where
  audio : AudioPath ring
  encoder : EncoderTask ε
  encoderAborted : Bool
  /-- Between the encoder and the forwarder; it is closed when the forwarder has ended. -/
  opusQueue : Mpsc OpusFrame
  /-- The outgoing channel; it is closed when the send loop has ended. -/
  outgoing : Mpsc ServerboundPacket
  /-- The packet that the send loop is writing. -/
  sending : Option ServerboundPacket
  wire : List ServerboundPacket

inductive VoiceAction (ring : RingBuffer Int16)
  | audio (a : PathAction ring)
  /-- A turn of the voice forwarder. -/
  | forward
  | joinChannel (channelId : ChannelId)
  /-- The two branches of the send loop, and the two ends of `sink.send`; what fails may have been written. -/
  | ping
  | recv
  | sent
  | sendFails (written : Bool)
  | abortEncoder
  | abortForwarder
  /-- The `MumbleClient` is dropped, which aborts the send loop. -/
  | dropClient (written : Bool)

/-- A step of the encoder task. -/
def PathAction.ofEncoder {ring : RingBuffer Int16} : PathAction ring → Bool
  | .encoderTick | .encoderReads => true
  | _ => false

namespace VoicePath

variable {ring : RingBuffer Int16} {ε : Type} (config : VoiceConfig ε)

def start (dropped underflow : UInt64) : VoicePath ring ε where
  audio := .start ring config.frameSamples dropped underflow
  encoder := config.start
  encoderAborted := false
  opusQueue := .channel (some config.queueCapacity)
  outgoing := .channel none
  sending := none
  wire := connectPackets config.username config.password config.targetChannelId

variable (s : VoicePath ring ε)

/-- The encoder has ended, and its end of the queue is dropped. -/
def encoderEnded : Bool := s.encoderAborted || s.encoder.encoder.closed

/-- `opus_tx.try_send` -/
def trySend : SendResult :=
  if s.opusQueue.closed then .closed else if s.opusQueue.isFull then .full else .ok

/-- The encoder reads a frame, and offers what it makes of it to the queue. -/
def encoderReads : VoicePath ring ε :=
  let audio := s.audio.next config.frameSamples .encoderReads
  { s with
    audio := audio
    encoder := config.turn s.encoder audio.pcmBuf s.trySend
    opusQueue :=
      match config.offered s.encoder audio.pcmBuf with
      | some frame => s.opusQueue.send frame
      | none => s.opusQueue }

/-- The forwarder passes a packet on. It ends if the send loop is gone, or there is nothing more to come. -/
def forward : VoicePath ring ε :=
  match s.opusQueue.queue with
  | [] => { s with opusQueue := s.opusQueue.close }
  | frame :: _ =>
    if s.outgoing.takes then
      { s with opusQueue := s.opusQueue.recv, outgoing := s.outgoing.send (.sendVoice frame) }
    else { s with opusQueue := s.opusQueue.recv.close }

/-- The send loop ends, and drops the receiver of the outgoing channel. -/
def endSendLoop (written : Bool) : VoicePath ring ε :=
  { s with
    outgoing := s.outgoing.close
    sending := none
    wire := if written then s.wire ++ s.sending.toList else s.wire }

def enabled : VoiceAction ring → Prop
  | .audio a => s.audio.enabled a ∧ (a.ofEncoder = true → s.encoderEnded = false)
  | .forward => s.opusQueue.closed = false ∧ (s.opusQueue.queue ≠ [] ∨ s.encoderEnded = true)
  | .ping => s.outgoing.closed = false ∧ s.sending = none
  | .recv => s.outgoing.closed = false ∧ s.sending = none ∧ s.outgoing.queue ≠ []
  | .sent | .sendFails _ => s.sending.isSome = true
  | .abortEncoder => s.audio.encoderReading = false
  | .joinChannel _ | .abortForwarder | .dropClient _ => True

instance : ∀ a : VoiceAction ring, Decidable (s.enabled a)
  | .audio _ | .forward | .ping | .recv => inferInstanceAs (Decidable (_ ∧ _))
  | .sent | .sendFails _ | .abortEncoder => inferInstanceAs (Decidable (_ = _))
  | .joinChannel _ | .abortForwarder | .dropClient _ => inferInstanceAs (Decidable True)

def next : VoiceAction ring → VoicePath ring ε
  | .audio .encoderReads => s.encoderReads config
  | .audio a => { s with audio := s.audio.next config.frameSamples a }
  | .forward => s.forward
  | .joinChannel channelId => { s with outgoing := s.outgoing.send (.joinChannel channelId) }
  | .ping => { s with sending := some .ping }
  | .recv => { s with outgoing := s.outgoing.recv, sending := s.outgoing.queue.head? }
  | .sent => { s with wire := s.wire ++ s.sending.toList, sending := none }
  | .sendFails written | .dropClient written => s.endSendLoop written
  | .abortEncoder => { s with encoderAborted := true }
  | .abortForwarder => { s with opusQueue := s.opusQueue.close }

end VoicePath

/-- The way out of a call. A task that has not been spawned yet takes no step. -/
def voicePath (ring : RingBuffer Int16) {ε : Type} (config : VoiceConfig ε) (dropped underflow : UInt64) :
    System (VoicePath ring ε) (VoiceAction ring) where
  init s := s = .start config dropped underflow
  enabled := VoicePath.enabled
  next := VoicePath.next config

instance (ring : RingBuffer Int16) {ε : Type} (config : VoiceConfig ε) (dropped underflow : UInt64)
    (s : VoicePath ring ε) (a : VoiceAction ring) :
    Decidable ((voicePath ring config dropped underflow).enabled s a) :=
  inferInstanceAs (Decidable (s.enabled a))

end MumbleSip
