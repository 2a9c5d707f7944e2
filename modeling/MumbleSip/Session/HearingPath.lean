import MumbleSip.Audio.Mixer
import MumbleSip.Lib.Mpsc
import MumbleSip.Session.EventHandler
import MumbleSip.Sip.MediaPort

/-!
# From the Mumble server to the call

What a caller hears: the receive loop of `control.rs` makes events of the packets of the server, the event
handler of the session passes the audio on to the mixed decoder and sends it chimes, other tasks send it sounds,
and the decoder pushes a frame at each tick into the ring buffer that `port_get_frame` reads. Each of them goes
at its own pace, and each may be aborted.
-/

namespace MumbleSip

open Transition

/-- The audio of an event. -/
def MumbleEvent.audio : MumbleEvent → Option (SessionId × Bytes)
  | .audioReceived sessionId opusData _ => some (sessionId, opusData)
  | _ => none

/-- What a session has when its tasks are spawned. -/
structure HearingConfig where
  client : MumbleClient
  /-- The names that the handshake has left to the receive loop. -/
  userNames : UserNames
  initialChannelId : ChannelId
  ttsEnabled : Bool
  queueCapacity : Nat
  /-- `sounds::get_sound` -/
  getSound : SoundEvent → Pcm
  mixer : MixerConfig

structure HearingPath (ring : RingBuffer Int16) (δ : Type) where
  /-- The packets read since `ServerSync`, and whether the receive loop is running. -/
  packets : List Packet
  receiving : Bool
  userNames : UserNames
  /-- The events of the client; closed when the event handler has ended. -/
  events : Mpsc MumbleEvent
  handler : EventHandler
  watch : Watch
  droppedDecoderFrames : Nat
  /-- What the handler has sent to the workers for announcements and text messages. -/
  toWorkers : List Output
  /-- Between the handler and the mixed decoder, and from everyone to it. -/
  opusQueue : Mpsc (SessionId × Bytes)
  sounds : Mpsc Pcm
  mixer : Mixer δ
  audio : AudioPath ring

inductive HearingAction (ring : RingBuffer Int16) (δ : Type)
  | receive (packet : Packet)
  /-- The stream ends, or fails. -/
  | streamEnds
  /-- A turn of the event handler; `text` is how the send to the text worker ends. -/
  | handle (text : Bool)
  /-- `on_dtmf_digit` tells the handler of a channel. -/
  | navigate (channelId : ChannelId)
  | sendSound (pcm : Pcm)
  /-- The branches of the mixed decoder. -/
  | mixTick (order : List UInt32) (now : Nat)
  | mixPacket (decoder : Option δ) (now : Nat)
  | mixSound
  | packetsClosed
  | soundsClosed
  | audio (a : PathAction ring)
  | abortHandler
  | abortDecoder

/-- The mixed decoder pushes nothing but its frames. -/
def PathAction.ofDecoder {ring : RingBuffer Int16} : PathAction ring → Bool
  | .decoderPushes _ => true
  | _ => false

namespace HearingPath

variable {ring : RingBuffer Int16} {δ : Type} (opus : Opus δ) (config : HearingConfig)

def start (dropped underflow : UInt64) : HearingPath ring δ where
  packets := []
  receiving := true
  userNames := config.userNames
  events := .channel none
  handler :=
    { ourSessionId := config.client.sessionId
      ttsEnabled := config.ttsEnabled
      userChannels := ∅
      channelNames := config.client.channelNames
      ourChannelId := config.initialChannelId
      running := true }
  watch := ⟨config.initialChannelId, false⟩
  droppedDecoderFrames := 0
  toWorkers := []
  opusQueue := .channel (some config.queueCapacity)
  sounds := .channel none
  mixer := .start
  audio := .start ring config.mixer.frameSamples dropped underflow

variable (s : HearingPath ring δ)

/-- A turn of the receive loop. -/
def receive (packet : Packet) : HearingPath ring δ :=
  let (event, userNames) := handlePacket packet s.userNames
  { s with
    packets := s.packets ++ [packet]
    userNames := userNames
    events :=
      match event with
      | some event => s.events.send event
      | none => s.events }

/-- `opus_tx.try_send` -/
def trySend : TrySend :=
  if s.opusQueue.closed then .closed else if s.opusQueue.isFull then .full else .ok

/-- What the handler sends gets to its receivers. -/
def deliver (s : HearingPath ring δ) : Output → HearingPath ring δ
  | .opus sessionId opusData => { s with opusQueue := s.opusQueue.send (sessionId, opusData) }
  | .sound event => { s with sounds := s.sounds.send (config.getSound event) }
  | output => { s with toWorkers := s.toWorkers ++ [output] }

/-- The handler ends, and with it the client and the receive loop. -/
def endHandler : HearingPath ring δ := { s with events := s.events.close, receiving := false }

/-- A turn of the event handler. -/
def handle (text : Bool) : HearingPath ring δ :=
  match s.events.queue with
  | [] => s
  | event :: _ =>
    let (handler, watch) := s.handler.checkWatch s.watch
    let (handler, outputs) := handler.handleEvent event s.trySend text
    let dropped := event.audio.isSome && s.trySend == .full
    let s := outputs.foldl (deliver config) { s with
      events := s.events.recv
      handler := handler
      watch := watch
      droppedDecoderFrames := if dropped then s.droppedDecoderFrames + 1 else s.droppedDecoderFrames }
    if handler.running then s else s.endHandler

/-- The mixed decoder ends, and its channels are closed. -/
def endDecoder : HearingPath ring δ :=
  { s with mixer := { s.mixer with stopped := true }, opusQueue := s.opusQueue.close, sounds := s.sounds.close }

/-- A tick of the mixed decoder, which pushes the frame if there is one. -/
def mixTick (order : List UInt32) (now : Nat) : HearingPath ring δ :=
  { s with
    mixer := s.mixer.next opus config.mixer (.tick order now)
    audio := (s.mixer.frame opus config.mixer order).elim s.audio fun frame =>
      s.audio.next config.mixer.frameSamples (.decoderPushes frame.samples) }

def mixPacket (decoder : Option δ) (now : Nat) : HearingPath ring δ :=
  match s.opusQueue.queue with
  | [] => s
  | (sessionId, opusData) :: _ =>
    { s with
      opusQueue := s.opusQueue.recv
      mixer := s.mixer.next opus config.mixer (.packet sessionId opusData decoder now) }

def mixSound : HearingPath ring δ :=
  match s.sounds.queue with
  | [] => s
  | pcm :: _ => { s with sounds := s.sounds.recv, mixer := s.mixer.next opus config.mixer (.sound pcm) }

def enabled : HearingAction ring δ → Prop
  | .receive _ | .streamEnds => s.receiving = true
  | .handle _ => s.events.closed = false ∧ s.events.queue ≠ []
  | .mixTick order now => s.mixer.enabled (.tick order now)
  | .mixPacket _ _ => s.mixer.stopped = false ∧ s.opusQueue.queue ≠ []
  | .mixSound => s.mixer.enabled .soundsClosed ∧ s.sounds.queue ≠ []
  | .packetsClosed => s.mixer.stopped = false ∧ s.opusQueue.queue = [] ∧ s.events.closed = true
  | .soundsClosed => s.mixer.enabled .soundsClosed ∧ s.sounds.queue = []
  | .audio a => s.audio.enabled a ∧ a.ofDecoder = false
  | .navigate _ | .sendSound _ | .abortHandler | .abortDecoder => True

instance : ∀ a : HearingAction ring δ, Decidable (s.enabled a)
  | .receive _ | .streamEnds => inferInstanceAs (Decidable (_ = _))
  | .handle _ => inferInstanceAs (Decidable (_ ∧ _))
  | .mixTick order now => inferInstanceAs (Decidable (s.mixer.enabled (.tick order now)))
  | .mixPacket _ _ => inferInstanceAs (Decidable (_ ∧ _))
  | .mixSound | .soundsClosed => inferInstanceAs (Decidable (s.mixer.enabled .soundsClosed ∧ _))
  | .packetsClosed => inferInstanceAs (Decidable (_ ∧ _ ∧ _))
  | .audio _ => inferInstanceAs (Decidable (_ ∧ _))
  | .navigate _ | .sendSound _ | .abortHandler | .abortDecoder => inferInstanceAs (Decidable True)

def next : HearingAction ring δ → HearingPath ring δ
  | .receive packet => s.receive packet
  | .streamEnds => { s with receiving := false, events := s.events.send .disconnected }
  | .handle text => s.handle config text
  | .navigate channelId => { s with watch := s.watch.send channelId }
  | .sendSound pcm => { s with sounds := s.sounds.send pcm }
  | .mixTick order now => s.mixTick opus config order now
  | .mixPacket decoder now => s.mixPacket opus config decoder now
  | .mixSound => s.mixSound opus config
  | .packetsClosed | .abortDecoder => s.endDecoder
  | .soundsClosed =>
    { s with mixer := s.mixer.next opus config.mixer .soundsClosed, sounds := s.sounds.close }
  | .audio a => { s with audio := s.audio.next config.mixer.frameSamples a }
  | .abortHandler => s.endHandler

end HearingPath

/-- The way into a call. A task that has not been spawned yet takes no step. -/
def hearingPath (ring : RingBuffer Int16) {δ : Type} (opus : Opus δ) (config : HearingConfig)
    (dropped underflow : UInt64) : System (HearingPath ring δ) (HearingAction ring δ) where
  init s := s = .start config dropped underflow
  enabled := HearingPath.enabled
  next := HearingPath.next opus config

instance (ring : RingBuffer Int16) {δ : Type} (opus : Opus δ) (config : HearingConfig)
    (dropped underflow : UInt64) (s : HearingPath ring δ) (a : HearingAction ring δ) :
    Decidable ((hearingPath ring opus config dropped underflow).enabled s a) :=
  inferInstanceAs (Decidable (s.enabled a))

end MumbleSip
