import MumbleSip.Audio.Cache
import MumbleSip.Lib.RingBuffer
import MumbleSip.Lib.Transition

/-!
# The media port

The audio of a call between pjsip and the bridge, over the two ring buffers of `media_port.rs`: `port_put_frame`
and the encoder at one of them, the mixed decoder and `port_get_frame` at the other. Each of the four runs in its
own thread; what one of them sees of another's progress is a step of its own, and so is `track_samples`. The two
counters are shared with the ports of other calls. The ring buffers are any that keep to what `RingBuffer` asks
for. The port has its user data until it is destroyed.
-/

namespace MumbleSip

open Transition

inductive FrameType
  | none
  | audio
  | extended
  | video
  deriving DecidableEq

/-- `pjmedia_frame`: the samples at `buf`, unless it is null. -/
structure PjFrame where
  type : FrameType
  buf : Option Pcm
  deriving DecidableEq

/-- `frame.size`, in bytes. -/
def PjFrame.size (frame : PjFrame) : Nat := 2 * (frame.buf.getD []).length

/-- What `port_get_frame` makes of a buffer and of what has been popped into it, and the samples to track. -/
def fillFrame (buf popped : Pcm) : PjFrame × Nat :=
  let samplesCount := buf.length
  let read := popped.length
  let buf := popped ++ buf.drop read
  if read = 0 then (⟨.none, some (List.replicate buf.length 0)⟩, samplesCount)
  else if read < samplesCount then
    (⟨.audio, some (buf.take read ++ List.replicate (samplesCount - read) 0)⟩, samplesCount - read)
  else (⟨.audio, some buf⟩, 0)

/-- `track_samples` -/
def trackSamples (counter delta : UInt64) : UInt64 := if delta = 0 then counter else counter + delta

/-- What the encoder has popped, the buffer it goes on with, and whether that was filled up with zeros. -/
structure EncoderRead where
  popped : Pcm
  pcmBuf : Pcm
  zeroFilled : Bool

/-- A frame before and after `port_get_frame`, and what has been popped for it. -/
structure GotFrame where
  before : PjFrame
  after : PjFrame
  supplied : Pcm

/-- The samples asked for and not supplied. -/
def GotFrame.missing (got : GotFrame) : Nat := (got.before.buf.getD []).length - got.supplied.length

/-- The whole buffer is what was supplied, and then zeros. -/
def GotFrame.Filled (got : GotFrame) : Prop :=
  got.supplied.length ≤ (got.before.buf.getD []).length ∧
    got.after.buf = got.before.buf.map fun _ => got.supplied ++ List.replicate got.missing 0

/-- The threads between the two ring buffers. A delta is what `track_samples` is still to add for the frame at
hand; the lists keep what each thread has done, and the last two numbers what other calls have added. -/
structure AudioPath (ring : RingBuffer Int16) where
  sipToMumble : ring.State
  mumbleToSip : ring.State
  sipToMumbleDropped : UInt64
  mumbleToSipUnderflow : UInt64
  putDelta : UInt64
  getDelta : UInt64
  /-- The encoder has seen a full frame and not read it yet. -/
  encoderReading : Bool
  pcmBuf : Pcm
  /-- `dropped_samples` of the mixed decoder. -/
  droppedSamples : UInt64
  puts : List (RingBuffer.Pushed Int16)
  reads : List EncoderRead
  pushes : List (RingBuffer.Pushed Int16)
  gets : List GotFrame
  otherDropped : UInt64
  otherUnderflow : UInt64

inductive PathAction (ring : RingBuffer Int16)
  /-- A thread sees what the one at the other end of the ring buffer has done. -/
  | sipToMumbleSees (view : ring.View)
  | mumbleToSipSees (view : ring.View)
  | putFrame (frame : PjFrame)
  | putFrameTracks
  /-- `pcm_consumer.occupied_len() < frame_samples` -/
  | encoderTick
  /-- `pcm_consumer.pop_slice(&mut pcm_buf)` -/
  | encoderReads
  | decoderPushes (mixedFrame : Pcm)
  | getFrame (frame : PjFrame)
  | getFrameTracks
  | otherCalls (dropped underflow : UInt64)

namespace AudioPath

variable {ring : RingBuffer Int16}

def start (ring : RingBuffer Int16) (frameSamples : Nat) (dropped underflow : UInt64) : AudioPath ring where
  sipToMumble := ring.empty
  mumbleToSip := ring.empty
  sipToMumbleDropped := dropped
  mumbleToSipUnderflow := underflow
  putDelta := 0
  getDelta := 0
  encoderReading := false
  pcmBuf := List.replicate frameSamples 0
  droppedSamples := 0
  puts := []
  reads := []
  pushes := []
  gets := []
  otherDropped := 0
  otherUnderflow := 0

/-- `port_put_frame`, up to `track_samples` -/
def portPutFrame (s : AudioPath ring) (frame : PjFrame) : AudioPath ring :=
  if frame.type ≠ .audio then s
  else
    match frame.buf with
    | none => s
    | some buf =>
      if frame.size = 0 then s
      else
        let samplesCount := frame.size / 2
        let samples := buf.take samplesCount
        let written := ring.written s.sipToMumble samples
        { s with
          sipToMumble := ring.push s.sipToMumble samples
          putDelta := if written < samplesCount then .ofNat (samplesCount - written) else 0
          puts := s.puts ++ [ring.pushed s.sipToMumble samples] }

/-- `port_get_frame`, up to `track_samples` -/
def portGetFrame (s : AudioPath ring) (frame : PjFrame) : AudioPath ring :=
  match frame.buf with
  | none => { s with gets := s.gets ++ [⟨frame, { frame with type := .none }, []⟩] }
  | some buf =>
    if frame.size = 0 then { s with gets := s.gets ++ [⟨frame, { frame with type := .none }, []⟩] }
    else
      let samplesCount := frame.size / 2
      let popped := ring.popped s.mumbleToSip samplesCount
      let (after, missing) := fillFrame (buf.take samplesCount) popped
      { s with
        mumbleToSip := ring.pop s.mumbleToSip samplesCount
        getDelta := .ofNat missing
        gets := s.gets ++ [⟨frame, after, popped⟩] }

/-- A turn of the encoder that has found a full frame. -/
def encoderReads (frameSamples : Nat) (s : AudioPath ring) : AudioPath ring :=
  let popped := ring.popped s.sipToMumble frameSamples
  let read := popped.length
  let pcmBuf := popped ++ s.pcmBuf.drop read
  let pcmBuf' :=
    if read < frameSamples then pcmBuf.take read ++ List.replicate (pcmBuf.length - read) 0 else pcmBuf
  { s with
    sipToMumble := ring.pop s.sipToMumble frameSamples
    encoderReading := false
    pcmBuf := pcmBuf'
    reads := s.reads ++ [⟨popped, pcmBuf', decide (read < frameSamples)⟩] }

/-- The mixed decoder pushes a frame. -/
def decoderPushes (s : AudioPath ring) (mixedFrame : Pcm) : AudioPath ring :=
  let written := ring.written s.mumbleToSip mixedFrame
  { s with
    mumbleToSip := ring.push s.mumbleToSip mixedFrame
    droppedSamples :=
      if written < mixedFrame.length then s.droppedSamples + .ofNat (mixedFrame.length - written)
      else s.droppedSamples
    pushes := s.pushes ++ [ring.pushed s.mumbleToSip mixedFrame] }

/-- A thread of pjsip returns from a frame before it gets to the next one. -/
def enabled (s : AudioPath ring) : PathAction ring → Prop
  | .putFrame _ => s.putDelta = 0
  | .putFrameTracks => s.putDelta ≠ 0
  | .encoderTick => s.encoderReading = false
  | .encoderReads => s.encoderReading = true
  | .getFrame _ => s.getDelta = 0
  | .getFrameTracks => s.getDelta ≠ 0
  | _ => True

instance (s : AudioPath ring) : ∀ a : PathAction ring, Decidable (s.enabled a)
  | .putFrame _ | .getFrame _ => inferInstanceAs (Decidable (_ = _))
  | .putFrameTracks | .getFrameTracks => inferInstanceAs (Decidable (_ ≠ _))
  | .encoderTick | .encoderReads => inferInstanceAs (Decidable (_ = _))
  | .sipToMumbleSees _ | .mumbleToSipSees _ | .decoderPushes _ | .otherCalls _ _ =>
    inferInstanceAs (Decidable True)

def next (frameSamples : Nat) (s : AudioPath ring) : PathAction ring → AudioPath ring
  | .sipToMumbleSees view => { s with sipToMumble := ring.see s.sipToMumble view }
  | .mumbleToSipSees view => { s with mumbleToSip := ring.see s.mumbleToSip view }
  | .putFrame frame => s.portPutFrame frame
  | .putFrameTracks =>
    { s with sipToMumbleDropped := trackSamples s.sipToMumbleDropped s.putDelta, putDelta := 0 }
  | .encoderTick => { s with encoderReading := decide (frameSamples ≤ ring.occupiedLen s.sipToMumble) }
  | .encoderReads => s.encoderReads frameSamples
  | .decoderPushes mixedFrame => s.decoderPushes mixedFrame
  | .getFrame frame => s.portGetFrame frame
  | .getFrameTracks =>
    { s with mumbleToSipUnderflow := trackSamples s.mumbleToSipUnderflow s.getDelta, getDelta := 0 }
  | .otherCalls dropped underflow =>
    { s with
      sipToMumbleDropped := trackSamples s.sipToMumbleDropped dropped
      mumbleToSipUnderflow := trackSamples s.mumbleToSipUnderflow underflow
      otherDropped := s.otherDropped + dropped
      otherUnderflow := s.otherUnderflow + underflow }

end AudioPath

/-- The audio path of a call, with the counters as they are when it is set up. -/
def audioPath (ring : RingBuffer Int16) (frameSamples : Nat) (dropped underflow : UInt64) :
    System (AudioPath ring) (PathAction ring) where
  init s := s = .start ring frameSamples dropped underflow
  enabled := AudioPath.enabled
  next := AudioPath.next frameSamples

instance (ring : RingBuffer Int16) (frameSamples : Nat) (dropped underflow : UInt64) (s : AudioPath ring)
    (a : PathAction ring) : Decidable ((audioPath ring frameSamples dropped underflow).enabled s a) :=
  inferInstanceAs (Decidable (s.enabled a))

end MumbleSip
