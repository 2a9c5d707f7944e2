import MumbleSip.Lib.Progress
import MumbleSip.Session.VoicePath
import MumbleSip.Sip.SampleFlow

/-!
# What a caller says gets to the server in order

Without the tasks and the queues the packets are a function of the frames: each frame goes through the gate and
the encoder, and the packets are numbered as they come. What the tasks write to the connection is a part of that,
in order and each packet once, and what the queue has accepted gets there as long as the connection lasts.
-/

namespace MumbleSip

open Transition

namespace VoiceConfig

variable {ε : Type} (config : VoiceConfig ε)

/-- What the client has sent before the tasks are spawned. -/
def greeting : List ServerboundPacket := connectPackets config.username config.password config.targetChannelId

/-- The encoder over a list of frames, with a queue that takes everything. -/
def after : List Pcm → EncoderTask ε → EncoderTask ε
  | [], task => task
  | pcm :: frames, task => after frames (config.turn task pcm .ok)

/-- The packets of a list of frames. -/
def voice : List Pcm → EncoderTask ε → List OpusFrame
  | [], _ => []
  | pcm :: frames, task => (config.offered task pcm).toList ++ voice frames (config.turn task pcm .ok)

variable {config} {task : EncoderTask ε} {pcm : Pcm} {frames : List Pcm} {result : SendResult}

theorem after_append (frames frames' : List Pcm) (task : EncoderTask ε) :
    config.after (frames ++ frames') task = config.after frames' (config.after frames task) := by
  induction frames generalizing task with
  | nil => rfl
  | cons pcm frames ih => exact ih _

theorem voice_append (frames frames' : List Pcm) (task : EncoderTask ε) :
    config.voice (frames ++ frames') task
      = config.voice frames task ++ config.voice frames' (config.after frames task) := by
  induction frames generalizing task with
  | nil => rfl
  | cons pcm frames ih => rw [List.cons_append, voice, ih, voice, after, List.append_assoc]

theorem seqNum_offered {frame : OpusFrame} (h : config.offered task pcm = some frame) :
    frame.seqNum = task.encoder.seqNum := by
  obtain ⟨sent, hoffer, rfl⟩ := Option.map_eq_some_iff.1 h
  unfold EncoderInput.offer at hoffer
  split at hoffer
  · cases hoffer
  · obtain ⟨opusData, _, rfl⟩ := Option.map_eq_some_iff.1 hoffer
    rfl

/-- The tasks differ at most in whether the loop has ended. -/
structure Agrees (task task' : EncoderTask ε) : Prop where
  gate : task.encoder.gate = task'.encoder.gate
  seqNum : task.encoder.seqNum = task'.encoder.seqNum
  opus : task.opus = task'.opus

theorem Agrees.rfl : Agrees task task := ⟨Eq.refl _, Eq.refl _, Eq.refl _⟩

theorem offer_eq (task : EncoderTask ε) (pcm : Pcm) (result : SendResult) :
    (config.input task pcm result).offer task.encoder (config.frame task pcm result)
      = (config.offered task pcm).map fun frame => (frame, result) := by
  have hstate : (config.input task pcm result).transmitState task.encoder (config.frame task pcm result)
      = (config.input task pcm .ok).transmitState task.encoder (config.frame task pcm .ok) := rfl
  rw [offered, EncoderInput.offer, EncoderInput.offer, hstate]
  cases (config.input task pcm .ok).transmitState task.encoder (config.frame task pcm .ok) with
  | mk state gate =>
    cases state with
    | silent => rfl
    | transmitting | terminator =>
      simp only [EncoderInput.frameToEncode, frame, input, Option.map_map, Function.comp_def]

theorem seqNum_turn (task : EncoderTask ε) (pcm : Pcm) (result : SendResult) :
    (config.turn task pcm result).encoder.seqNum
      = task.encoder.seqNum + (config.offered task pcm).toList.length := by
  show (if ((config.input task pcm result).offer task.encoder (config.frame task pcm result)).isSome
    then task.encoder.seqNum + 1 else task.encoder.seqNum) = _
  rw [offer_eq]
  cases config.offered task pcm <;> rfl

theorem Agrees.offered {task' : EncoderTask ε} (h : Agrees task task') :
    config.offered task pcm = config.offered task' pcm := by
  simp only [VoiceConfig.offered, EncoderInput.offer, EncoderInput.transmitState, EncoderInput.frameToEncode,
    VoiceConfig.frame, VoiceConfig.input, h.gate, h.seqNum, h.opus]

theorem Agrees.turn {task' : EncoderTask ε} (h : Agrees task task') :
    Agrees (config.turn task pcm result) (config.turn task' pcm .ok) := by
  refine ⟨?_, ?_, ?_⟩
  · simp only [VoiceConfig.turn, EncoderInput.turn, EncoderInput.transmitState, VoiceConfig.input,
      VoiceConfig.frame, h.gate]
  · rw [seqNum_turn, seqNum_turn, h.seqNum, h.offered]
  · simp only [VoiceConfig.turn, EncoderInput.transmitState, EncoderInput.frameToEncode, VoiceConfig.input,
      VoiceConfig.frame, h.gate, h.opus]

theorem seqNum_voice {k : Nat} {frame : OpusFrame} (h : (config.voice frames task)[k]? = some frame) :
    frame.seqNum = task.encoder.seqNum + k := by
  induction frames generalizing task k with
  | nil => cases h
  | cons pcm frames ih =>
    rw [voice] at h
    have hturn := config.seqNum_turn task pcm .ok
    cases hoffered : config.offered task pcm with
    | none =>
      rw [hoffered] at h hturn
      rw [ih h, hturn]
      rfl
    | some first =>
      rw [hoffered] at h hturn
      cases k with
      | zero =>
        cases h
        exact seqNum_offered hoffered
      | succ k =>
        rw [ih h, hturn]
        show task.encoder.seqNum + 1 + k = _
        omega

theorem pairwise_voice (frames : List Pcm) (task : EncoderTask ε) :
    (config.voice frames task).Pairwise fun frame frame' => frame.seqNum < frame'.seqNum := by
  rw [List.pairwise_iff_getElem]
  intro i j hi hj hlt
  rw [seqNum_voice (List.getElem?_eq_getElem hi), seqNum_voice (List.getElem?_eq_getElem hj)]
  omega

/-- The number of a packet is its place among the packets. -/
theorem getElem?_voice {frame : OpusFrame} (h : frame ∈ config.voice frames config.start) :
    (config.voice frames config.start)[frame.seqNum]? = some frame := by
  obtain ⟨k, hk, rfl⟩ := List.getElem_of_mem h
  rw [seqNum_voice (List.getElem?_eq_getElem hk)]
  show (config.voice frames config.start)[0 + k]? = _
  rw [Nat.zero_add, List.getElem?_eq_getElem hk]

end VoiceConfig

/-- The packets but for the pings. -/
def withoutPings (packets : List ServerboundPacket) : List ServerboundPacket :=
  packets.filter fun packet => packet != .ping

def voices (packets : List ServerboundPacket) : List OpusFrame := packets.filterMap ServerboundPacket.voice

def joins (packets : List ServerboundPacket) : List ChannelId := packets.filterMap ServerboundPacket.joins

theorem filterMap_withoutPings {α : Type} {f : ServerboundPacket → Option α} (hping : f .ping = none)
    (packets : List ServerboundPacket) : (withoutPings packets).filterMap f = packets.filterMap f := by
  rw [withoutPings, List.filterMap_filter]
  congr 1
  funext packet
  split
  · rfl
  · rename_i hnot
    have heq : packet = .ping := by simpa using hnot
    rw [heq, hping]

namespace VoicePath

variable {ring : RingBuffer Int16} {ε : Type} {config : VoiceConfig ε} {s : VoicePath ring ε}

/-- The frames the encoder has read. -/
def frames (s : VoicePath ring ε) : List Pcm := s.audio.reads.map EncoderRead.pcmBuf

/-- Each stage goes on with what it has of the one before it. -/
structure Flows (config : VoiceConfig ε) (s : VoicePath ring ε) : Prop where
  encoder : VoiceConfig.Agrees s.encoder (config.after s.frames config.start)
  offered : s.opusQueue.sent.Sublist (config.voice s.frames config.start)
  unbounded : s.outgoing.capacity = none
  relays : s.outgoing.closed = false → voices s.outgoing.sent = s.opusQueue.received
  relayed : voices s.outgoing.sent <+: s.opusQueue.received
  writes : s.outgoing.closed = false →
    withoutPings (s.wire ++ s.sending.toList) = config.greeting ++ s.outgoing.received
  written : withoutPings s.wire <+: config.greeting ++ s.outgoing.received
  idle : s.outgoing.closed = true → s.sending = none
  noPings : ∀ packet ∈ s.outgoing.sent, packet ≠ .ping

theorem reads_next {audio : AudioPath ring} {a : PathAction ring} (hne : a ≠ .encoderReads)
    (frameSamples : Nat) : (audio.next frameSamples a).reads = audio.reads := by
  cases a with
  | encoderReads => exact absurd rfl hne
  | putFrame frame =>
    rcases audio.portPutFrame_cases frame with ⟨_, hsame⟩ | ⟨_, _, hpush⟩
    · simp only [AudioPath.next, hsame]
    · simp only [AudioPath.next, hpush]
  | getFrame frame =>
    rcases audio.portGetFrame_cases frame with ⟨_, hget⟩ | ⟨_, _, hget⟩
    · simp only [AudioPath.next, hget]
    · simp only [AudioPath.next, hget]
  | _ => rfl

theorem withoutPings_append (packets packets' : List ServerboundPacket) :
    withoutPings (packets ++ packets') = withoutPings packets ++ withoutPings packets' := List.filter_append _ _

theorem withoutPings_greeting (config : VoiceConfig ε) : withoutPings config.greeting = config.greeting := by
  unfold VoiceConfig.greeting connectPackets
  cases config.targetChannelId <;> rfl

theorem greeting_eq (config : VoiceConfig ε) : config.greeting.filterMap ServerboundPacket.voice = [] ∧
    config.greeting.filterMap ServerboundPacket.joins = config.targetChannelId.toList := by
  unfold VoiceConfig.greeting connectPackets
  cases config.targetChannelId <;> exact ⟨rfl, rfl⟩

theorem withoutPings_singleton {packet : ServerboundPacket} (h : packet ≠ .ping) :
    withoutPings [packet] = [packet] := by
  simp [withoutPings, h]

theorem voices_sent (packets : List ServerboundPacket) (frame : OpusFrame) :
    voices (packets ++ [.sendVoice frame]) = voices packets ++ [frame] := List.filterMap_append

theorem flows_start (dropped underflow : UInt64) :
    (start config dropped underflow : VoicePath ring ε).Flows config where
  encoder := .rfl
  offered := List.Sublist.refl _
  unbounded := rfl
  relays _ := rfl
  relayed := List.prefix_rfl
  writes _ := by
    show withoutPings (config.greeting ++ []) = config.greeting ++ []
    rw [List.append_nil, withoutPings_greeting]
  written := by
    show withoutPings config.greeting <+: config.greeting ++ []
    rw [List.append_nil, withoutPings_greeting]
  idle h := by cases h
  noPings _ h := by cases h

/-- The frame that has been read goes through the gate and the encoder, and what comes of it is offered. -/
theorem Flows.encoderReads (h : s.Flows config) : (s.encoderReads config).Flows config := by
  have hframes : (s.encoderReads config).frames
      = s.frames ++ [(s.audio.next config.frameSamples .encoderReads).pcmBuf] := by
    rw [frames, frames, ← List.map_singleton]
    exact List.map_append
  have hvoice : config.voice (s.encoderReads config).frames config.start
      = config.voice s.frames config.start
        ++ (config.offered s.encoder (s.audio.next config.frameSamples .encoderReads).pcmBuf).toList := by
    rw [hframes, VoiceConfig.voice_append, VoiceConfig.voice, VoiceConfig.voice, List.append_nil,
      h.encoder.offered]
  have hreceived : (s.encoderReads config).opusQueue.received = s.opusQueue.received := by
    simp only [VoicePath.encoderReads]
    split
    · exact Mpsc.received_send
    · rfl
  refine ⟨?_, ?_, h.unbounded, fun hopen => ?_, ?_, h.writes, h.written, h.idle, h.noPings⟩
  · rw [hframes, VoiceConfig.after_append]
    exact h.encoder.turn
  · rw [hvoice]
    simp only [VoicePath.encoderReads]
    split
    · rename_i frame hoffered
      rw [hoffered]
      by_cases htakes : s.opusQueue.takes = true
      · rw [(Mpsc.send_of_takes htakes).2.1]
        exact h.offered.append (List.Sublist.refl _)
      · rw [Mpsc.send_of_not_takes (Bool.eq_false_of_not_eq_true htakes)]
        exact h.offered.trans (List.sublist_append_left _ _)
    · exact h.offered.trans (List.sublist_append_left _ _)
  · rw [hreceived]
    exact h.relays hopen
  · rw [hreceived]
    exact h.relayed

theorem Flows.forward (h : s.Flows config) : s.forward.Flows config := by
  unfold VoicePath.forward
  split
  · exact { h with }
  · rename_i frame rest hqueue
    have hreceived := Mpsc.received_recv hqueue
    split
    · rename_i htakes
      obtain ⟨_, hsent, hsame, _⟩ := Mpsc.send_of_takes (a := ServerboundPacket.sendVoice frame) htakes
      have hrelays := h.relays (Mpsc.takes_iff.1 htakes).1
      have hrelays' : voices (s.outgoing.send (.sendVoice frame)).sent = s.opusQueue.recv.received := by
        rw [hsent, voices_sent, hrelays, hreceived]
      refine ⟨h.encoder, h.offered, ?_, fun _ => hrelays', ?_, fun hopen => ?_, ?_, fun hclosed => ?_,
        fun packet hpacket => ?_⟩
      · exact Mpsc.capacity_send.trans h.unbounded
      · rw [hrelays']
      · rw [Mpsc.closed_send] at hopen
        rw [hsame]
        exact h.writes hopen
      · rw [hsame]
        exact h.written
      · rw [Mpsc.closed_send] at hclosed
        exact h.idle hclosed
      · rw [hsent] at hpacket
        rcases List.mem_append.1 hpacket with hold | hnew
        · exact h.noPings packet hold
        · rw [List.mem_singleton.1 hnew]
          exact fun heq => by cases heq
    · rename_i htakes
      -- the outgoing channel refuses a packet only when the send loop has ended
      have hclosed : s.outgoing.closed = true := by
        rw [Mpsc.takes_unbounded h.unbounded] at htakes
        simpa using htakes
      refine ⟨h.encoder, h.offered, h.unbounded, fun hopen => ?_, ?_, h.writes, h.written, h.idle, h.noPings⟩
      · rw [hclosed] at hopen
        cases hopen
      · rw [Mpsc.received_close, hreceived]
        exact h.relayed.trans (List.prefix_append _ _)

theorem Flows.joinChannel (h : s.Flows config) (channelId : ChannelId) :
    VoicePath.Flows config { s with outgoing := s.outgoing.send (.joinChannel channelId) } := by
  by_cases htakes : s.outgoing.takes = true
  · obtain ⟨_, hsent, hsame, _⟩ :=
      Mpsc.send_of_takes (a := ServerboundPacket.joinChannel channelId) htakes
    have hvoices : voices (s.outgoing.send (.joinChannel channelId)).sent = voices s.outgoing.sent := by
      rw [hsent]
      exact List.filterMap_append.trans (List.append_nil _)
    refine ⟨h.encoder, h.offered, ?_, fun hopen => ?_, ?_, fun hopen => ?_, ?_, fun hclosed => ?_,
      fun packet hpacket => ?_⟩
    · exact Mpsc.capacity_send.trans h.unbounded
    · rw [Mpsc.closed_send] at hopen
      rw [hvoices]
      exact h.relays hopen
    · rw [hvoices]
      exact h.relayed
    · rw [Mpsc.closed_send] at hopen
      rw [hsame]
      exact h.writes hopen
    · rw [hsame]
      exact h.written
    · rw [Mpsc.closed_send] at hclosed
      exact h.idle hclosed
    · rw [hsent] at hpacket
      rcases List.mem_append.1 hpacket with hold | hnew
      · exact h.noPings packet hold
      · rw [List.mem_singleton.1 hnew]
        exact fun heq => by cases heq
  · rw [Mpsc.send_of_not_takes (Bool.eq_false_of_not_eq_true htakes)]
    exact h

theorem Flows.recv (h : s.Flows config) (hopen : s.outgoing.closed = false) (hidle : s.sending = none)
    (hqueue : s.outgoing.queue ≠ []) :
    VoicePath.Flows config { s with outgoing := s.outgoing.recv, sending := s.outgoing.queue.head? } := by
  obtain ⟨packet, rest, hcons⟩ := List.exists_cons_of_ne_nil hqueue
  have hreceived := Mpsc.received_recv hcons
  have hping : packet ≠ .ping := by
    apply h.noPings
    rw [← s.outgoing.carries hopen, hcons]
    exact List.mem_append_right _ List.mem_cons_self
  have hwrites := h.writes hopen
  rw [hidle, Option.toList_none, List.append_nil] at hwrites
  refine ⟨h.encoder, h.offered, h.unbounded, h.relays, h.relayed, fun _ => ?_, ?_, fun hclosed => ?_, h.noPings⟩
  · show withoutPings (s.wire ++ s.outgoing.queue.head?.toList) = _
    rw [hcons, hreceived, List.head?_cons, Option.toList_some, withoutPings_append, hwrites,
      withoutPings_singleton hping, List.append_assoc]
  · rw [hreceived, ← List.append_assoc]
    exact h.written.trans (List.prefix_append _ _)
  · rw [Mpsc.closed_recv, hopen] at hclosed
    cases hclosed

theorem Flows.sent (h : s.Flows config) (hsending : s.sending.isSome = true) :
    VoicePath.Flows config { s with wire := s.wire ++ s.sending.toList, sending := none } := by
  have hopen : s.outgoing.closed = false := by
    cases hclosed : s.outgoing.closed with
    | false => rfl
    | true =>
      rw [h.idle hclosed] at hsending
      cases hsending
  have hwrites := h.writes hopen
  refine { h with writes := fun _ => ?_, written := ?_, idle := fun _ => rfl }
  · show withoutPings (s.wire ++ s.sending.toList ++ []) = _
    rw [List.append_nil, hwrites]
  · rw [hwrites]

theorem Flows.endSendLoop (h : s.Flows config) (written : Bool) : (s.endSendLoop written).Flows config := by
  refine { h with relays := fun hopen => ?_, writes := fun hopen => ?_, written := ?_, idle := fun _ => rfl }
  · cases hopen
  · cases hopen
  · show withoutPings (if written then s.wire ++ s.sending.toList else s.wire)
      <+: config.greeting ++ s.outgoing.received
    cases hclosed : s.outgoing.closed with
    | true =>
      rw [h.idle hclosed, Option.toList_none, List.append_nil, ite_self]
      exact h.written
    | false =>
      split
      · rw [h.writes hclosed]
      · exact h.written

theorem Flows.next (h : s.Flows config) {a : VoiceAction ring} (hen : s.enabled a) :
    (s.next config a).Flows config := by
  cases a with
  | audio a =>
    by_cases hreads : a = .encoderReads
    · subst a
      exact h.encoderReads
    · have hnext : s.next config (.audio a) = { s with audio := s.audio.next config.frameSamples a } := by
        cases a with
        | encoderReads => exact absurd rfl hreads
        | _ => rfl
      have hsame : (s.audio.next config.frameSamples a).reads = s.audio.reads := reads_next hreads config.frameSamples
      rw [hnext]
      refine { h with encoder := ?_, offered := ?_ }
      · simp only [frames, hsame]
        exact h.encoder
      · simp only [frames, hsame]
        exact h.offered
  | forward => exact h.forward
  | joinChannel channelId => exact h.joinChannel channelId
  | ping =>
    obtain ⟨hopen, hidle⟩ := hen
    refine { h with writes := fun _ => ?_, idle := fun hclosed => ?_ }
    · have hwrites := h.writes hopen
      rw [hidle, Option.toList_none, List.append_nil] at hwrites
      show withoutPings (s.wire ++ [.ping]) = _
      rw [withoutPings_append, hwrites]
      exact List.append_nil _
    · have hclosed' : s.outgoing.closed = true := hclosed
      rw [hopen] at hclosed'
      cases hclosed'
  | recv => exact h.recv hen.1 hen.2.1 hen.2.2
  | sent => exact h.sent hen
  | sendFails written | dropClient written => exact h.endSendLoop written
  | abortEncoder | abortForwarder => exact { h with }

theorem flows_of_reachable {dropped underflow : UInt64}
    (hs : (voicePath ring config dropped underflow).Reachable s) : s.Flows config := by
  apply hs.invariant (I := Flows config)
  · rintro s rfl
    exact flows_start dropped underflow
  · intro s a _ h hen _
    exact h.next hen

theorem audio_reachable {dropped underflow : UInt64}
    (hs : (voicePath ring config dropped underflow).Reachable s) :
    (audioPath ring config.frameSamples dropped underflow).Reachable s.audio := by
  apply hs.map VoicePath.audio
  · rintro s rfl
    rfl
  · intro s a hen _
    cases a with
    | audio a =>
      refine .inr ⟨a, hen.1, trivial, ?_⟩
      cases a <;> rfl
    | forward =>
      refine .inl ?_
      simp only [voicePath, VoicePath.next, VoicePath.forward]
      split
      · rfl
      · split <;> rfl
    | _ => exact .inl rfl

theorem Flows.voices_wire (h : s.Flows config) : voices s.wire <+: s.opusQueue.received := by
  have hwritten := h.written.filterMap ServerboundPacket.voice
  rw [filterMap_withoutPings rfl, List.filterMap_append] at hwritten
  have hreceived : voices s.wire <+: voices s.outgoing.received := by
    rwa [(greeting_eq config).1, List.nil_append] at hwritten
  exact (hreceived.trans (s.outgoing.ordered.filterMap _)).trans h.relayed

end VoicePath

/-- However the tasks go, what is written to the connection of what the caller says is part of what one encoder
makes of the samples the port has accepted, frame by frame: no packet is there twice or out of order, and the
number of a packet is its place among all the packets of the call. -/
theorem voice_in_order {ring : RingBuffer Int16} {ε : Type} {config : VoiceConfig ε} {dropped underflow : UInt64}
    {s : VoicePath ring ε} (hs : (voicePath ring config dropped underflow).Reachable s) :
    s.frames.flatten ++ ring.queue s.audio.sipToMumble = s.audio.puts.flatMap RingBuffer.Pushed.accepted ∧
    (∀ frame ∈ s.frames, frame.length = config.frameSamples) ∧
    (voices s.wire).Sublist (config.voice s.frames config.start) ∧
    (voices s.wire).Pairwise (fun packet packet' => packet.seqNum < packet'.seqNum) ∧
    ∀ packet ∈ voices s.wire, (config.voice s.frames config.start)[packet.seqNum]? = some packet := by
  have h := VoicePath.flows_of_reachable hs
  have haudio := AudioPath.accounts_of_reachable (VoicePath.audio_reachable hs)
  have hpopped : s.frames = s.audio.reads.map EncoderRead.popped :=
    List.map_congr_left fun read hread => (haudio.reads read hread).2.1
  have hsub : (voices s.wire).Sublist (config.voice s.frames config.start) :=
    (h.voices_wire.trans s.opusQueue.ordered).sublist.trans h.offered
  refine ⟨?_, ?_, hsub, (VoiceConfig.pairwise_voice _ _).sublist hsub, fun packet hpacket => ?_⟩
  · rw [hpopped]
    exact haudio.fromSip
  · rw [hpopped]
    intro frame hframe
    obtain ⟨read, hread, rfl⟩ := List.mem_map.1 hframe
    exact (haudio.reads read hread).1
  · exact VoiceConfig.getElem?_voice (hsub.subset hpacket)

/-- Frames of two samples, judged as the bridge does, and an encoder that counts them. -/
def countingConfig : VoiceConfig Nat where
  frameSamples := 2
  aboveThreshold := aboveThreshold 2
  opus := ⟨0, fun n buffer => (some [UInt8.ofNat n, UInt8.ofNat buffer.length], n + 1)⟩
  queueCapacity := 1
  username := "sip"
  password := ""
  targetChannelId := some 3

/-- The second of three packets meets a full queue, and the connection fails with the third one on its way. -/
theorem voice_in_order_dropped : ∃ s, (voicePath (.bounded Int16 8) countingConfig 0 0).Reachable s ∧
    s.wire = countingConfig.greeting ++ [.userState 7, .ping, .udpTunnel 0 0 [0, 2] false] ∧
    s.opusQueue.sent = [⟨0, [0, 2], false⟩, ⟨2, [2, 2], false⟩] ∧
    ∀ packet ∈ voices s.wire,
      (countingConfig.voice s.frames countingConfig.start)[packet.seqNum]? = some packet := by
  obtain ⟨s, hs, hdone⟩ := System.exists_reaches_of_run (voicePath (.bounded Int16 8) countingConfig 0 0)
    System.anyStep (s := .start countingConfig 0 0) rfl
    [.audio (.putFrame ⟨.audio, some [90, 90, 1, 1, 1, 1]⟩), .audio (.sipToMumbleSees (0, 6)), .audio .encoderTick,
      .audio .encoderReads, .audio .encoderTick, .audio .encoderReads, .joinChannel 7, .forward,
      .audio .encoderTick, .audio .encoderReads, .recv, .sent, .ping, .sent, .recv, .sent, .forward, .recv,
      .sendFails false]
    (fun s => s.wire == countingConfig.greeting ++ [.userState 7, .ping, .udpTunnel 0 0 [0, 2] false] &&
      s.opusQueue.sent == [⟨0, [0, 2], false⟩, ⟨2, [2, 2], false⟩]) (by decide +kernel)
  obtain ⟨hwire, hsent⟩ := Bool.and_eq_true_iff.1 hdone
  exact ⟨s, hs, eq_of_beq hwire, eq_of_beq hsent, (voice_in_order hs).2.2.2.2⟩

/-! ### Nothing is lost while the connection lasts -/

namespace VoicePath

variable {ring : RingBuffer Int16} {ε : Type} {config : VoiceConfig ε} {s s' : VoicePath ring ε}

/-- Packets go on towards the connection, and `sink.send` succeeds. -/
def relays (s : VoicePath ring ε) : VoiceAction ring → Prop
  | .forward => s.opusQueue.queue ≠ []
  | .recv | .sent => True
  | _ => False

/-- The steps up to the connection for all packets that have been accepted. -/
def toGo (s : VoicePath ring ε) : Nat :=
  3 * s.opusQueue.queue.length + 2 * s.outgoing.queue.length + s.sending.toList.length

/-- The forwarder and the send loop are running. -/
structure Connected (config : VoiceConfig ε) (packets : List OpusFrame) (channels : List ChannelId)
    (s : VoicePath ring ε) : Prop where
  flows : s.Flows config
  forwards : s.opusQueue.closed = false
  sends : s.outgoing.closed = false
  accepted : s.opusQueue.sent = packets
  asked : joins s.outgoing.sent = channels

theorem forward_eq {packet : OpusFrame} {rest : List OpusFrame} (hqueue : s.opusQueue.queue = packet :: rest)
    (htakes : s.outgoing.takes = true) : s.forward
      = { s with opusQueue := s.opusQueue.recv, outgoing := s.outgoing.send (.sendVoice packet) } := by
  rw [forward, hqueue]
  exact if_pos htakes

theorem Connected.next {packets : List OpusFrame} {channels : List ChannelId}
    (h : s.Connected config packets channels) {a : VoiceAction ring} (hen : s.enabled a) (hok : s.relays a) :
    (s.next config a).Connected config packets channels ∧ (s.next config a).toGo < s.toGo := by
  have hflows := h.flows.next hen
  cases a with
  | forward =>
    obtain ⟨packet, rest, hqueue⟩ := List.exists_cons_of_ne_nil hok
    have htakes : s.outgoing.takes = true := by
      rw [Mpsc.takes_unbounded h.flows.unbounded, h.sends]
      rfl
    obtain ⟨hqueue', hsent, _, hclosed⟩ :=
      Mpsc.send_of_takes (a := ServerboundPacket.sendVoice packet) htakes
    have hforward : s.next config .forward = _ := forward_eq hqueue htakes
    rw [hforward] at hflows ⊢
    refine ⟨⟨hflows, h.forwards, hclosed.trans h.sends, h.accepted, ?_⟩, ?_⟩
    · show joins (s.outgoing.send _).sent = channels
      rw [hsent, ← h.asked]
      exact List.filterMap_append.trans (List.append_nil _)
    · show 3 * s.opusQueue.queue.tail.length + 2 * (s.outgoing.send _).queue.length + s.sending.toList.length
        < s.toGo
      rw [hqueue', hqueue, List.tail_cons, List.length_append, List.length_singleton, toGo, hqueue,
        List.length_cons]
      omega
  | recv =>
    obtain ⟨packet, rest, hqueue⟩ := List.exists_cons_of_ne_nil hen.2.2
    refine ⟨⟨hflows, h.forwards, h.sends, h.accepted, h.asked⟩, ?_⟩
    show 3 * s.opusQueue.queue.length + 2 * s.outgoing.queue.tail.length + s.outgoing.queue.head?.toList.length
      < s.toGo
    rw [hqueue, List.tail_cons, List.head?_cons, Option.toList_some, List.length_singleton, toGo, hqueue,
      List.length_cons]
    omega
  | sent =>
    obtain ⟨packet, hpacket⟩ := Option.isSome_iff_exists.1 hen
    refine ⟨⟨hflows, h.forwards, h.sends, h.accepted, h.asked⟩, ?_⟩
    show 3 * s.opusQueue.queue.length + 2 * s.outgoing.queue.length + 0 < s.toGo
    rw [toGo, hpacket, Option.toList_some, List.length_singleton]
    omega
  | _ => exact hok.elim

theorem decreases_toGo (packets : List OpusFrame) (channels : List ChannelId) (dropped underflow : UInt64) :
    (voicePath ring config dropped underflow).Decreases relays (Connected config packets channels) toGo where
  keeps _ _ h hen hok := (h.next hen hok).1
  lt _ _ h hen hok := (h.next hen hok).2

theorem relays_of_toGo (htoGo : s.toGo ≠ 0) {packets : List OpusFrame} {channels : List ChannelId}
    (h : s.Connected config packets channels) : ∃ a, s.enabled a ∧ s.relays a := by
  cases hsending : s.sending with
  | some packet => exact ⟨.sent, by simp [enabled, hsending], trivial⟩
  | none =>
    by_cases houtgoing : s.outgoing.queue = []
    · have hqueue : s.opusQueue.queue ≠ [] := by
        intro hnil
        rw [toGo, hnil, houtgoing, hsending] at htoGo
        exact htoGo rfl
      exact ⟨.forward, ⟨h.forwards, .inl hqueue⟩, hqueue⟩
    · exact ⟨.recv, ⟨h.sends, hsending, houtgoing⟩, trivial⟩

/-- What is on its way is between what has been written and what has been accepted. -/
theorem Connected.on_its_way {packets : List OpusFrame} {channels : List ChannelId}
    (h : s.Connected config packets channels) :
    voices s.wire ++ voices s.sending.toList ++ voices s.outgoing.queue ++ s.opusQueue.queue = packets ∧
      joins s.wire ++ joins s.sending.toList ++ joins s.outgoing.queue
        = config.targetChannelId.toList ++ channels := by
  have hwrites := h.flows.writes h.sends
  have hcarries := s.outgoing.carries h.sends
  have hvoices : voices s.wire ++ voices s.sending.toList = voices s.outgoing.received := by
    have heq := congrArg (List.filterMap ServerboundPacket.voice) hwrites
    rw [filterMap_withoutPings rfl, List.filterMap_append, List.filterMap_append] at heq
    rwa [(greeting_eq config).1, List.nil_append] at heq
  have hjoins : joins s.wire ++ joins s.sending.toList
      = config.targetChannelId.toList ++ joins s.outgoing.received := by
    have heq := congrArg (List.filterMap ServerboundPacket.joins) hwrites
    rw [filterMap_withoutPings rfl, List.filterMap_append, List.filterMap_append] at heq
    rwa [(greeting_eq config).2] at heq
  constructor
  · calc voices s.wire ++ voices s.sending.toList ++ voices s.outgoing.queue ++ s.opusQueue.queue
        = voices (s.outgoing.received ++ s.outgoing.queue) ++ s.opusQueue.queue := by
          rw [hvoices, voices, voices, voices, List.filterMap_append]
      _ = s.opusQueue.received ++ s.opusQueue.queue := by rw [hcarries, h.flows.relays h.sends]
      _ = packets := by rw [s.opusQueue.carries h.forwards, h.accepted]
  · calc joins s.wire ++ joins s.sending.toList ++ joins s.outgoing.queue
        = config.targetChannelId.toList ++ joins (s.outgoing.received ++ s.outgoing.queue) := by
          rw [hjoins, List.append_assoc, joins, joins, joins, List.filterMap_append]
      _ = config.targetChannelId.toList ++ channels := by rw [hcarries, h.asked]

end VoicePath

/-- While the forwarder and the send loop are running, every packet that the queue has accepted and every join
that was asked for is on the wire or on its way, in order; and if the connection goes on, at most three steps a
packet bring them all there. -/
theorem accepted_voice_delivered {ring : RingBuffer Int16} {ε : Type} {config : VoiceConfig ε}
    {dropped underflow : UInt64} {s : VoicePath ring ε}
    (hs : (voicePath ring config dropped underflow).Reachable s) (hforwards : s.opusQueue.closed = false)
    (hsends : s.outgoing.closed = false) :
    (voices s.wire ++ voices s.sending.toList ++ voices s.outgoing.queue ++ s.opusQueue.queue
        = s.opusQueue.sent ∧
      joins s.wire ++ joins s.sending.toList ++ joins s.outgoing.queue
        = config.targetChannelId.toList ++ joins s.outgoing.sent) ∧
    (∀ n s', (voicePath ring config dropped underflow).Steps VoicePath.relays s n s' → n ≤ s.toGo) ∧
    ∃ n s', (voicePath ring config dropped underflow).Steps VoicePath.relays s n s' ∧
      voices s'.wire = s.opusQueue.sent ∧ joins s'.wire = config.targetChannelId.toList ++ joins s.outgoing.sent := by
  have hconnected : s.Connected config s.opusQueue.sent (joins s.outgoing.sent) :=
    ⟨VoicePath.flows_of_reachable hs, hforwards, hsends, rfl, rfl⟩
  have hdecreases : (voicePath ring config dropped underflow).Decreases _ _ _ :=
    VoicePath.decreases_toGo s.opusQueue.sent (joins s.outgoing.sent) dropped underflow
  refine ⟨hconnected.on_its_way, fun n s' hsteps => ?_, ?_⟩
  · have hle := hsteps.add_le hdecreases hconnected
    omega
  · obtain ⟨n, s', hsteps, hdone⟩ := hdecreases.exists_steps
      (fun _ h htoGo => VoicePath.relays_of_toGo htoGo h) hconnected
    obtain ⟨hvoices, hjoins⟩ := (hsteps.invariant hdecreases hconnected).on_its_way
    have hqueues : s'.opusQueue.queue = [] ∧ s'.outgoing.queue = [] ∧ s'.sending.toList = [] := by
      rw [VoicePath.toGo] at hdone
      refine ⟨List.eq_nil_of_length_eq_zero ?_, List.eq_nil_of_length_eq_zero ?_,
        List.eq_nil_of_length_eq_zero ?_⟩ <;> omega
    rw [hqueues.1, hqueues.2.1, hqueues.2.2, List.append_nil] at hvoices
    rw [hqueues.2.1, hqueues.2.2] at hjoins
    refine ⟨n, s', hsteps, ?_, ?_⟩
    · rw [← hvoices]
      exact ((List.append_nil _).trans (List.append_nil _)).symm
    · rw [← hjoins]
      exact ((List.append_nil _).trans (List.append_nil _)).symm

/-- Two packets and a join, of which one packet has been written. -/
theorem accepted_voice_delivered_rest : ∃ s, (voicePath (.bounded Int16 8) countingConfig 0 0).Reachable s ∧
    voices s.wire = [⟨0, [0, 2], false⟩] ∧ s.toGo = 5 ∧
    ∃ n s', (voicePath (.bounded Int16 8) countingConfig 0 0).Steps VoicePath.relays s n s' ∧
      voices s'.wire = s.opusQueue.sent ∧ joins s'.wire = [3] ++ joins s.outgoing.sent := by
  obtain ⟨s, hs, hdone⟩ := System.exists_reaches_of_run (voicePath (.bounded Int16 8) countingConfig 0 0)
    System.anyStep (s := .start countingConfig 0 0) rfl
    [.audio (.putFrame ⟨.audio, some [90, 90, 1, 1, 1, 1]⟩), .audio (.sipToMumbleSees (0, 6)), .audio .encoderTick,
      .audio .encoderReads, .forward, .recv, .sent, .joinChannel 7, .audio .encoderTick, .audio .encoderReads]
    (fun s => voices s.wire == [⟨0, [0, 2], false⟩] && s.toGo == 5 && !s.opusQueue.closed &&
      !s.outgoing.closed) (by decide +kernel)
  simp only [Bool.and_eq_true, Bool.not_eq_true', beq_iff_eq] at hdone
  obtain ⟨⟨⟨hwire, htoGo⟩, hforwards⟩, hsends⟩ := hdone
  exact ⟨s, hs, hwire, htoGo, (accepted_voice_delivered hs hforwards hsends).2.2⟩

end MumbleSip
