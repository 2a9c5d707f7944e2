import MumbleSip.Audio.Conservation
import MumbleSip.Lib.Progress
import MumbleSip.Session.HearingPath
import MumbleSip.Sip.SampleFlow

/-!
# What a caller hears comes from the packets in order

The events are a function of the packets, and the handler takes them in order. A packet of a speaker can be lost
where a queue is full, but none gets past another, so the mixed decoder has for each speaker a part of what the
server has sent, in order; and every sound that has reached it is played whole. When the connection ends, the
handler takes what it has been sent before and ends.
-/

namespace MumbleSip

open Transition

/-! ### Packets and events -/

/-- The names of the users after some packets. -/
def namesAfter : List Packet → UserNames → UserNames
  | [], userNames => userNames
  | packet :: packets, userNames => namesAfter packets (handlePacket packet userNames).2

/-- The events that the receive loop makes of some packets. -/
def eventsOf : List Packet → UserNames → List MumbleEvent
  | [], _ => []
  | packet :: packets, userNames =>
    (handlePacket packet userNames).1.toList ++ eventsOf packets (handlePacket packet userNames).2

theorem namesAfter_append (packets packets' : List Packet) (userNames : UserNames) :
    namesAfter (packets ++ packets') userNames = namesAfter packets' (namesAfter packets userNames) := by
  induction packets generalizing userNames with
  | nil => rfl
  | cons packet packets ih => exact ih _

theorem eventsOf_append (packets packets' : List Packet) (userNames : UserNames) :
    eventsOf (packets ++ packets') userNames
      = eventsOf packets userNames ++ eventsOf packets' (namesAfter packets userNames) := by
  induction packets generalizing userNames with
  | nil => rfl
  | cons packet packets ih => rw [List.cons_append, eventsOf, ih, eventsOf, namesAfter, List.append_assoc]

def Packet.tunnelled : Packet → Option (SessionId × Bytes)
  | .udpTunnel sessionId _ opusData => some (sessionId, opusData)
  | _ => none

/-- The audio of some events. -/
def audioOf (events : List MumbleEvent) : List (SessionId × Bytes) := events.filterMap MumbleEvent.audio

/-- The packets of a speaker. -/
def ofSpeaker (sessionId : SessionId) (packets : List (SessionId × Bytes)) : List Bytes :=
  (packets.filter fun packet => packet.1 == sessionId).map Prod.snd

/-- Each Opus packet that the server has tunnelled becomes one event, in its place. -/
theorem audioOf_eventsOf (packets : List Packet) (userNames : UserNames) :
    audioOf (eventsOf packets userNames) = packets.filterMap Packet.tunnelled := by
  induction packets generalizing userNames with
  | nil => rfl
  | cons packet packets ih =>
    have hrest : (eventsOf packets (handlePacket packet userNames).2).filterMap MumbleEvent.audio
        = packets.filterMap Packet.tunnelled := ih _
    rw [eventsOf, audioOf, List.filterMap_append, List.filterMap_cons, hrest]
    cases packet with
    | userState msg =>
      cases hchannel : msg.channelId <;> simp [handlePacket, hchannel, MumbleEvent.audio, Packet.tunnelled]
    | _ => rfl

theorem ofSpeaker_append (sessionId : SessionId) (packets packets' : List (SessionId × Bytes)) :
    ofSpeaker sessionId (packets ++ packets') = ofSpeaker sessionId packets ++ ofSpeaker sessionId packets' := by
  rw [ofSpeaker, List.filter_append, List.map_append, ofSpeaker, ofSpeaker]

theorem ofSpeaker_self (sessionId : SessionId) (opusData : Bytes) :
    ofSpeaker sessionId [(sessionId, opusData)] = [opusData] := by
  simp [ofSpeaker]

theorem ofSpeaker_of_ne {sessionId sessionId' : SessionId} (hne : sessionId ≠ sessionId') (opusData : Bytes) :
    ofSpeaker sessionId [(sessionId', opusData)] = [] := by
  simp [ofSpeaker, hne.symm]

/-- Not the audio of a speaker. -/
def Output.aside : Output → Bool
  | .opus _ _ => false
  | _ => true

/-! ### What has arrived at the mixed decoder -/

namespace Mixer

variable {δ : Type} {opus : Opus δ} {config : MixerConfig} {m : Mixer δ} {state : SpeakerState δ}
  {order : List UInt32} {now : Nat} {sessionId : UInt32}

/-- What has arrived of a speaker are the last packets that were received of it. -/
def ArrivedFrom (received : List (SessionId × Bytes)) (m : Mixer δ) : Prop :=
  ∀ sessionId state, m.speakers.lookup sessionId = some state →
    state.history.arrived <:+ ofSpeaker sessionId received

theorem arrived_fill (n : Nat) (state : SpeakerState δ) :
    (state.fill opus n).history.arrived = state.history.arrived := by
  obtain ⟨taken, htaken⟩ : ∃ taken, (state.fill opus n).history = _ := SpeakerState.history_decodeLoop _ state
  rw [htaken]

theorem arrived_receive (maxPackets : Nat) (state : SpeakerState δ) (opusData : Bytes) (now : Nat) :
    (state.receive maxPackets opusData now).history.arrived = state.history.arrived ++ [opusData] := by
  obtain ⟨taken, htaken⟩ := SpeakerState.history_receive maxPackets state opusData now
  rw [htaken]

variable {received : List (SessionId × Bytes)}

theorem ArrivedFrom.tick (h : m.ArrivedFrom received) :
    (m.tick opus config order now).ArrivedFrom received := by
  intro sessionId state' hstate'
  obtain ⟨state, hstate, rfl⟩ := lookup_tick state' hstate'
  have harrived : (state.fill opus config.frameSamples).history.arrived = state.history.arrived :=
    arrived_fill _ _
  show (state.fill opus config.frameSamples).history.arrived <:+ _
  rw [harrived]
  exact h sessionId state hstate

theorem ArrivedFrom.insert (h : m.ArrivedFrom received) {opusData : Bytes} {state' : SpeakerState δ}
    (harrived : state'.history.arrived <:+ ofSpeaker sessionId received ++ [opusData]) :
    ArrivedFrom (received ++ [(sessionId, opusData)])
      { m with speakers := m.speakers.insert sessionId state' } := by
  intro sessionId' state'' hstate
  rw [FiniteMap.lookup_insert] at hstate
  rw [ofSpeaker_append]
  split at hstate
  · subst sessionId'
    cases hstate
    rw [ofSpeaker_self]
    exact harrived
  · rename_i hne
    rw [ofSpeaker_of_ne hne, List.append_nil]
    exact h sessionId' state'' hstate

theorem ArrivedFrom.packet (h : m.ArrivedFrom received) (sessionId : UInt32) (opusData : Bytes)
    (decoder : Option δ) :
    (m.packet config sessionId opusData decoder now).ArrivedFrom (received ++ [(sessionId, opusData)]) := by
  unfold Mixer.packet
  split
  · rename_i state hstate
    apply h.insert
    rw [arrived_receive]
    exact (List.suffix_append_inj_of_length_eq rfl).2 ⟨h sessionId state hstate, rfl⟩
  · rename_i hnone
    cases decoder with
    | none =>
      intro sessionId' state hstate
      have hne : sessionId' ≠ sessionId := by
        rintro rfl
        rw [hnone] at hstate
        cases hstate
      rw [ofSpeaker_append, ofSpeaker_of_ne hne, List.append_nil]
      exact h sessionId' state hstate
    | some decoder =>
      apply h.insert
      rw [arrived_receive]
      exact List.suffix_append _ _

end Mixer

namespace HearingPath

variable {ring : RingBuffer Int16} {δ : Type} {opus : Opus δ} {config : HearingConfig} {s : HearingPath ring δ}

/-- The last event of a stream that has ended. -/
def lastEvent (s : HearingPath ring δ) : List MumbleEvent := if s.receiving then [] else [.disconnected]

/-- Each stage goes on with what it has of the one before it. -/
structure Hears (config : HearingConfig) (s : HearingPath ring δ) : Prop where
  userNames : s.userNames = namesAfter s.packets config.userNames
  unbounded : s.events.capacity = none
  events : s.events.closed = false →
    s.events.sent = eventsOf s.packets config.userNames ++ s.lastEvent
  sent : s.events.sent <+: eventsOf s.packets config.userNames ++ s.lastEvent
  ended : s.events.closed = true → s.receiving = false
  queue : s.opusQueue.sent.Sublist (audioOf s.events.received)
  dropped : s.opusQueue.closed = false →
    (audioOf s.events.received).length = s.opusQueue.sent.length + s.droppedDecoderFrames
  arrived : s.mixer.ArrivedFrom s.opusQueue.received
  sounds : s.mixer.sounds = s.sounds.received
  pushes : s.audio.pushes.map RingBuffer.Pushed.elements = s.mixer.emitted.map MixedFrame.samples

theorem hears_start (dropped underflow : UInt64) :
    (start config dropped underflow : HearingPath ring δ).Hears config where
  userNames := rfl
  unbounded := rfl
  events _ := rfl
  sent := List.prefix_rfl
  ended h := by cases h
  queue := List.Sublist.refl _
  dropped _ := rfl
  arrived _ _ h := by cases h
  sounds := rfl
  pushes := rfl

/-- The receive loop goes on to another list of events, of which the handler has taken none. -/
theorem Hears.extend (h : s.Hears config) {events : Mpsc MumbleEvent} {packets : List Packet}
    {userNames : UserNames} {receiving : Bool} (hnames : userNames = namesAfter packets config.userNames)
    (hcapacity : events.capacity = s.events.capacity) (hreceived : events.received = s.events.received)
    (hclosed : events.closed = s.events.closed) (hopen : s.events.closed = false)
    (hsent : events.sent = eventsOf packets config.userNames ++ if receiving then [] else [.disconnected]) :
    Hears config { s with
      packets := packets, userNames := userNames, receiving := receiving, events := events } := by
  refine ⟨hnames, hcapacity.trans h.unbounded, fun _ => hsent, ?_, fun hend => ?_, ?_, fun hqueue => ?_,
    h.arrived, h.sounds, h.pushes⟩
  · show events.sent <+: _
    rw [hsent]
    exact List.prefix_rfl
  · rw [hclosed, hopen] at hend
    cases hend
  · show s.opusQueue.sent.Sublist (audioOf events.received)
    rw [hreceived]
    exact h.queue
  · show (audioOf events.received).length = _
    rw [hreceived]
    exact h.dropped hqueue

theorem receive_none {packet : Packet} (hevent : (handlePacket packet s.userNames).1 = none) :
    s.receive packet = { s with
      packets := s.packets ++ [packet]
      userNames := (handlePacket packet s.userNames).2 } := by
  simp only [receive, hevent]

theorem receive_some {packet : Packet} {event : MumbleEvent}
    (hevent : (handlePacket packet s.userNames).1 = some event) :
    s.receive packet = { s with
      packets := s.packets ++ [packet]
      userNames := (handlePacket packet s.userNames).2
      events := s.events.send event } := by
  simp only [receive, hevent]

theorem Hears.open_of_receiving (h : s.Hears config) (hreceiving : s.receiving = true) :
    s.events.closed = false := by
  by_contra hclosed
  rw [h.ended (Bool.eq_true_of_not_eq_false hclosed)] at hreceiving
  cases hreceiving

theorem Hears.receive (h : s.Hears config) (hreceiving : s.receiving = true) (packet : Packet) :
    (s.receive packet).Hears config := by
  have hopen := h.open_of_receiving hreceiving
  have hold := h.events hopen
  rw [lastEvent, if_pos hreceiving, List.append_nil] at hold
  have hnames : (handlePacket packet s.userNames).2 = namesAfter (s.packets ++ [packet]) config.userNames := by
    rw [namesAfter_append, ← h.userNames]
    rfl
  have heventsOf : eventsOf (s.packets ++ [packet]) config.userNames
      = s.events.sent ++ (handlePacket packet s.userNames).1.toList := by
    rw [eventsOf_append, ← h.userNames, ← hold, eventsOf, eventsOf, List.append_nil]
  have htakes : s.events.takes = true := by
    rw [Mpsc.takes_unbounded h.unbounded, hopen]
    rfl
  cases hevent : (handlePacket packet s.userNames).1 with
  | none =>
    rw [hevent, Option.toList_none, List.append_nil] at heventsOf
    rw [receive_none hevent]
    refine h.extend hnames rfl rfl rfl hopen ?_
    rw [if_pos hreceiving, List.append_nil, heventsOf]
  | some event =>
    rw [hevent] at heventsOf
    rw [receive_some hevent]
    refine h.extend hnames Mpsc.capacity_send Mpsc.received_send Mpsc.closed_send hopen ?_
    rw [if_pos hreceiving, List.append_nil, heventsOf]
    exact (Mpsc.send_of_takes htakes).2.1

theorem Hears.streamEnds (h : s.Hears config) (hreceiving : s.receiving = true) :
    Hears config { s with receiving := false, events := s.events.send .disconnected } := by
  have hopen := h.open_of_receiving hreceiving
  have htakes : s.events.takes = true := by
    rw [Mpsc.takes_unbounded h.unbounded, hopen]
    rfl
  refine h.extend h.userNames Mpsc.capacity_send Mpsc.received_send Mpsc.closed_send hopen ?_
  rw [(Mpsc.send_of_takes htakes).2.1, h.events hopen, lastEvent, if_pos hreceiving, List.append_nil]
  rfl

/-! ### The event handler -/

theorem Hears.endHandler (h : s.Hears config) : s.endHandler.Hears config := by
  refine { h with events := fun hopen => ?_, sent := ?_, ended := fun _ => rfl }
  · cases hopen
  · show s.events.sent <+: eventsOf s.packets config.userNames ++ [.disconnected]
    have hsent := h.sent
    unfold lastEvent at hsent
    split at hsent
    · rw [List.append_nil] at hsent
      exact hsent.trans (List.prefix_append _ _)
    · exact hsent

theorem Hears.deliver (h : s.Hears config) {output : Output} (haside : output.aside = true) :
    (s.deliver config output).Hears config := by
  cases output with
  | opus sessionId opusData => cases haside
  | sound event => exact { h with sounds := h.sounds.trans Mpsc.received_send.symm }
  | announcement channelId channelName => exact { h with }
  | textTts senderName message => exact { h with }

theorem Hears.deliverAll {outputs : List Output} (h : s.Hears config)
    (haside : ∀ output ∈ outputs, output.aside = true) :
    (outputs.foldl (HearingPath.deliver config) s).Hears config := by
  induction outputs generalizing s with
  | nil => exact h
  | cons output outputs ih =>
    exact ih (h.deliver (haside output List.mem_cons_self)) fun output' hmem =>
      haside output' (List.mem_cons_of_mem _ hmem)

theorem aside_handleEvent {handler : EventHandler} {event : MumbleEvent} (hevent : event.audio = none)
    (result : TrySend) (text : Bool) :
    ∀ output ∈ (handler.handleEvent event result text).2, output.aside = true := by
  cases event with
  | audioReceived sessionId opusData seqNum => cases hevent
  | userChangedChannel sessionId channelId =>
    simp only [EventHandler.handleEvent, EventHandler.userChangedChannel]
    split
    · split <;> simp [Output.aside]
    · split
      · simp [Output.aside]
      · split <;> simp [Output.aside]
  | userDisconnected sessionId =>
    simp only [EventHandler.handleEvent, EventHandler.userDisconnected]
    split <;> simp [Output.aside]
  | textMessageReceived senderName message =>
    simp only [EventHandler.handleEvent]
    split <;> simp [Output.aside]
  | channelState channelId name => simp [EventHandler.handleEvent]
  | disconnected => simp [EventHandler.handleEvent]
  | connected sessionId => simp [EventHandler.handleEvent]

/-- The handler has taken an event, and the queue of the mixed decoder is `queue` now. -/
theorem Hears.take (h : s.Hears config) {event : MumbleEvent} {rest : List MumbleEvent}
    (hcons : s.events.queue = event :: rest) {queue : Mpsc (SessionId × Bytes)} {dropped : Nat}
    (hreceived : queue.received = s.opusQueue.received)
    (hqueue : queue.sent.Sublist (audioOf s.events.received ++ event.audio.toList))
    (hdropped : queue.closed = false →
      (audioOf s.events.received).length + event.audio.toList.length = queue.sent.length + dropped)
    (handler : EventHandler) (watch : Watch) : Hears config { s with
      events := s.events.recv, handler := handler, watch := watch, droppedDecoderFrames := dropped,
      opusQueue := queue } := by
  have haudio : audioOf s.events.recv.received = audioOf s.events.received ++ event.audio.toList := by
    rw [Mpsc.received_recv hcons, audioOf, List.filterMap_append]
    cases haudio : event.audio <;> simp [haudio, audioOf]
  refine { h with queue := ?_, dropped := fun hopen => ?_, arrived := ?_ }
  · show queue.sent.Sublist (audioOf s.events.recv.received)
    rw [haudio]
    exact hqueue
  · show (audioOf s.events.recv.received).length = _
    rw [haudio, List.length_append]
    exact hdropped hopen
  · show s.mixer.ArrivedFrom queue.received
    rw [hreceived]
    exact h.arrived

/-- What the handler sends for an event. -/
def outputsFor (s : HearingPath ring δ) (event : MumbleEvent) (text : Bool) : List Output :=
  ((s.handler.checkWatch s.watch).1.handleEvent event s.trySend text).2

/-- The handler has taken an event, and nothing has been delivered of what it sends. -/
def taken (s : HearingPath ring δ) (event : MumbleEvent) (text : Bool) : HearingPath ring δ :=
  { s with
    events := s.events.recv
    handler := ((s.handler.checkWatch s.watch).1.handleEvent event s.trySend text).1
    watch := (s.handler.checkWatch s.watch).2
    droppedDecoderFrames :=
      if event.audio.isSome && s.trySend == .full then s.droppedDecoderFrames + 1
      else s.droppedDecoderFrames }

theorem handle_eq {event : MumbleEvent} {rest : List MumbleEvent} (hcons : s.events.queue = event :: rest)
    (text : Bool) : s.handle config text =
      let s' := (s.outputsFor event text).foldl (HearingPath.deliver config) (s.taken event text)
      if (s.taken event text).handler.running then s' else s'.endHandler := by
  rw [handle, hcons]
  rfl

theorem trySend_cases (s : HearingPath ring δ) :
    (s.trySend = .closed ∧ s.opusQueue.closed = true) ∨
      (s.trySend = .full ∧ s.opusQueue.takes = false) ∨ (s.trySend = .ok ∧ s.opusQueue.takes = true) := by
  unfold trySend Mpsc.takes
  cases s.opusQueue.closed <;> cases s.opusQueue.isFull <;> simp

theorem Hears.handle (h : s.Hears config) (hqueue : s.events.queue ≠ []) (text : Bool) :
    (s.handle config text).Hears config := by
  obtain ⟨event, rest, hcons⟩ := List.exists_cons_of_ne_nil hqueue
  rw [handle_eq hcons]
  unfold outputsFor taken
  dsimp only
  generalize s.handler.checkWatch s.watch = watched
  have hend : ∀ {s' : HearingPath ring δ} (running : Bool), s'.Hears config →
      (if running then s' else s'.endHandler).Hears config := by
    intro s' running hs'
    split
    · exact hs'
    · exact hs'.endHandler
  cases haudio : event.audio with
  | none =>
    apply hend
    apply Hears.deliverAll _ (aside_handleEvent haudio _ _)
    rw [Option.isSome_none, Bool.false_and, if_neg Bool.false_ne_true]
    refine h.take hcons rfl ?_ (fun hopen => ?_) _ _
    · rw [haudio, Option.toList_none, List.append_nil]
      exact h.queue
    · rw [haudio]
      exact h.dropped hopen
  | some packet =>
    cases event with
    | audioReceived sessionId opusData seqNum =>
      have hlength := h.dropped
      rcases s.trySend_cases with ⟨hclosed, hgone⟩ | ⟨hfull, htakes⟩ | ⟨hok, htakes⟩
      · rw [hclosed]
        apply hend
        refine h.take hcons rfl (h.queue.trans (List.sublist_append_left _ _)) (fun hopen => ?_) _ _
        rw [hgone] at hopen
        cases hopen
      · rw [hfull]
        apply hend
        refine h.take hcons rfl (h.queue.trans (List.sublist_append_left _ _)) (fun hopen => ?_) _ _
        rw [hlength hopen]
        rfl
      · rw [hok]
        apply hend
        obtain ⟨_, hsent, _, _⟩ := Mpsc.send_of_takes (a := (sessionId, opusData)) htakes
        refine h.take hcons Mpsc.received_send ?_ (fun hopen => ?_) _ _
        · rw [hsent]
          exact h.queue.append (List.Sublist.refl _)
        · rw [Mpsc.closed_send] at hopen
          rw [hsent, List.length_append, hlength hopen]
          show _ + 1 = (_ + 1) + s.droppedDecoderFrames
          omega
    | _ => cases haudio

/-! ### The mixed decoder -/

theorem Hears.endDecoder (h : s.Hears config) : s.endDecoder.Hears config := by
  refine { h with dropped := fun hopen => ?_ }
  cases hopen

theorem Hears.mixTick (h : s.Hears config) (order : List UInt32) (now : Nat) :
    (s.mixTick opus config order now).Hears config := by
  have hpushes := h.pushes
  refine { h with arrived := h.arrived.tick, pushes := ?_ }
  show ((s.mixer.frame opus config.mixer order).elim s.audio fun frame =>
      s.audio.next config.mixer.frameSamples (.decoderPushes frame.samples)).pushes.map
        RingBuffer.Pushed.elements
    = (s.mixer.emitted ++ (s.mixer.frame opus config.mixer order).toList).map MixedFrame.samples
  cases s.mixer.frame opus config.mixer order with
  | none =>
    rw [Option.toList_none, List.append_nil]
    exact hpushes
  | some frame =>
    rw [Option.toList_some, List.map_append, ← hpushes]
    exact List.map_append

theorem Hears.mixPacket (h : s.Hears config) (decoder : Option δ) (now : Nat) :
    (s.mixPacket opus config decoder now).Hears config := by
  unfold HearingPath.mixPacket
  split
  · exact h
  · rename_i sessionId opusData rest hcons
    refine { h with arrived := ?_, sounds := ?_, pushes := ?_ }
    · show (s.mixer.packet config.mixer sessionId opusData decoder now).ArrivedFrom s.opusQueue.recv.received
      rw [Mpsc.received_recv hcons]
      exact h.arrived.packet sessionId opusData decoder
    · show (s.mixer.packet config.mixer sessionId opusData decoder now).sounds = _
      unfold Mixer.packet
      split
      · exact h.sounds
      · split <;> exact h.sounds
    · show _ = (s.mixer.packet config.mixer sessionId opusData decoder now).emitted.map MixedFrame.samples
      unfold Mixer.packet
      split
      · exact h.pushes
      · split <;> exact h.pushes

theorem Hears.mixSound (h : s.Hears config) : (s.mixSound opus config).Hears config := by
  unfold HearingPath.mixSound
  split
  · exact h
  · rename_i pcm rest hcons
    refine { h with sounds := ?_ }
    show s.mixer.sounds ++ [pcm] = s.sounds.recv.received
    rw [Mpsc.received_recv hcons, h.sounds]

theorem pushes_next {audio : AudioPath ring} {a : PathAction ring} (hnot : a.ofDecoder = false)
    (frameSamples : Nat) : (audio.next frameSamples a).pushes = audio.pushes := by
  cases a with
  | decoderPushes mixedFrame => cases hnot
  | putFrame frame =>
    rcases audio.portPutFrame_cases frame with ⟨_, hsame⟩ | ⟨_, _, hpush⟩
    · simp only [AudioPath.next, hsame]
    · simp only [AudioPath.next, hpush]
  | getFrame frame =>
    rcases audio.portGetFrame_cases frame with ⟨_, hget⟩ | ⟨_, _, hget⟩
    · simp only [AudioPath.next, hget]
    · simp only [AudioPath.next, hget]
  | _ => rfl

theorem Hears.next (h : s.Hears config) {a : HearingAction ring δ} (hen : s.enabled a) :
    (s.next opus config a).Hears config := by
  cases a with
  | receive packet => exact h.receive hen packet
  | streamEnds => exact h.streamEnds hen
  | handle text => exact h.handle hen.2 text
  | navigate channelId => exact { h with }
  | sendSound pcm => exact { h with sounds := h.sounds.trans Mpsc.received_send.symm }
  | mixTick order now => exact h.mixTick order now
  | mixPacket decoder now => exact h.mixPacket decoder now
  | mixSound => exact h.mixSound
  | packetsClosed | abortDecoder => exact h.endDecoder
  | soundsClosed => exact { h with }
  | audio a =>
    refine { h with pushes := ?_ }
    show (s.audio.next config.mixer.frameSamples a).pushes.map _ = _
    rw [pushes_next hen.2]
    exact h.pushes
  | abortHandler => exact h.endHandler

theorem deliverAll_frame {γ : Type*} (f : HearingPath ring δ → γ) {outputs : List Output}
    (hf : ∀ output ∈ outputs, ∀ s, f (deliver config s output) = f s) (s : HearingPath ring δ) :
    f (outputs.foldl (deliver config) s) = f s := by
  induction outputs generalizing s with
  | nil => rfl
  | cons output outputs ih =>
    exact (ih (fun output' hmem => hf output' (List.mem_cons_of_mem _ hmem)) _).trans
      (hf output List.mem_cons_self s)

theorem deliver_rest (s : HearingPath ring δ) (output : Output) :
    (s.deliver config output).mixer = s.mixer ∧ (s.deliver config output).audio = s.audio := by
  cases output <;> exact ⟨rfl, rfl⟩

theorem handle_rest (s : HearingPath ring δ) (text : Bool) :
    (s.handle config text).mixer = s.mixer ∧ (s.handle config text).audio = s.audio := by
  cases hqueue : s.events.queue with
  | nil => simp only [HearingPath.handle, hqueue, and_self]
  | cons event rest =>
    rw [handle_eq hqueue]
    dsimp only
    split
    · exact ⟨deliverAll_frame HearingPath.mixer (fun output _ s => (s.deliver_rest output).1) _,
        deliverAll_frame HearingPath.audio (fun output _ s => (s.deliver_rest output).2) _⟩
    · exact ⟨deliverAll_frame HearingPath.mixer (fun output _ s => (s.deliver_rest output).1) _,
        deliverAll_frame HearingPath.audio (fun output _ s => (s.deliver_rest output).2) _⟩

theorem audio_reachable {dropped underflow : UInt64}
    (hs : (hearingPath ring opus config dropped underflow).Reachable s) :
    (audioPath ring config.mixer.frameSamples dropped underflow).Reachable s.audio := by
  apply hs.map (U := audioPath ring config.mixer.frameSamples dropped underflow) HearingPath.audio
  · rintro s rfl
    rfl
  · intro s a hen _
    cases a with
    | handle text => exact .inl (s.handle_rest text).2
    | mixTick order now =>
      show (s.mixer.frame opus config.mixer order).elim s.audio _ = s.audio ∨ ∃ b, _ ∧ _ ∧ _ = Option.elim _ _ _
      cases s.mixer.frame opus config.mixer order with
      | none => exact .inl rfl
      | some frame => exact .inr ⟨.decoderPushes frame.samples, trivial, trivial, rfl⟩
    | mixPacket decoder now =>
      left
      show (s.mixPacket opus config decoder now).audio = s.audio
      unfold HearingPath.mixPacket
      split <;> rfl
    | mixSound =>
      left
      show (s.mixSound opus config).audio = s.audio
      unfold HearingPath.mixSound
      split <;> rfl
    | audio a => exact .inr ⟨a, hen.1, trivial, rfl⟩
    | _ => exact .inl rfl

end HearingPath

/-- A queue for one packet; all sounds are one sample. -/
def shortQueue : HearingConfig where
  client := ⟨7, some 1, 2, ∅⟩
  userNames := ∅
  initialChannelId := 1
  ttsEnabled := false
  queueCapacity := 1
  getSound _ := [100]
  mixer := ⟨8000, 3⟩

end MumbleSip
