import MumbleSip.Session.HearingFlow

/-!
# How the way into a call ends

When the stream to the server has ended, the event handler still takes every event that is queued, the last of
which tells it to end, and the mixed decoder still takes every packet that it has been sent before it stops. Both
need a bounded number of steps for that. Only an abort loses something.
-/

namespace MumbleSip

open Transition

namespace HearingPath

variable {ring : RingBuffer Int16} {δ : Type} {opus : Opus δ} {config : HearingConfig} {s : HearingPath ring δ}

/-- No task is aborted. -/
def undisturbed (_ : HearingPath ring δ) : HearingAction ring δ → Prop
  | .abortHandler | .abortDecoder => False
  | _ => True

/-- The turns that are left to the handler and the mixed decoder when there is nothing new. -/
def winds (_ : HearingPath ring δ) : HearingAction ring δ → Prop
  | .handle _ | .mixPacket _ _ | .packetsClosed => True
  | _ => False

instance (s : HearingPath ring δ) : ∀ a : HearingAction ring δ, Decidable (s.undisturbed a)
  | .abortHandler | .abortDecoder => inferInstanceAs (Decidable False)
  | .receive _ | .streamEnds | .handle _ | .navigate _ | .sendSound _ | .mixTick _ _ | .mixPacket _ _ | .mixSound
  | .packetsClosed | .soundsClosed | .audio _ => inferInstanceAs (Decidable True)

instance (s : HearingPath ring δ) : ∀ a : HearingAction ring δ, Decidable (s.winds a)
  | .handle _ | .mixPacket _ _ | .packetsClosed => inferInstanceAs (Decidable True)
  | .receive _ | .streamEnds | .navigate _ | .sendSound _ | .mixTick _ _ | .mixSound | .soundsClosed | .audio _
  | .abortHandler | .abortDecoder => inferInstanceAs (Decidable False)

/-- Each event takes a turn of the handler, and one of the mixed decoder at most. -/
def left (s : HearingPath ring δ) : Nat :=
  2 * s.events.queue.length + s.opusQueue.queue.length + if s.mixer.stopped then 0 else 1

/-- What holds in a run in which no task is aborted. -/
structure Undisturbed (config : HearingConfig) (s : HearingPath ring δ) : Prop where
  hears : s.Hears config
  running : s.handler.running = !s.events.closed
  waiting : s.events.closed = false → .disconnected ∉ s.events.received
  drained : s.events.closed = true →
    s.events.received = eventsOf s.packets config.userNames ++ [.disconnected]
  decoder : s.opusQueue.closed = s.mixer.stopped
  finished : s.mixer.stopped = true → s.events.closed = true ∧ s.opusQueue.received = s.opusQueue.sent ∧
    (audioOf s.events.received).length = s.opusQueue.sent.length + s.droppedDecoderFrames

theorem undisturbed_start (dropped underflow : UInt64) :
    (start config dropped underflow : HearingPath ring δ).Undisturbed config where
  hears := hears_start dropped underflow
  running := rfl
  waiting _ := List.not_mem_nil
  drained h := by cases h
  decoder := rfl
  finished h := by cases h

/-! ### A turn of the handler -/

theorem disconnected_notMem_eventsOf (packets : List Packet) (userNames : UserNames) :
    MumbleEvent.disconnected ∉ eventsOf packets userNames := by
  induction packets generalizing userNames with
  | nil => exact List.not_mem_nil
  | cons packet packets ih =>
    rw [eventsOf, List.mem_append, not_or]
    refine ⟨?_, ih _⟩
    cases packet with
    | userState msg => cases hchannel : msg.channelId <;> simp [handlePacket, hchannel]
    | channelState channelId name => cases channelId <;> cases name <;> simp [handlePacket]
    | _ => simp [handlePacket]

theorem eq_of_append_cons {α : Type*} {xs ys zs : List α} {a : α} (h : xs ++ a :: ys = zs ++ [a])
    (hnot : a ∉ zs) : xs = zs ∧ ys = [] := by
  rcases List.append_eq_append_iff.1 h with ⟨rest, hzs, hrest⟩ | ⟨rest, hxs, hrest⟩
  · cases rest with
    | nil =>
      cases hrest
      exact ⟨(hzs.trans (List.append_nil _)).symm, rfl⟩
    | cons b rest =>
      cases hrest
      exact absurd (hzs ▸ List.mem_append_right _ List.mem_cons_self) hnot
  · cases rest with
    | nil =>
      cases hrest
      exact ⟨hxs.trans (List.append_nil _), rfl⟩
    | cons b rest =>
      cases rest <;> cases hrest

/-- While the decoder is there, only the end of the connection ends the handler. -/
theorem running_handleEvent (handler : EventHandler) (event : MumbleEvent) {result : TrySend}
    (hopen : result ≠ .closed) (text : Bool) :
    (handler.handleEvent event result text).1.running = (handler.running && event != .disconnected) := by
  have hother : event ≠ .disconnected → (handler.running && event != .disconnected) = handler.running := by
    intro hne
    rw [bne_iff_ne.2 hne, Bool.and_true]
  cases event with
  | audioReceived sessionId opusData seqNum =>
    rw [hother (by simp)]
    cases result with
    | closed => exact absurd rfl hopen
    | _ => rfl
  | userChangedChannel sessionId channelId =>
    rw [hother (by simp)]
    simp only [EventHandler.handleEvent, EventHandler.userChangedChannel]
    split
    · rfl
    · split
      · rfl
      · split <;> rfl
  | disconnected => simp [EventHandler.handleEvent]
  | _ =>
    rw [hother (by simp)]
    rfl

theorem running_checkWatch (handler : EventHandler) (watch : Watch) :
    (handler.checkWatch watch).1.running = handler.running := by
  unfold EventHandler.checkWatch
  split <;> rfl

/-- What the deliveries of the handler keep. -/
structure Keeps (s s' : HearingPath ring δ) : Prop where
  events : s'.events = s.events
  handler : s'.handler = s.handler
  packets : s'.packets = s.packets
  receiving : s'.receiving = s.receiving
  mixer : s'.mixer = s.mixer
  closed : s'.opusQueue.closed = s.opusQueue.closed
  received : s'.opusQueue.received = s.opusQueue.received

theorem keeps_deliver (s : HearingPath ring δ) (output : Output) : Keeps s (s.deliver config output) := by
  cases output with
  | opus sessionId opusData => exact ⟨rfl, rfl, rfl, rfl, rfl, Mpsc.closed_send, Mpsc.received_send⟩
  | _ => exact ⟨rfl, rfl, rfl, rfl, rfl, rfl, rfl⟩

theorem keeps_deliverAll (s : HearingPath ring δ) (outputs : List Output) :
    Keeps s (outputs.foldl (deliver config) s) := by
  induction outputs generalizing s with
  | nil => exact ⟨rfl, rfl, rfl, rfl, rfl, rfl, rfl⟩
  | cons output outputs ih =>
    have hfirst : Keeps s (s.deliver config output) := s.keeps_deliver output
    have hrest := ih (s.deliver config output)
    exact ⟨hrest.events.trans hfirst.events, hrest.handler.trans hfirst.handler,
      hrest.packets.trans hfirst.packets, hrest.receiving.trans hfirst.receiving,
      hrest.mixer.trans hfirst.mixer, hrest.closed.trans hfirst.closed, hrest.received.trans hfirst.received⟩

/-- What a turn does to the events and to the mixed decoder. -/
structure Turn (s s' : HearingPath ring δ) (event : MumbleEvent) : Prop where
  events : s'.events = if event = .disconnected then s.events.recv.close else s.events.recv
  running : s'.handler.running = (event != .disconnected)
  packets : s'.packets = s.packets
  receiving : s'.receiving = (s.receiving && event != .disconnected)
  mixer : s'.mixer = s.mixer
  closed : s'.opusQueue.closed = s.opusQueue.closed
  received : s'.opusQueue.received = s.opusQueue.received
  queue : s'.opusQueue.queue.length ≤ s.opusQueue.queue.length + 1

theorem trySend_ne_closed (hdecoder : s.opusQueue.closed = false) : s.trySend ≠ .closed := by
  rcases s.trySend_cases with ⟨_, hclosed⟩ | ⟨hfull, _⟩ | ⟨hok, _⟩
  · rw [hdecoder] at hclosed
    cases hclosed
  · rw [hfull]
    decide
  · rw [hok]
    decide

theorem length_queue_deliverAll {event : MumbleEvent} (handler : EventHandler) (result : TrySend) (text : Bool)
    (s : HearingPath ring δ) :
    ((handler.handleEvent event result text).2.foldl (deliver config) s).opusQueue.queue.length
      ≤ s.opusQueue.queue.length + 1 := by
  cases haudio : event.audio with
  | none =>
    rw [deliverAll_frame (fun s => s.opusQueue.queue.length)]
    · exact Nat.le_succ _
    · intro output hmem s
      have haside := aside_handleEvent haudio result text output hmem
      cases output with
      | opus sessionId opusData => cases haside
      | _ => rfl
  | some packet =>
    cases event with
    | audioReceived sessionId opusData seqNum =>
      cases result with
      | ok =>
        show (s.opusQueue.send (sessionId, opusData)).queue.length ≤ _
        cases htakes : s.opusQueue.takes with
        | true => rw [(Mpsc.send_of_takes htakes).1, List.length_append, List.length_singleton]
        | false =>
          rw [Mpsc.send_of_not_takes htakes]
          exact Nat.le_succ _
      | _ => exact Nat.le_succ _
    | _ => cases haudio

theorem turn_handle {event : MumbleEvent} {rest : List MumbleEvent} (hcons : s.events.queue = event :: rest)
    (hrunning : s.handler.running = true) (hdecoder : s.opusQueue.closed = false) (text : Bool) :
    Turn s (s.handle config text) event := by
  have hrun : (s.taken event text).handler.running = (event != .disconnected) := by
    show ((s.handler.checkWatch s.watch).1.handleEvent event s.trySend text).1.running = _
    rw [running_handleEvent _ _ (trySend_ne_closed hdecoder), running_checkWatch, hrunning, Bool.true_and]
  have hlength : ((s.outputsFor event text).foldl (deliver config) (s.taken event text)).opusQueue.queue.length
      ≤ s.opusQueue.queue.length + 1 :=
    length_queue_deliverAll _ _ _ (s.taken event text)
  have hkeeps : Keeps (s.taken event text) ((s.outputsFor event text).foldl (deliver config) (s.taken event text)) :=
    keeps_deliverAll _ _
  rw [handle_eq hcons, hrun]
  dsimp only
  generalize (s.outputsFor event text).foldl (deliver config) (s.taken event text) = s' at hlength hkeeps ⊢
  by_cases hlast : event = .disconnected
  · rw [if_neg (by simp [hlast])]
    refine ⟨?_, ?_, hkeeps.packets, ?_, hkeeps.mixer, hkeeps.closed, hkeeps.received, hlength⟩
    · rw [if_pos hlast]
      exact congrArg Mpsc.close hkeeps.events
    · exact (congrArg EventHandler.running hkeeps.handler).trans hrun
    · rw [hlast, bne_self_eq_false, Bool.and_false]
      rfl
  · rw [if_pos (bne_iff_ne.2 hlast)]
    refine ⟨?_, ?_, hkeeps.packets, ?_, hkeeps.mixer, hkeeps.closed, hkeeps.received, hlength⟩
    · rw [if_neg hlast]
      exact hkeeps.events
    · exact (congrArg EventHandler.running hkeeps.handler).trans hrun
    · rw [bne_iff_ne.2 hlast, Bool.and_true]
      exact hkeeps.receiving

theorem Undisturbed.last (h : s.Undisturbed config) (hopen : s.events.closed = false)
    {rest : List MumbleEvent} (hcons : s.events.queue = .disconnected :: rest) :
    s.events.received = eventsOf s.packets config.userNames ∧ s.receiving = false := by
  have hcarries := s.events.carries hopen
  rw [hcons, h.hears.events hopen, lastEvent] at hcarries
  have hnot := disconnected_notMem_eventsOf s.packets config.userNames
  split at hcarries
  · rw [List.append_nil] at hcarries
    exact absurd (hcarries ▸ List.mem_append_right _ List.mem_cons_self) hnot
  · rename_i hreceiving
    exact ⟨(eq_of_append_cons hcarries hnot).1, Bool.eq_false_of_not_eq_true hreceiving⟩

theorem Undisturbed.turn (h : s.Undisturbed config) (hopen : s.events.closed = false) {event : MumbleEvent}
    {rest : List MumbleEvent} (hcons : s.events.queue = event :: rest) (text : Bool) :
    s.mixer.stopped = false ∧ Turn s (s.handle config text) event := by
  have hstopped : s.mixer.stopped = false := by
    by_contra hstopped
    rw [(h.finished (Bool.eq_true_of_not_eq_false hstopped)).1] at hopen
    cases hopen
  refine ⟨hstopped, turn_handle hcons ?_ (h.decoder.trans hstopped) text⟩
  rw [h.running, hopen, Bool.not_false]

theorem Undisturbed.handle (h : s.Undisturbed config) (hopen : s.events.closed = false)
    (hqueue : s.events.queue ≠ []) (text : Bool) : (s.handle config text).Undisturbed config := by
  obtain ⟨event, rest, hcons⟩ := List.exists_cons_of_ne_nil hqueue
  obtain ⟨hstopped, hturn⟩ := h.turn hopen hcons text
  refine ⟨h.hears.handle hqueue text, ?_, fun hopen' => ?_, fun hclosed => ?_, ?_, fun hfinished => ?_⟩
  · rw [hturn.running, hturn.events]
    split
    · rename_i hlast
      rw [hlast]
      rfl
    · rename_i hlast
      rw [bne_iff_ne.2 hlast, Mpsc.closed_recv, hopen, Bool.not_false]
  · rw [hturn.events] at hopen' ⊢
    split at hopen'
    · cases hopen'
    · rename_i hlast
      rw [if_neg hlast, Mpsc.received_recv hcons, List.mem_append, List.mem_singleton, not_or]
      exact ⟨h.waiting hopen, Ne.symm hlast⟩
  · rw [hturn.events] at hclosed ⊢
    rw [hturn.packets]
    split
    · rename_i hlast
      rw [hlast] at hcons
      rw [Mpsc.received_close, Mpsc.received_recv hcons, (h.last hopen hcons).1]
    · rename_i hlast
      rw [if_neg hlast, Mpsc.closed_recv, hopen] at hclosed
      cases hclosed
  · rw [hturn.closed, hturn.mixer, h.decoder]
  · rw [hturn.mixer, hstopped] at hfinished
    cases hfinished

/-! ### Every step -/

theorem Undisturbed.mixPacket (h : s.Undisturbed config) (decoder : Option δ) (now : Nat)
    (hstopped : s.mixer.stopped = false) : (s.mixPacket opus config decoder now).Undisturbed config := by
  have hears : (s.mixPacket opus config decoder now).Hears config := h.hears.mixPacket decoder now
  unfold HearingPath.mixPacket at hears ⊢
  split at hears
  · exact h
  · rename_i sessionId opusData rest hcons
    have hsame : (s.mixer.next opus config.mixer (.packet sessionId opusData decoder now)).stopped = false := by
      show (s.mixer.packet config.mixer sessionId opusData decoder now).stopped = false
      unfold Mixer.packet
      split
      · exact hstopped
      · split <;> exact hstopped
    refine ⟨hears, h.running, h.waiting, h.drained, ?_, fun hfinished => ?_⟩
    · exact h.decoder.trans (hstopped.trans hsame.symm)
    · rw [hsame] at hfinished
      cases hfinished

theorem Undisturbed.extend (h : s.Undisturbed config) (hreceiving : s.receiving = true) {s' : HearingPath ring δ}
    (hears : s'.Hears config) (hhandler : s'.handler = s.handler) (hclosed : s'.events.closed = s.events.closed)
    (hreceived : s'.events.received = s.events.received) (hqueue : s'.opusQueue = s.opusQueue)
    (hmixer : s'.mixer = s.mixer) : s'.Undisturbed config := by
  have hopen := h.hears.open_of_receiving hreceiving
  refine ⟨hears, ?_, fun _ => ?_, fun hend => ?_, ?_, fun hfinished => ?_⟩
  · rw [hhandler, hclosed, h.running]
  · rw [hreceived]
    exact h.waiting hopen
  · rw [hclosed, hopen] at hend
    cases hend
  · rw [hqueue, hmixer, h.decoder]
  · rw [hmixer] at hfinished
    rw [(h.finished hfinished).1] at hopen
    cases hopen

theorem Undisturbed.endDecoder (h : s.Undisturbed config) (hstopped : s.mixer.stopped = false)
    (hqueue : s.opusQueue.queue = []) (hended : s.events.closed = true) : s.endDecoder.Undisturbed config := by
  refine ⟨h.hears.endDecoder, h.running, h.waiting, h.drained, rfl,
    fun _ => ⟨hended, ?_, h.hears.dropped (h.decoder.trans hstopped)⟩⟩
  have hcarries := s.opusQueue.carries (h.decoder.trans hstopped)
  rw [hqueue, List.append_nil] at hcarries
  exact hcarries

theorem Undisturbed.next (h : s.Undisturbed config) {a : HearingAction ring δ} (hen : s.enabled a)
    (hok : s.undisturbed a) : (s.next opus config a).Undisturbed config := by
  have hears : (s.next opus config a).Hears config := h.hears.next hen
  cases a with
  | receive packet =>
    cases hevent : (handlePacket packet s.userNames).1 with
    | none =>
      have hsame := congrArg HearingPath.events (receive_none hevent)
      exact h.extend hen hears rfl (congrArg Mpsc.closed hsame) (congrArg Mpsc.received hsame) rfl rfl
    | some event =>
      have hsent := congrArg HearingPath.events (receive_some hevent)
      exact h.extend hen hears rfl ((congrArg Mpsc.closed hsent).trans Mpsc.closed_send)
        ((congrArg Mpsc.received hsent).trans Mpsc.received_send) rfl rfl
  | streamEnds => exact h.extend hen hears rfl Mpsc.closed_send Mpsc.received_send rfl rfl
  | handle text => exact h.handle hen.1 hen.2 text
  | mixPacket decoder now => exact h.mixPacket decoder now hen.1
  | mixSound =>
    obtain ⟨pcm, rest, hcons⟩ := List.exists_cons_of_ne_nil hen.2
    have hmix : s.next opus config .mixSound
        = { s with sounds := s.sounds.recv, mixer := s.mixer.next opus config.mixer (.sound pcm) } := by
      show s.mixSound opus config = _
      rw [HearingPath.mixSound, hcons]
    rw [hmix] at hears ⊢
    exact { h with hears := hears }
  | packetsClosed => exact h.endDecoder hen.1 hen.2.1 hen.2.2
  | navigate _ | sendSound _ | mixTick _ _ | soundsClosed | audio _ => exact { h with hears := hears }
  | abortHandler | abortDecoder => exact hok.elim

theorem undisturbed_of_reaches {dropped underflow : UInt64}
    (hs : (hearingPath ring opus config dropped underflow).Reaches undisturbed s) : s.Undisturbed config := by
  apply hs.invariant (I := Undisturbed config)
  · rintro s rfl
    exact undisturbed_start dropped underflow
  · intro s a _ h hen hok
    exact h.next hen hok

/-! ### Winding down -/

/-- The stream has ended, after these packets. -/
structure Winding (config : HearingConfig) (packets : List Packet) (s : HearingPath ring δ) : Prop where
  undisturbed : s.Undisturbed config
  ended : s.receiving = false
  packets : s.packets = packets

theorem undisturbed_of_winds {a : HearingAction ring δ} (hok : s.winds a) : s.undisturbed a := by
  cases a <;> first | exact trivial | exact hok.elim

theorem Winding.next {packets : List Packet} (h : s.Winding config packets) {a : HearingAction ring δ}
    (hen : s.enabled a) (hok : s.winds a) :
    (s.next opus config a).Winding config packets ∧ (s.next opus config a).left < s.left := by
  have hnext : (s.next opus config a).Undisturbed config := h.undisturbed.next hen (undisturbed_of_winds hok)
  cases a with
  | handle text =>
    obtain ⟨event, rest, hcons⟩ := List.exists_cons_of_ne_nil hen.2
    obtain ⟨_, hturn⟩ := h.undisturbed.turn hen.1 hcons text
    refine ⟨⟨hnext, ?_, hturn.packets.trans h.packets⟩, ?_⟩
    · show (s.handle config text).receiving = false
      rw [hturn.receiving, h.ended, Bool.false_and]
    · show (s.handle config text).left < s.left
      have hevents : (s.handle config text).events.queue.length ≤ rest.length := by
        rw [hturn.events]
        split
        · exact Nat.zero_le _
        · show s.events.queue.tail.length ≤ _
          rw [hcons]
          exact Nat.le_refl _
      have hqueue := hturn.queue
      rw [left, left, hturn.mixer, hcons, List.length_cons]
      omega
  | mixPacket decoder now =>
    obtain ⟨⟨sessionId, opusData⟩, rest, hcons⟩ := List.exists_cons_of_ne_nil hen.2
    have hmix : s.next opus config (.mixPacket decoder now) = { s with
        opusQueue := s.opusQueue.recv
        mixer := s.mixer.next opus config.mixer (.packet sessionId opusData decoder now) } := by
      show s.mixPacket opus config decoder now = _
      rw [HearingPath.mixPacket, hcons]
    rw [hmix] at hnext ⊢
    refine ⟨⟨hnext, h.ended, h.packets⟩, ?_⟩
    show 2 * s.events.queue.length + s.opusQueue.queue.tail.length + _ < _
    rw [left, hen.1, hcons, List.tail_cons, List.length_cons]
    show _ + (if _ then 0 else 1) < _ + 1
    split <;> omega
  | packetsClosed =>
    refine ⟨⟨hnext, h.ended, h.packets⟩, ?_⟩
    show 2 * s.events.queue.length + 0 + 0 < s.left
    rw [left, hen.1]
    exact Nat.lt_succ_of_le (Nat.add_le_add_left (Nat.zero_le _) _)
  | _ => exact hok.elim

theorem decreases_left (packets : List Packet) (dropped underflow : UInt64) :
    (hearingPath ring opus config dropped underflow).Decreases winds (Winding config packets) left where
  keeps _ _ h hen hok := (h.next hen hok).1
  lt _ _ h hen hok := (h.next hen hok).2

theorem Winding.events_eq {packets : List Packet} (h : s.Winding config packets) :
    s.events.received ++ s.events.queue = eventsOf packets config.userNames ++ [.disconnected] := by
  cases hclosed : s.events.closed with
  | true => rw [s.events.emptied hclosed, List.append_nil, h.undisturbed.drained hclosed, h.packets]
  | false =>
    rw [s.events.carries hclosed, h.undisturbed.hears.events hclosed, lastEvent, h.ended, h.packets]
    rfl

/-- Whoever has a turn left can take it. -/
theorem Winding.exists_step {packets : List Packet} (h : s.Winding config packets)
    (hstopped : s.mixer.stopped = false) : ∃ a, s.enabled a ∧ s.winds a := by
  cases hclosed : s.events.closed with
  | false =>
    refine ⟨.handle true, ⟨hclosed, fun hnil => ?_⟩, trivial⟩
    have hevents := h.events_eq
    rw [hnil, List.append_nil] at hevents
    apply h.undisturbed.waiting hclosed
    rw [hevents]
    exact List.mem_append_right _ List.mem_cons_self
  | true =>
    by_cases hqueue : s.opusQueue.queue = []
    · exact ⟨.packetsClosed, ⟨hstopped, hqueue, hclosed⟩, trivial⟩
    · exact ⟨.mixPacket none 0, ⟨hstopped, hqueue⟩, trivial⟩

end HearingPath

/-- When the stream has ended, and as long as no task is aborted, the handler has taken the events of the packets,
and their end, or has them queued. In any order the turns that are left are at most two an event, and one a
packet and one for the end of the mixed decoder; and whoever takes no more of them has had the handler take all
events and end, and the mixed decoder take every packet it was sent, which are all those of the server but the
ones counted as dropped. -/
theorem hearing_winds_down {ring : RingBuffer Int16} {δ : Type} {opus : Opus δ} {config : HearingConfig}
    {dropped underflow : UInt64} {s : HearingPath ring δ}
    (hs : (hearingPath ring opus config dropped underflow).Reaches HearingPath.undisturbed s)
    (hended : s.receiving = false) :
    s.events.received ++ s.events.queue = eventsOf s.packets config.userNames ++ [.disconnected] ∧
    ∀ n s', (hearingPath ring opus config dropped underflow).Steps HearingPath.winds s n s' →
      n ≤ s.left ∧
      ((hearingPath ring opus config dropped underflow).Stuck HearingPath.winds s' →
        s'.events.received = eventsOf s.packets config.userNames ++ [.disconnected] ∧
        s'.events.closed = true ∧ s'.mixer.stopped = true ∧ s'.opusQueue.received = s'.opusQueue.sent ∧
        s'.opusQueue.received.Sublist (s.packets.filterMap Packet.tunnelled) ∧
        (s.packets.filterMap Packet.tunnelled).length
          = s'.opusQueue.received.length + s'.droppedDecoderFrames) := by
  have h : s.Winding config s.packets := ⟨HearingPath.undisturbed_of_reaches hs, hended, rfl⟩
  have hdecreases : (hearingPath ring opus config dropped underflow).Decreases _ _ _ :=
    HearingPath.decreases_left s.packets dropped underflow
  refine ⟨h.events_eq, fun n s' hsteps => ⟨?_, fun hstuck => ?_⟩⟩
  · have hle := hsteps.add_le hdecreases h
    omega
  · have h' := hsteps.invariant hdecreases h
    have hstopped : s'.mixer.stopped = true := by
      by_contra hrunning
      obtain ⟨a, hen, hwinds⟩ := h'.exists_step (Bool.eq_false_of_not_eq_true hrunning)
      exact hstuck a hen hwinds
    obtain ⟨hclosed, hreceived, hcounted⟩ := h'.undisturbed.finished hstopped
    have hevents := h'.undisturbed.drained hclosed
    rw [h'.packets] at hevents
    have haudio : audioOf s'.events.received = s.packets.filterMap Packet.tunnelled := by
      rw [hevents, audioOf, List.filterMap_append, ← audioOf_eventsOf s.packets config.userNames]
      exact List.append_nil _
    refine ⟨hevents, hclosed, hstopped, hreceived, ?_, ?_⟩
    · rw [hreceived, ← haudio]
      exact h'.undisturbed.hears.queue
    · rw [hreceived, ← haudio]
      exact hcounted

/-- The handler and the mixed decoder have ended after one packet was dropped. -/
def endedShort (s : HearingPath (.bounded Int16 100) Unit) : Bool :=
  s.events.closed && s.mixer.stopped && decide (s.droppedDecoderFrames = 1)

/-- The stream ends with two packets in the queue of the handler, and there is room for one of them. -/
theorem hearing_winds_down_packets :
    ∃ s s', (hearingPath (.bounded Int16 100) silentOpus shortQueue 0 0).Reaches HearingPath.undisturbed s ∧
      (hearingPath (.bounded Int16 100) silentOpus shortQueue 0 0).Steps HearingPath.winds s 5 s' ∧
      s'.droppedDecoderFrames = 1 ∧ s'.opusQueue.received.length = 1 ∧ 5 ≤ s.left ∧
      s'.events.received = [.audioReceived 5 [0xF0] 0, .audioReceived 5 [0xF0] 1, .disconnected] := by
  obtain ⟨s, hs, hdone⟩ := System.exists_reaches_of_run (hearingPath (.bounded Int16 100) silentOpus shortQueue 0 0)
    HearingPath.undisturbed (s := .start shortQueue 0 0) rfl
    [.receive (.udpTunnel 5 0 [0xF0]), .receive (.udpTunnel 5 1 [0xF0]), .streamEnds]
    (fun s => !s.receiving && decide (s.packets = [.udpTunnel 5 0 [0xF0], .udpTunnel 5 1 [0xF0]]) &&
      ((hearingPath (.bounded Int16 100) silentOpus shortQueue 0 0).run HearingPath.winds s
        [.handle true, .handle true, .handle true, .mixPacket none 0, .packetsClosed]).any endedShort)
    (by decide)
  simp only [endedShort, Bool.and_eq_true, Bool.not_eq_true', decide_eq_true_iff, Option.any_eq_true] at hdone
  obtain ⟨⟨hended, hpackets⟩, s', hrun, ⟨hclosed, hstopped⟩, hdropped⟩ := hdone
  have hsteps := System.Steps.refl.run hrun
  have hstuck : (hearingPath (.bounded Int16 100) silentOpus shortQueue 0 0).Stuck HearingPath.winds s' := by
    intro a hen hwinds
    cases a with
    | handle text => exact Bool.false_ne_true (hen.1.symm.trans hclosed)
    | mixPacket decoder now => exact Bool.false_ne_true (hen.1.symm.trans hstopped)
    | packetsClosed => exact Bool.false_ne_true (hen.1.symm.trans hstopped)
    | _ => exact hwinds
  obtain ⟨hle, hafter⟩ := (hearing_winds_down hs hended).2 _ s' hsteps
  obtain ⟨hevents, _, _, _, _, hcounted⟩ := hafter hstuck
  rw [hpackets, hdropped] at hcounted
  rw [hpackets] at hevents
  exact ⟨s, s', hs, hsteps, hdropped, (Nat.succ.inj hcounted).symm, hle, hevents⟩

end MumbleSip
