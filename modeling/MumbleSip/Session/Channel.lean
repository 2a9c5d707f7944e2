import MumbleSip.Lib.Transition
import MumbleSip.Session.EventHandler

/-!
# The channel of a session

One established session with its Mumble server: the caller's DTMF digits, the join requests on their way,
what the server answers or does on its own, and the event handler. The session moves its own copy of the
channel when it asks to join, the event handler its copy when it looks at the watch channel and when the
server confirms. The copies agree with the server as long as the server's last word on a session is the
answer to the last join.
-/

namespace MumbleSip

open Transition

structure Navigation where
  session : ChannelSession
  handler : EventHandler
  userNames : UserNames
  /-- Packets on their way and events not received yet, oldest first. -/
  events : List MumbleEvent
  /-- The join requests that the server has not answered, oldest first. -/
  joins : List ChannelId
  /-- The channel that the server has the bridge's session in, and last confirmed. -/
  serverChannel : ChannelId
  outputs : List Output

inductive NavigationAction
  | dtmf (digit : Char) (sent : Bool)
  /-- The server grants the oldest join request, or leaves it without an answer. -/
  | grant
  | refuse
  /-- An administrator moves the session. -/
  | move (channelId : ChannelId)
  /-- The server sends a packet about anything else. -/
  | packet (packet : Packet)
  | disconnect
  /-- The event handler takes the next event. -/
  | handle (opus : TrySend) (text : Bool)
  deriving DecidableEq

/-- The channel the packet reports for the session. -/
def Packet.ownChannel (our : SessionId) : Packet → Option ChannelId
  | .userState msg => if msg.session.getD 0 = our then msg.channelId else none
  | _ => none

/-- The channel the event reports for the session. -/
def MumbleEvent.ownChannel (our : SessionId) : MumbleEvent → Option ChannelId
  | .userChangedChannel sessionId channelId => if sessionId = our then some channelId else none
  | _ => none

/-- Rejoin the caller's last channel on this server (if it still exists): the initial channel, and the join
request if there is one. `sent` is what `join_channel` answers. -/
def rejoin (client : MumbleClient) (lastChannelId : Option ChannelId) (sent : Bool) :
    ChannelId × Option ChannelId :=
  match lastChannelId with
  | some ch =>
    if ch ≤ client.maxChannelId ∧ ch ≠ client.channelId ∧ sent then (ch, some ch)
    else (client.channelId, none)
  | none => (client.channelId, none)

/-- Initial connect announcement behavior. -/
def connectOutput (client : MumbleClient) (initialChannelId : ChannelId) (ttsEnabled announceOnConnect : Bool) :
    Output :=
  if ttsEnabled ∧ announceOnConnect then
    .announcement initialChannelId (client.channelNames.lookup initialChannelId)
  else .sound .selfJoinedChannel

namespace Navigation

/-- The session that `on_incoming_call` creates, wherever the server has put it. -/
def established (client : MumbleClient) (userNames : UserNames) (lastChannelId : Option ChannelId)
    (sent ttsEnabled : Bool) (callerNumber : Option String) (serverHost : String)
    (serverChannel : ChannelId) : Navigation :=
  let (initialChannelId, join) := rejoin client lastChannelId sent
  { session :=
      { channelWatch := ⟨initialChannelId, false⟩
        currentChannelId := initialChannelId
        maxChannelId := client.maxChannelId
        callerNumber := callerNumber
        serverHost := serverHost }
    handler :=
      { ourSessionId := client.sessionId
        ttsEnabled := ttsEnabled
        userChannels := ∅
        channelNames := client.channelNames
        ourChannelId := initialChannelId
        running := true }
    userNames := userNames
    events := []
    joins := client.targetChannelId.toList ++ join.toList
    serverChannel := serverChannel
    outputs := [] }

/-- The server sends a packet. -/
def send (s : Navigation) (packet : Packet) : Navigation :=
  { s with
    events := s.events ++ (handlePacket packet s.userNames).1.toList
    userNames := (handlePacket packet s.userNames).2 }

/-- The server has moved the session and reports it. -/
def confirm (s : Navigation) (channelId : ChannelId) : Navigation :=
  { s with serverChannel := channelId }.send
    (.userState ⟨some s.handler.ourSessionId, none, some channelId⟩)

def dtmf (s : Navigation) (digit : Char) (sent : Bool) : Navigation :=
  let (session, join, sounds) := s.session.onDtmfDigit digit sent
  { s with
    session := session
    joins := s.joins ++ join.toList
    outputs := s.outputs ++ sounds.map .sound }

def handle (s : Navigation) (opus : TrySend) (text : Bool) : Navigation :=
  match s.events with
  | [] => s
  | event :: events =>
    let (handler, watch) := s.handler.checkWatch s.session.channelWatch
    let (handler, outputs) := handler.handleEvent event opus text
    { s with
      session := { s.session with channelWatch := watch }
      handler := handler
      events := events
      outputs := s.outputs ++ outputs }

/-- What taking the next event sends. -/
def sent (s : Navigation) (opus : TrySend) (text : Bool) : List Output :=
  (s.handle opus text).outputs.drop s.outputs.length

def enabled (s : Navigation) : NavigationAction → Prop
  | .dtmf _ _ => True
  | .grant | .refuse => s.joins ≠ []
  | .move _ => True
  | .packet packet => packet.ownChannel s.handler.ourSessionId = none
  | .disconnect => True
  | .handle _ _ => s.events ≠ [] ∧ s.handler.running = true

instance (s : Navigation) : ∀ a : NavigationAction, Decidable (s.enabled a)
  | .dtmf _ _ | .move _ | .disconnect => inferInstanceAs (Decidable True)
  | .grant | .refuse => inferInstanceAs (Decidable (_ ≠ _))
  | .packet _ => inferInstanceAs (Decidable (_ = _))
  | .handle _ _ => inferInstanceAs (Decidable (_ ∧ _))

def next (s : Navigation) : NavigationAction → Navigation
  | .dtmf digit sent => s.dtmf digit sent
  | .grant =>
    match s.joins with
    | join :: joins => { s with joins := joins }.confirm join
    | [] => s
  | .refuse => { s with joins := s.joins.tail }
  | .move channelId => s.confirm channelId
  | .packet packet => s.send packet
  | .disconnect => { s with events := s.events ++ [.disconnected] }
  | .handle opus text => s.handle opus text

end Navigation

/-- One session, from the moment its event handler starts. -/
def navigation : System Navigation NavigationAction where
  init s := ∃ client userNames lastChannelId sent ttsEnabled callerNumber serverHost serverChannel,
    s = .established client userNames lastChannelId sent ttsEnabled callerNumber serverHost serverChannel
  enabled := Navigation.enabled
  next := Navigation.next

instance (s : Navigation) (a : NavigationAction) : Decidable (navigation.enabled s a) :=
  inferInstanceAs (Decidable (s.enabled a))

instance (s₀ s : Navigation) (a : NavigationAction) :
    Decidable ((navigation.startingAt s₀).enabled s a) :=
  inferInstanceAs (Decidable (s.enabled a))

namespace Navigation

variable {s : Navigation}

/-! ### One event -/

theorem checkWatch_eq (h : EventHandler) (w : Watch) : h.checkWatch w
    = ({ h with ourChannelId := if w.changed then w.value else h.ourChannelId }, ⟨w.value, false⟩) := by
  unfold EventHandler.checkWatch
  split
  · rfl
  · rename_i hchanged
    rw [← Bool.eq_false_iff.2 hchanged]

theorem handle_nil (hevents : s.events = []) (opus : TrySend) (text : Bool) : s.handle opus text = s := by
  simp only [handle, hevents]

theorem handle_cons {event : MumbleEvent} {events : List MumbleEvent} (hevents : s.events = event :: events)
    (opus : TrySend) (text : Bool) : s.handle opus text =
      let handled := (s.handler.checkWatch s.session.channelWatch).1.handleEvent event opus text
      { s with
        session := { s.session with channelWatch := ⟨s.session.channelWatch.value, false⟩ }
        handler := handled.1
        events := events
        outputs := s.outputs ++ handled.2 } := by
  simp only [handle, hevents, checkWatch_eq]

theorem sent_eq {event : MumbleEvent} {events : List MumbleEvent} (hevents : s.events = event :: events)
    (opus : TrySend) (text : Bool) : s.sent opus text
      = ((s.handler.checkWatch s.session.channelWatch).1.handleEvent event opus text).2 := by
  rw [sent, handle_cons hevents]
  exact List.drop_left

theorem sent_of_nil (hevents : s.events = []) (opus : TrySend) (text : Bool) : s.sent opus text = [] := by
  rw [sent, handle_nil hevents, List.drop_length]

/-- A channel is announced for a report that has the session elsewhere than the handler does, under the name that
the handler has for it. -/
theorem announcement_mem_handleEvent {h : EventHandler} {event : MumbleEvent} {opus : TrySend} {text : Bool}
    {c : ChannelId} {name : Option String} : .announcement c name ∈ (h.handleEvent event opus text).2 ↔
      event = .userChangedChannel h.ourSessionId c ∧ h.ttsEnabled = true ∧
        h.userChannels.lookup h.ourSessionId ≠ some c ∧ name = h.channelNames.lookup c := by
  cases event with
  | audioReceived => cases opus <;> simp [EventHandler.handleEvent]
  | userChangedChannel sessionId channelId =>
    simp only [EventHandler.handleEvent, EventHandler.userChangedChannel]
    by_cases hour : sessionId = h.ourSessionId
    · subst sessionId
      rw [if_pos rfl]
      by_cases hannounce : h.ttsEnabled = true ∧ h.userChannels.lookup h.ourSessionId ≠ some channelId
      · rw [if_pos hannounce]
        simp only [List.mem_singleton, Output.announcement.injEq, MumbleEvent.userChangedChannel.injEq, true_and]
        constructor
        · rintro ⟨rfl, rfl⟩
          exact ⟨rfl, hannounce.1, hannounce.2, rfl⟩
        · rintro ⟨rfl, _, _, rfl⟩
          exact ⟨rfl, rfl⟩
      · rw [if_neg hannounce]
        refine iff_of_false List.not_mem_nil ?_
        rintro ⟨heq, htts, hother, _⟩
        cases heq
        exact hannounce ⟨htts, hother⟩
    · rw [if_neg hour]
      have hnot : ¬MumbleEvent.userChangedChannel sessionId channelId = .userChangedChannel h.ourSessionId c :=
        fun heq => hour (MumbleEvent.userChangedChannel.inj heq).1
      split_ifs <;> simp [hnot]
  | userDisconnected sessionId =>
    simp only [EventHandler.handleEvent, EventHandler.userDisconnected]
    split_ifs <;> simp
  | textMessageReceived senderName message =>
    simp only [EventHandler.handleEvent]
    split_ifs <;> simp
  | _ => simp [EventHandler.handleEvent]

theorem handler_next (s : Navigation) {a : NavigationAction} (ha : ∀ opus text, a ≠ .handle opus text) :
    (s.next a).handler = s.handler := by
  cases a with
  | grant =>
    simp only [Navigation.next]
    split <;> rfl
  | handle opus text => exact absurd rfl (ha opus text)
  | _ => rfl

theorem session_next (s : Navigation) (a : NavigationAction) :
    (s.next a).session.maxChannelId = s.session.maxChannelId ∧
      ((s.next a).session.currentChannelId = s.session.currentChannelId ∨
        ∃ digit sent, a = .dtmf digit sent ∧ (s.next a).session = (s.session.onDtmfDigit digit sent).1) := by
  cases a with
  | dtmf digit sent =>
    refine ⟨?_, .inr ⟨digit, sent, rfl, rfl⟩⟩
    show (s.session.onDtmfDigit digit sent).1.maxChannelId = _
    unfold ChannelSession.onDtmfDigit
    split_ifs <;> rfl
  | grant =>
    simp only [Navigation.next]
    split <;> exact ⟨rfl, .inl rfl⟩
  | handle opus text =>
    rw [show s.next (.handle opus text) = s.handle opus text from rfl]
    cases hevents : s.events with
    | nil =>
      rw [handle_nil hevents]
      exact ⟨rfl, .inl rfl⟩
    | cons event events =>
      rw [handle_cons hevents]
      exact ⟨rfl, .inl rfl⟩
  | _ => exact ⟨rfl, .inl rfl⟩

/-! ### What the events will tell the handler -/

/-- The handler's channel once it has taken the queued events. -/
def channelAfter (s : Navigation) : ChannelId :=
  (s.events.filterMap (MumbleEvent.ownChannel s.handler.ourSessionId)).getLast?.getD
    (if s.session.channelWatch.changed ∧ s.events ≠ [] then s.session.channelWatch.value
      else s.handler.ourChannelId)

theorem handleEvent_ourSessionId (h : EventHandler) (event : MumbleEvent) (opus : TrySend) (text : Bool) :
    (h.handleEvent event opus text).1.ourSessionId = h.ourSessionId := by
  cases event with
  | audioReceived => cases opus <;> rfl
  | userChangedChannel sessionId channelId =>
    simp only [EventHandler.handleEvent, EventHandler.userChangedChannel]
    split_ifs <;> rfl
  | _ => rfl

theorem handleEvent_ourChannelId (h : EventHandler) (event : MumbleEvent) (opus : TrySend) (text : Bool) :
    (h.handleEvent event opus text).1.ourChannelId
      = (event.ownChannel h.ourSessionId).getD h.ourChannelId := by
  cases event with
  | audioReceived => cases opus <;> rfl
  | userChangedChannel sessionId channelId =>
    simp only [EventHandler.handleEvent, EventHandler.userChangedChannel, MumbleEvent.ownChannel]
    split_ifs <;> rfl
  | _ => rfl

theorem ownChannel_handlePacket (our : SessionId) (packet : Packet) (userNames : UserNames) :
    (handlePacket packet userNames).1.toList.filterMap (MumbleEvent.ownChannel our)
      = (packet.ownChannel our).toList := by
  cases packet with
  | userState msg =>
    simp only [handlePacket, Packet.ownChannel]
    cases msg.channelId with
    | none => simp
    | some c =>
      by_cases hour : msg.session.getD 0 = our <;> simp [MumbleEvent.ownChannel, hour]
  | _ => rfl

theorem channelAfter_confirm (c : ChannelId) : (s.confirm c).channelAfter = c := by
  have hown := ownChannel_handlePacket s.handler.ourSessionId
    (.userState ⟨some s.handler.ourSessionId, none, some c⟩) s.userNames
  simp only [channelAfter, confirm, send, List.filterMap_append, hown]
  simp [Packet.ownChannel]

/-- Events about anything else leave the handler where it will be, or let it see the watch channel. -/
theorem channelAfter_append {events : List MumbleEvent}
    (hother : events.filterMap (MumbleEvent.ownChannel s.handler.ourSessionId) = []) :
    channelAfter { s with events := s.events ++ events } = s.channelAfter ∨
      channelAfter { s with events := s.events ++ events } = s.session.channelWatch.value := by
  simp only [channelAfter, List.filterMap_append, hother, List.append_nil]
  cases hlast : (s.events.filterMap (MumbleEvent.ownChannel s.handler.ourSessionId)).getLast? with
  | some c => exact .inl rfl
  | none =>
    simp only [Option.getD_none]
    by_cases hevents : s.events = []
    · by_cases hchanged : s.session.channelWatch.changed = true ∧ s.events ++ events ≠ []
      · exact .inr (if_pos hchanged)
      · rw [if_neg hchanged, if_neg fun h => h.2 hevents]
        exact .inl rfl
    · have happend : s.events ++ events ≠ [] := fun h => hevents (List.append_eq_nil_iff.1 h).1
      simp only [hevents, happend, ne_eq, not_false_eq_true, and_true, true_or]

theorem channelAfter_handle (opus : TrySend) (text : Bool) :
    (s.handle opus text).channelAfter = s.channelAfter := by
  cases hevents : s.events with
  | nil => rw [handle_nil hevents]
  | cons event events =>
    rw [handle_cons hevents]
    simp only [channelAfter, hevents, handleEvent_ourSessionId, handleEvent_ourChannelId, checkWatch_eq,
      List.filterMap_cons]
    cases event.ownChannel s.handler.ourSessionId with
    | none => simp
    | some c => simp [List.getLast?_cons]

/-! ### The invariant -/

/-- The session is bound for the last channel it asked for, and the handler for the channel it is in as
soon as nothing is asked for. -/
structure Tracked (s : Navigation) : Prop where
  current : s.session.currentChannelId = s.joins.getLast?.getD s.serverChannel
  watch : s.session.channelWatch.value = s.session.currentChannelId
  handler : s.joins = [] → s.channelAfter = s.serverChannel

/-- The server leaves the last join request unanswered only if it asks for the channel that the session is
in and the handler knows of, and moves the session elsewhere only while a join request is on its way. -/
def answerSafe (s : Navigation) : NavigationAction → Bool
  | .refuse => s.joins.tail ≠ [] ∨ s.joins = [s.serverChannel] ∧ s.channelAfter = s.serverChannel
  | .move channelId => s.joins ≠ [] ∨ channelId = s.serverChannel
  | _ => true

theorem getLast?_joins (client : MumbleClient) (lastChannelId : Option ChannelId) (sent : Bool)
    (c : ChannelId) :
    (client.targetChannelId.toList ++ (rejoin client lastChannelId sent).2.toList).getLast?.getD c
      = (rejoin client lastChannelId sent).1 ∨
    client.targetChannelId.toList ++ (rejoin client lastChannelId sent).2.toList = [] := by
  have hassumed : client.targetChannelId.toList.getLast?.getD c = client.channelId ∨
      client.targetChannelId.toList = [] := by
    unfold MumbleClient.channelId
    cases client.targetChannelId with
    | none => exact .inr rfl
    | some target => exact .inl rfl
  unfold rejoin
  split
  · split
    · simp
    · simpa using hassumed
  · simpa using hassumed

theorem tracked_established (hs : navigation.init s)
    (hagree : s.joins = [] → s.session.currentChannelId = s.serverChannel) : s.Tracked := by
  obtain ⟨client, userNames, lastChannelId, sent, ttsEnabled, callerNumber, serverHost, serverChannel,
    rfl⟩ := hs
  refine ⟨?_, rfl, fun hjoins => hagree hjoins⟩
  rcases getLast?_joins client lastChannelId sent serverChannel with hlast | hnone
  · exact hlast.symm
  · have hcurrent := hagree hnone
    show (rejoin client lastChannelId sent).1 = (client.targetChannelId.toList ++
      (rejoin client lastChannelId sent).2.toList).getLast?.getD serverChannel
    rw [hnone]
    exact hcurrent

theorem Tracked.confirm (h : s.Tracked) {c : ChannelId}
    (hc : s.session.currentChannelId = s.joins.getLast?.getD c) : (s.confirm c).Tracked :=
  ⟨hc, h.watch, fun _ => channelAfter_confirm c⟩

theorem Tracked.append (h : s.Tracked) {events : List MumbleEvent}
    (hother : events.filterMap (MumbleEvent.ownChannel s.handler.ourSessionId) = []) :
    Tracked { s with events := s.events ++ events } := by
  refine ⟨h.current, h.watch, fun hjoins => ?_⟩
  have hjoins : s.joins = [] := hjoins
  rcases channelAfter_append hother with heq | heq
  · exact heq.trans (h.handler hjoins)
  · rw [heq, h.watch, h.current, hjoins]
    rfl

theorem Tracked.send (h : s.Tracked) {packet : Packet}
    (hother : packet.ownChannel s.handler.ourSessionId = none) : (s.send packet).Tracked := by
  have hevents := ownChannel_handlePacket s.handler.ourSessionId packet s.userNames
  rw [hother] at hevents
  have happend := h.append hevents
  exact ⟨happend.current, happend.watch, happend.handler⟩

/-- A digit that sends no join request changes nothing but the sounds. -/
theorem onDtmfDigit_cases (session : ChannelSession) (digit : Char) (sent : Bool) :
    (session.onDtmfDigit digit sent).1 = session ∧ (session.onDtmfDigit digit sent).2.1 = none ∨
    (digit = '*' ∨ digit = '#') ∧ sent = true ∧ (session.onDtmfDigit digit sent).1
        = { session with
            currentChannelId := session.navigate digit
            channelWatch := session.channelWatch.send (session.navigate digit) } ∧
      (session.onDtmfDigit digit sent).2.1 = some (session.navigate digit) := by
  unfold ChannelSession.onDtmfDigit
  split_ifs with hintro hnavigate hsent
  · exact .inl ⟨rfl, rfl⟩
  · exact .inr ⟨hnavigate, hsent, rfl, rfl⟩
  · exact .inl ⟨rfl, rfl⟩
  · exact .inl ⟨rfl, rfl⟩

theorem Tracked.dtmf (h : s.Tracked) (digit : Char) (sent : Bool) : (s.dtmf digit sent).Tracked := by
  rcases onDtmfDigit_cases s.session digit sent with ⟨hsession, hjoin⟩ | ⟨_, _, hsession, hjoin⟩
  · have hjoins : s.joins ++ (s.session.onDtmfDigit digit sent).2.1.toList = s.joins := by
      rw [hjoin]
      exact List.append_nil _
    simp only [Navigation.dtmf]
    rw [hsession, hjoins]
    exact ⟨h.current, h.watch, h.handler⟩
  · simp only [Navigation.dtmf]
    rw [hsession, hjoin]
    refine ⟨?_, rfl, fun hjoins => ?_⟩
    · simp
    · simp at hjoins

theorem Tracked.grant (h : s.Tracked) : (s.next .grant).Tracked := by
  cases hjoins : s.joins with
  | nil => simpa only [Navigation.next, hjoins] using h
  | cons join joins =>
    have hcurrent := h.current
    rw [hjoins, List.getLast?_cons] at hcurrent
    simp only [Navigation.next, hjoins]
    exact ⟨hcurrent, h.watch, fun _ => channelAfter_confirm join⟩

theorem Tracked.refuse (h : s.Tracked) (hsafe : s.answerSafe .refuse = true) :
    (s.next .refuse).Tracked := by
  rcases of_decide_eq_true hsafe with hlater | ⟨hown, hhandler⟩
  · refine ⟨?_, h.watch, fun hjoins => absurd hjoins hlater⟩
    have hcurrent := h.current
    cases hjoins : s.joins with
    | nil => exact absurd (by rw [hjoins]; rfl) hlater
    | cons join joins =>
      rw [hjoins] at hlater hcurrent
      simp only [Navigation.next, hjoins, List.tail_cons]
      rw [hcurrent, List.getLast?_cons]
      cases hlast : joins.getLast? with
      | none => exact absurd (List.getLast?_eq_none_iff.1 hlast) hlater
      | some c => rfl
  · have hcurrent := h.current
    rw [hown] at hcurrent
    refine ⟨?_, h.watch, fun _ => hhandler⟩
    simp only [Navigation.next, hown, List.tail_cons]
    exact hcurrent

theorem Tracked.move (h : s.Tracked) {c : ChannelId} (hsafe : s.answerSafe (.move c) = true) :
    (s.next (.move c)).Tracked := by
  apply h.confirm
  rcases of_decide_eq_true hsafe with hjoins | rfl
  · have hcurrent := h.current
    cases hlast : s.joins.getLast? with
    | none => exact absurd (List.getLast?_eq_none_iff.1 hlast) hjoins
    | some c' => rwa [hlast] at hcurrent
  · exact h.current

theorem handle_frame (opus : TrySend) (text : Bool) :
    (s.handle opus text).joins = s.joins ∧ (s.handle opus text).serverChannel = s.serverChannel ∧
      (s.handle opus text).session.currentChannelId = s.session.currentChannelId ∧
      (s.handle opus text).session.channelWatch.value = s.session.channelWatch.value := by
  cases hevents : s.events with
  | nil =>
    rw [handle_nil hevents]
    exact ⟨rfl, rfl, rfl, rfl⟩
  | cons event events =>
    rw [handle_cons hevents]
    exact ⟨rfl, rfl, rfl, rfl⟩

theorem Tracked.handle (h : s.Tracked) (opus : TrySend) (text : Bool) :
    (s.handle opus text).Tracked := by
  obtain ⟨hjoins, hserver, hcurrent, hwatch⟩ := handle_frame (s := s) opus text
  refine ⟨?_, ?_, fun hnone => ?_⟩
  · rw [hcurrent, hjoins, hserver]
    exact h.current
  · rw [hwatch, hcurrent]
    exact h.watch
  · rw [channelAfter_handle, hserver]
    exact h.handler (hjoins.symm.trans hnone)

theorem Tracked.next (h : s.Tracked) {a : NavigationAction} (hen : s.enabled a)
    (hsafe : s.answerSafe a = true) : (s.next a).Tracked := by
  cases a with
  | dtmf digit sent => exact h.dtmf digit sent
  | grant => exact h.grant
  | refuse => exact h.refuse hsafe
  | move c => exact h.move hsafe
  | packet packet => exact h.send hen
  | disconnect => exact h.append rfl
  | handle opus text => exact h.handle opus text

/-! ### The last word of the server -/

/-- The session and the event handler have the channel that the server has confirmed, and that is the channel
`on_call_disconnected` stores for the caller. -/
def Remembers (s : Navigation) : Prop :=
  s.session.currentChannelId = s.serverChannel ∧ s.handler.ourChannelId = s.serverChannel ∧
    ∀ phone, s.session.callerNumber = some phone →
      s.session.lastChannel = some (phone, s.session.serverHost, s.serverChannel)

theorem channelAfter_of_nil (hevents : s.events = []) : s.channelAfter = s.handler.ourChannelId := by
  simp [channelAfter, hevents]

theorem Tracked.remembers (h : s.Tracked) (hjoins : s.joins = []) (hevents : s.events = []) :
    s.Remembers := by
  have hcurrent : s.session.currentChannelId = s.serverChannel := by
    rw [h.current, hjoins]
    rfl
  refine ⟨hcurrent, (channelAfter_of_nil hevents).symm.trans (h.handler hjoins), fun phone hphone => ?_⟩
  rw [ChannelSession.lastChannel, hphone, hcurrent]
  rfl

/-- Nothing is asked for, and the session or the handler is bound for another channel. -/
def Forgets (s : Navigation) : Prop :=
  s.joins = [] ∧ ¬(s.session.currentChannelId = s.serverChannel ∧ s.channelAfter = s.serverChannel)

theorem Forgets.not_remembers (h : s.Forgets) (hevents : s.events = []) : ¬s.Remembers := by
  intro hremembers
  refine h.2 ⟨hremembers.1, ?_⟩
  rw [channelAfter_of_nil hevents]
  exact hremembers.2.1

theorem Forgets.handle (h : s.Forgets) (opus : TrySend) (text : Bool) : (s.handle opus text).Forgets := by
  obtain ⟨hjoins, hserver, hcurrent, _⟩ := handle_frame (s := s) opus text
  refine ⟨hjoins.trans h.1, ?_⟩
  rw [hcurrent, hserver, channelAfter_handle]
  exact h.2

theorem Tracked.forgets (h : s.Tracked) {a : NavigationAction} (hen : s.enabled a)
    (hbroken : ¬s.answerSafe a = true) : (s.next a).Forgets := by
  cases a with
  | refuse =>
    obtain ⟨join, joins, hjoins⟩ := List.exists_cons_of_ne_nil hen
    have hcurrent := h.current
    rw [answerSafe, decide_eq_true_iff, not_or, not_not, hjoins, List.tail_cons] at hbroken
    obtain ⟨hlast, hother⟩ := hbroken
    rw [hjoins, hlast] at hcurrent
    refine ⟨by rw [Navigation.next, hjoins]; exact hlast, fun hagree => hother ⟨?_, hagree.2⟩⟩
    -- the session is bound for the channel it asked for
    have heq : join = s.serverChannel := hcurrent.symm.trans hagree.1
    rw [hlast, heq]
  | move c =>
    rw [answerSafe, decide_eq_true_iff, not_or, not_not] at hbroken
    obtain ⟨hjoins, hne⟩ := hbroken
    have hcurrent := h.current
    rw [hjoins] at hcurrent
    exact ⟨hjoins, fun hagree => hne (hagree.1.symm.trans hcurrent)⟩
  | _ => exact absurd rfl hbroken

end Navigation

/-- The steps of a run in which the last word of the server on the session is always the answer to its
last join. -/
def answersSafely (s : Navigation) (a : NavigationAction) : Prop := s.answerSafe a = true

instance (s : Navigation) (a : NavigationAction) : Decidable (answersSafely s a) :=
  inferInstanceAs (Decidable (_ = _))

/-- The steps of the event handler. -/
def handles (_ : Navigation) : NavigationAction → Prop
  | .handle _ _ => True
  | _ => False

theorem reaches_tracked {s₀ s : Navigation} (hinit : navigation.init s₀)
    (hagree : s₀.joins = [] → s₀.session.currentChannelId = s₀.serverChannel)
    (hs : (navigation.startingAt s₀).Reaches answersSafely s) : s.Tracked :=
  hs.stable (P := Navigation.Tracked) (Navigation.tracked_established hinit hagree)
    fun _ _ h hen hok => h.next hen hok

/-- Once all join requests are answered or refused and all events processed, the session, the event handler
and the caller's record have the channel the server confirmed last; and a step that breaks the condition
leaves one of them elsewhere when the events are processed. -/
theorem channel_remembered {s₀ s : Navigation} (hinit : navigation.init s₀)
    (hagree : s₀.joins = [] → s₀.session.currentChannelId = s₀.serverChannel)
    (hs : (navigation.startingAt s₀).Reaches answersSafely s) :
    (s.joins = [] → s.events = [] → s.Remembers) ∧
      ∀ a, s.enabled a → ¬answersSafely s a → ∀ s', (navigation.startingAt (s.next a)).Reaches handles s' →
        s'.joins = [] ∧ (s'.events = [] → ¬s'.Remembers) := by
  have h := reaches_tracked hinit hagree hs
  refine ⟨h.remembers, fun a hen hbroken s' hs' => ?_⟩
  have hforgets : s'.Forgets := by
    apply hs'.stable (P := Navigation.Forgets) (h.forgets hen hbroken)
    intro s b hforgets _ hb
    cases b with
    | handle opus text => exact hforgets.handle opus text
    | _ => cases hb
  exact ⟨hforgets.1, hforgets.not_remembers⟩

/-- A session in the root channel of a server with channels up to 5. -/
def rootSession : Navigation :=
  .established ⟨1, none, 5, ∅⟩ ∅ none true false (some "5551234567") "mumble.example.com" 0

/-- The caller goes one channel up, the server confirms, and an administrator's move overtakes the next
digit. -/
theorem channel_remembered_confirmed : ∃ s, (navigation.startingAt rootSession).Reaches answersSafely s ∧
    s.Remembers := by
  obtain ⟨s, hs, hP⟩ := System.exists_reaches_of_run (navigation.startingAt rootSession) answersSafely rfl
    [.dtmf '#' true, .grant, .handle .ok true, .dtmf '#' true, .move 4, .grant, .handle .ok true,
      .handle .ok true]
    (fun s => s.joins = [] ∧ s.events = []) (by decide)
  obtain ⟨hjoins, hevents⟩ := of_decide_eq_true hP
  have hinit : navigation.init rootSession := ⟨_, _, _, _, _, _, _, _, rfl⟩
  exact ⟨s, hs, (channel_remembered hinit (fun _ => rfl) hs).1 hjoins hevents⟩

/-- An administrator moves the session; the event handler follows and the session does not. -/
theorem channel_forgotten : ¬∀ s, navigation.Reachable s → s.joins = [] → s.events = [] →
    s.Remembers := by
  intro hclaim
  obtain ⟨s, hs, hP⟩ := System.exists_reaches_of_run navigation System.anyStep
    (s := rootSession) ⟨_, _, _, _, _, _, _, _, rfl⟩ [.move 4, .handle .ok true]
    (fun s => s.joins = [] ∧ s.events = [] ∧ s.session.currentChannelId = 0 ∧ s.serverChannel = 4)
    (by decide)
  obtain ⟨hjoins, hevents, hcurrent, hserver⟩ := of_decide_eq_true hP
  have := (hclaim s hs hjoins hevents).1
  rw [hcurrent, hserver] at this
  cases this

end MumbleSip
