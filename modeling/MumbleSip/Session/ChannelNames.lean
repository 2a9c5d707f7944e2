import MumbleSip.Lib.LastWord
import MumbleSip.Mumble.Handshake
import MumbleSip.Session.Channel

/-!
# The names of the channels

The channel names that the handshake collects and the event handler carries on with, beside the packets they
come from. A packet that carries no name reads as one with the empty name, and is taken over like any other.
-/

namespace MumbleSip

open Transition History

/-- What a `ChannelState` packet says of a name. -/
structure ChannelPacket where
  channelId : ChannelId
  name : Option String
  deriving DecidableEq

namespace ChannelPacket

/-- The packet, if it is about the channel. -/
def mentioned (c : ChannelId) (p : ChannelPacket) : Option ChannelPacket := if p.channelId = c then some p else none

/-- The name that the packet carries for the channel. -/
def named (c : ChannelId) (p : ChannelPacket) : Option String := (p.mentioned c).bind ChannelPacket.name

/-- The name as the bridge reads it from the packet. -/
def read (p : ChannelPacket) : String := p.name.getD ""

end ChannelPacket

def HandshakePacket.channelPacket : HandshakePacket → Option ChannelPacket
  | .channelState channelId name => some ⟨channelId.getD 0, name⟩
  | _ => none

def Packet.channelPacket : Packet → Option ChannelPacket
  | .channelState channelId name => some ⟨channelId.getD 0, name⟩
  | _ => none

def MumbleEvent.channelName : MumbleEvent → Option (ChannelId × String)
  | .channelState channelId name => some (channelId, name)
  | _ => none

/-- The name of the last packet about the channel that carried one; a name that is not known reads as the
empty one. -/
def channelNameAfter (c : ChannelId) (packets : List ChannelPacket) : String :=
  (lastWord (ChannelPacket.named c) packets).getD ""

/-- The last packet about the channel carries a name, unless the channel had none before. -/
def NameCarried (c : ChannelId) (packets : List ChannelPacket) : Prop :=
  ∀ p, lastWord (ChannelPacket.mentioned c) packets = some p → p.name = none → channelNameAfter c packets = ""

/-- A session, with the packets about channels of the handshake, those on their way to the event handler and
those it has taken, and with what is sent when the call is connected. -/
structure Naming where
  session : Navigation
  handshake : List ChannelPacket
  pending : List ChannelPacket
  taken : List ChannelPacket
  opening : Output

namespace Naming

/-- The packets that a step takes. -/
def takes (s : Naming) : NavigationAction → List ChannelPacket
  | .handle _ _ => if (s.session.events.head?.bind MumbleEvent.channelName).isSome then s.pending.take 1 else []
  | _ => []

/-- The packets that a step sends. -/
def sends : NavigationAction → List ChannelPacket
  | .packet packet => packet.channelPacket.toList
  | _ => []

def next (s : Naming) (a : NavigationAction) : Naming :=
  { s with
    session := s.session.next a
    pending := s.pending.drop (s.takes a).length ++ sends a
    taken := s.taken ++ s.takes a }

end Naming

/-- A session of a client that has gone through the handshake. -/
def naming : System Naming NavigationAction where
  init s := ∃ channel packets joined client userNames lastChannelId sent ttsEnabled announceOnConnect
      callerNumber serverHost serverChannel,
    MumbleClient.connect channel packets joined = .ok (client, userNames) ∧
      s = { session := .established client userNames lastChannelId sent ttsEnabled callerNumber serverHost
              serverChannel
            handshake := (Handshake.read packets).filterMap HandshakePacket.channelPacket
            pending := []
            taken := (Handshake.read packets).filterMap HandshakePacket.channelPacket
            opening := connectOutput client (rejoin client lastChannelId sent).1 ttsEnabled announceOnConnect }
  enabled s a := s.session.enabled a
  next := Naming.next

instance (s : Naming) (a : NavigationAction) : Decidable (naming.enabled s a) :=
  inferInstanceAs (Decidable (s.session.enabled a))

/-! ### What is read from the packets -/

/-- The last name as it is read is the last name carried, if a name is carried last. -/
theorem read_mentioned_iff (c : ChannelId) (packets : List ChannelPacket) :
    ((lastWord (ChannelPacket.mentioned c) packets).map ChannelPacket.read).getD "" = channelNameAfter c packets ↔
      NameCarried c packets := by
  unfold NameCarried channelNameAfter
  cases hlast : lastWord (ChannelPacket.mentioned c) packets with
  | none =>
    have hnamed : lastWord (ChannelPacket.named c) packets = none := lastWord_bind_of_none hlast
    rw [hnamed]
    exact iff_of_true rfl nofun
  | some p =>
    rw [Option.map_some, Option.getD_some, ChannelPacket.read]
    cases hname : p.name with
    | some name =>
      have hnamed : lastWord (ChannelPacket.named c) packets = some name := lastWord_bind_of_some hlast hname
      rw [hnamed]
      refine iff_of_true rfl fun p' hp' hnone => ?_
      cases hp'
      rw [hname] at hnone
      cases hnone
    | none =>
      constructor
      · intro heq p' _ _
        exact heq.symm
      · intro hempty
        exact (hempty p rfl hname).symm

theorem channelNames_packet {channel : String} {h h' : Handshake} {packet : HandshakePacket}
    (hpacket : h.packet channel packet = .ok h') (c : ChannelId) : h'.channelNames.lookup c
      = ((packet.channelPacket.bind (ChannelPacket.mentioned c)).map ChannelPacket.read).or
        (h.channelNames.lookup c) := by
  cases packet with
  | cryptSetup key clientNonce serverNonce =>
    rw [Handshake.packet_cryptSetup hpacket]
    rfl
  | channelState channelId name =>
    cases hpacket
    simp only [FiniteMap.lookup_insert, HandshakePacket.channelPacket, Option.bind_some,
      ChannelPacket.mentioned, eq_comm]
    split_ifs <;> rfl
  | reject msg => cases hpacket
  | failed error => cases hpacket
  | _ =>
    cases hpacket
    rfl

theorem channelNames_handshake {channel : String} {packets : List HandshakePacket}
    {joined : Except String Unit} {client : MumbleClient} {userNames : UserNames}
    (hconnect : MumbleClient.connect channel packets joined = .ok (client, userNames)) (c : ChannelId) :
    client.channelNames.lookup c = (lastWord (ChannelPacket.mentioned c)
      ((Handshake.read packets).filterMap HandshakePacket.channelPacket)).map ChannelPacket.read := by
  refine MumbleClient.connect_induction (P := fun before h => h.channelNames.lookup c =
    (lastWord (ChannelPacket.mentioned c) (before.filterMap HandshakePacket.channelPacket)).map
      ChannelPacket.read) rfl ?_ hconnect
  intro before h packet h' hnames hpacket
  rw [lastWord_filterMap] at hnames ⊢
  rw [lastWord_concat, channelNames_packet hpacket, hnames]
  cases packet.channelPacket.bind (ChannelPacket.mentioned c) <;> rfl

theorem handleEvent_channelNames (h : EventHandler) (event : MumbleEvent) (opus : TrySend) (text : Bool)
    (c : ChannelId) : (h.handleEvent event opus text).1.channelNames.lookup c
      = (event.channelName.bind fun p => if p.1 = c then some p.2 else none).or (h.channelNames.lookup c) := by
  cases event with
  | audioReceived => cases opus <;> rfl
  | userChangedChannel sessionId channelId =>
    simp only [EventHandler.handleEvent, EventHandler.userChangedChannel]
    split_ifs <;> rfl
  | channelState channelId name =>
    simp only [EventHandler.handleEvent, FiniteMap.lookup_insert, MumbleEvent.channelName, Option.bind_some,
      eq_comm]
    split_ifs <;> rfl
  | _ => rfl

namespace Naming

variable {s : Naming}

/-- The handler has the names read from the packets it has taken, and the others are on their way. -/
structure Follows (s : Naming) : Prop where
  names : ∀ c, s.session.handler.channelNames.lookup c
    = (lastWord (ChannelPacket.mentioned c) s.taken).map ChannelPacket.read
  events : s.session.events.filterMap MumbleEvent.channelName = s.pending.map fun p => (p.channelId, p.read)
  opening : ∀ c name, s.opening = .announcement c name →
    name = (lastWord (ChannelPacket.mentioned c) s.handshake).map ChannelPacket.read

theorem channelName_handlePacket (packet : Packet) (userNames : UserNames) :
    (handlePacket packet userNames).1.toList.filterMap MumbleEvent.channelName
      = packet.channelPacket.toList.map fun p => (p.channelId, p.read) := by
  cases packet with
  | userState msg =>
    simp only [handlePacket]
    cases msg.channelId <;> rfl
  | _ => rfl

theorem events_next (n : Navigation) {a : NavigationAction} (ha : ∀ opus text, a ≠ .handle opus text) :
    (n.next a).events.filterMap MumbleEvent.channelName
      = n.events.filterMap MumbleEvent.channelName ++ (sends a).map fun p => (p.channelId, p.read) := by
  have hconfirm : ∀ c, (n.confirm c).events.filterMap MumbleEvent.channelName
      = n.events.filterMap MumbleEvent.channelName := by
    intro c
    simp only [Navigation.confirm, Navigation.send, List.filterMap_append, channelName_handlePacket]
    exact List.append_nil _
  cases a with
  | dtmf digit sent => exact (List.append_nil _).symm
  | grant =>
    simp only [Navigation.next]
    split
    · exact (hconfirm _).trans (List.append_nil _).symm
    · exact (List.append_nil _).symm
  | refuse => exact (List.append_nil _).symm
  | move c => exact (hconfirm c).trans (List.append_nil _).symm
  | packet packet =>
    simp only [Navigation.next, Navigation.send, List.filterMap_append, channelName_handlePacket]
    rfl
  | disconnect =>
    simp only [Navigation.next, List.filterMap_append]
    rfl
  | handle opus text => exact absurd rfl (ha opus text)

theorem takes_of_ne {a : NavigationAction} (ha : ∀ opus text, a ≠ .handle opus text) : s.takes a = [] := by
  cases a with
  | handle opus text => exact absurd rfl (ha opus text)
  | _ => rfl

theorem takes_handle {event : MumbleEvent} {events : List MumbleEvent} (hevents : s.session.events = event :: events)
    (opus : TrySend) (text : Bool) :
    s.takes (.handle opus text) = if event.channelName.isSome then s.pending.take 1 else [] := by
  simp only [takes, hevents, List.head?_cons, Option.bind_some]

theorem Follows.names_handle (h : s.Follows) {event : MumbleEvent} {events : List MumbleEvent}
    (hevents : s.session.events = event :: events) (opus : TrySend) (text : Bool) (c : ChannelId) :
    (s.session.next (.handle opus text)).handler.channelNames.lookup c
      = (event.channelName.bind fun p => if p.1 = c then some p.2 else none).or
        ((lastWord (ChannelPacket.mentioned c) s.taken).map ChannelPacket.read) := by
  have hhandler : (s.session.next (.handle opus text)).handler
      = ((s.session.handler.checkWatch s.session.session.channelWatch).1.handleEvent event opus text).1 :=
    congrArg Navigation.handler (Navigation.handle_cons hevents opus text)
  rw [hhandler, handleEvent_channelNames, Navigation.checkWatch_eq, h.names c]

theorem Follows.handle_other (h : s.Follows) {event : MumbleEvent} {events : List MumbleEvent}
    (hevents : s.session.events = event :: events) (hname : event.channelName = none) (opus : TrySend)
    (text : Bool) : (s.next (.handle opus text)).Follows := by
  have htakes : s.takes (.handle opus text) = [] := by
    rw [takes_handle hevents, hname]
    rfl
  have hpending := h.events
  rw [hevents, List.filterMap_cons_none hname] at hpending
  refine ⟨fun c => ?_, ?_, h.opening⟩
  · have hnames := h.names_handle hevents opus text c
    rw [hname, Option.bind_none, Option.none_or] at hnames
    simp only [Naming.next, htakes, List.append_nil]
    exact hnames
  · have hrest : (s.session.next (.handle opus text)).events = events :=
      congrArg Navigation.events (Navigation.handle_cons hevents opus text)
    simp only [Naming.next, htakes, sends, List.length_nil, List.drop_zero, List.append_nil]
    rw [hrest]
    exact hpending

theorem Follows.handle_channel (h : s.Follows) {event : MumbleEvent} {events : List MumbleEvent}
    (hevents : s.session.events = event :: events) {name : ChannelId × String}
    (hname : event.channelName = some name) (opus : TrySend) (text : Bool) :
    (s.next (.handle opus text)).Follows := by
  have hpending := h.events
  rw [hevents, List.filterMap_cons_some hname] at hpending
  cases hqueue : s.pending with
  | nil =>
    rw [hqueue] at hpending
    cases hpending
  | cons p pending =>
    rw [hqueue, List.map_cons] at hpending
    obtain ⟨rfl, hrestPending⟩ := List.cons_eq_cons.1 hpending
    have htakes : s.takes (.handle opus text) = [p] := by
      rw [takes_handle hevents, hname, hqueue]
      rfl
    refine ⟨fun c => ?_, ?_, h.opening⟩
    · have hnames := h.names_handle hevents opus text c
      rw [hname, Option.bind_some] at hnames
      simp only [Naming.next, htakes]
      rw [hnames, lastWord_concat, ChannelPacket.mentioned]
      split_ifs <;> rfl
    · have hrest : (s.session.next (.handle opus text)).events = events :=
        congrArg Navigation.events (Navigation.handle_cons hevents opus text)
      simp only [Naming.next, htakes, hqueue, sends, List.length_singleton, List.drop_succ_cons,
        List.drop_zero, List.append_nil]
      rw [hrest]
      exact hrestPending

theorem Follows.handle (h : s.Follows) (opus : TrySend) (text : Bool) : (s.next (.handle opus text)).Follows := by
  cases hevents : s.session.events with
  | nil =>
    have hsession : s.session.next (.handle opus text) = s.session := Navigation.handle_nil hevents opus text
    have htakes : s.takes (.handle opus text) = [] := by
      rw [takes, hevents]
      rfl
    refine ⟨?_, ?_, h.opening⟩
    · intro c
      simp only [Naming.next, hsession, htakes, List.append_nil]
      exact h.names c
    · simp only [Naming.next, hsession, htakes, sends, List.length_nil, List.drop_zero, List.append_nil]
      exact h.events
  | cons event events =>
    cases hname : event.channelName with
    | none => exact h.handle_other hevents hname opus text
    | some name => exact h.handle_channel hevents hname opus text

theorem Follows.next (h : s.Follows) (a : NavigationAction) : (s.next a).Follows := by
  by_cases ha : ∀ opus text, a ≠ .handle opus text
  · refine ⟨fun c => ?_, ?_, h.opening⟩
    · simp only [Naming.next, Navigation.handler_next _ ha, takes_of_ne ha, List.append_nil]
      exact h.names c
    · simp only [Naming.next, takes_of_ne ha, List.length_nil, List.drop_zero, List.map_append]
      rw [events_next _ ha, h.events]
  · push Not at ha
    obtain ⟨opus, text, rfl⟩ := ha
    exact h.handle opus text

theorem follows_of_reachable (hs : naming.Reachable s) : s.Follows := by
  apply hs.invariant (I := Follows)
  · rintro s ⟨channel, packets, joined, client, userNames, lastChannelId, sent, ttsEnabled, announceOnConnect,
      callerNumber, serverHost, serverChannel, hconnect, rfl⟩
    refine ⟨channelNames_handshake hconnect, rfl, fun c name hopening => ?_⟩
    have hopening : connectOutput client (rejoin client lastChannelId sent).1 ttsEnabled announceOnConnect
      = .announcement c name := hopening
    unfold connectOutput at hopening
    split_ifs at hopening
    cases hopening
    exact channelNames_handshake hconnect _
  · intro s a _ h _ _
    exact h.next a

end Naming

/-- In every run, the name that the bridge has for a channel, and announces the channel under, is the last one that
a packet about the channel carried exactly if the last packet about it carries a name or none did. -/
theorem channel_name_iff {s : Naming} (hs : naming.Reachable s) (c : ChannelId) :
    ((s.session.handler.channelNames.lookup c).getD "" = channelNameAfter c s.taken ↔ NameCarried c s.taken) ∧
      (∀ opus text name, .announcement c name ∈ s.session.sent opus text →
        (name.getD "" = channelNameAfter c s.taken ↔ NameCarried c s.taken)) ∧
      ∀ name, s.opening = .announcement c name →
        (name.getD "" = channelNameAfter c s.handshake ↔ NameCarried c s.handshake) := by
  have h := Naming.follows_of_reachable hs
  refine ⟨?_, fun opus text name hsent => ?_, fun name hopening => ?_⟩
  · rw [h.names c]
    exact read_mentioned_iff c s.taken
  · cases hevents : s.session.events with
    | nil =>
      rw [Navigation.sent_of_nil hevents] at hsent
      cases hsent
    | cons event events =>
      rw [Navigation.sent_eq hevents, Navigation.announcement_mem_handleEvent, Navigation.checkWatch_eq,
        h.names c] at hsent
      obtain ⟨_, _, _, rfl⟩ := hsent
      exact read_mentioned_iff c s.taken
  · rw [h.opening c name hopening]
    exact read_mentioned_iff c s.handshake

/-- A session on a server that has announced two channels under their names. -/
def namedSession : Naming :=
  let client : MumbleClient := ⟨1, none, 1, (AList.insert 1 "Lobby" (AList.insert 0 "Root" ∅))⟩
  { session := .established client ∅ none true true none "mumble.example.com" 0
    handshake := [⟨0, some "Root"⟩, ⟨1, some "Lobby"⟩]
    pending := []
    taken := [⟨0, some "Root"⟩, ⟨1, some "Lobby"⟩]
    opening := connectOutput client 0 true true }

theorem namedSession_init : naming.init namedSession :=
  ⟨"", [.channelState none (some "Root"), .channelState (some 1) (some "Lobby"), .serverSync (some 1)], .ok (),
    _, ∅, none, true, true, true, none, "mumble.example.com", 0, rfl, rfl⟩

/-- The caller moves to a channel and hears its name. -/
theorem channel_name_announced : ∃ s, naming.Reachable s ∧
    .announcement 1 (some "Lobby") ∈ s.session.sent .ok true ∧
      (s.session.handler.channelNames.lookup 1).getD "" = "Lobby" := by
  obtain ⟨s, hs, hP⟩ := System.exists_reaches_of_run naming System.anyStep namedSession_init
    [.dtmf '#' true, .grant]
    (fun s => .announcement 1 (some "Lobby") ∈ s.session.sent .ok true ∧ channelNameAfter 1 s.taken = "Lobby" ∧
      lastWord (ChannelPacket.mentioned 1) s.taken = some ⟨1, some "Lobby"⟩) (by decide)
  obtain ⟨hsent, hname, hlast⟩ := of_decide_eq_true hP
  have hcarried : NameCarried 1 s.taken := by
    intro p hp hnone
    rw [hlast] at hp
    cases hp
    cases hnone
  exact ⟨s, hs, hsent, hname ▸ (channel_name_iff hs 1).1.2 hcarried⟩

/-- The server links the channel to another, in a packet without a name. -/
theorem channel_name_lost : ¬∀ s, naming.Reachable s → ∀ c,
    (s.session.handler.channelNames.lookup c).getD "" = channelNameAfter c s.taken := by
  intro hclaim
  obtain ⟨s, hs, hP⟩ := System.exists_reaches_of_run naming System.anyStep namedSession_init
    [.packet (.channelState (some 1) none), .handle .ok true]
    (fun s => (s.session.handler.channelNames.lookup 1).getD "" ≠ channelNameAfter 1 s.taken) (by decide)
  exact of_decide_eq_true hP (hclaim s hs 1)

end MumbleSip
