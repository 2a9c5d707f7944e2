import MumbleSip.Mumble.Handshake
import MumbleSip.Session.Channel

/-!
# Join and leave chimes

What the server has reported of the channels of the users, in the handshake and since, beside the session
whose event handler follows it. The handler starts without the reports of the handshake, and it chimes for a
user who is reported in its channel whether or not the user has been there before.
-/

namespace MumbleSip

open Transition

/-- A user is in a channel, or has left the server. -/
structure Report where
  user : SessionId
  channel : Option ChannelId
  deriving DecidableEq

def UserState.report (msg : UserState) : Option Report :=
  msg.channelId.map fun channelId => ⟨msg.session.getD 0, some channelId⟩

def MumbleEvent.report : MumbleEvent → Option Report
  | .userChangedChannel sessionId channelId => some ⟨sessionId, some channelId⟩
  | .userDisconnected sessionId => some ⟨sessionId, none⟩
  | _ => none

/-- The reports of the handshake. -/
def handshakeReports : List HandshakePacket → List Report
  | [] => []
  | .serverSync _ :: _ => []
  | .userState msg :: packets => msg.report.toList ++ handshakeReports packets
  | _ :: packets => handshakeReports packets

def Report.update (user : SessionId) (channel : Option ChannelId) (report : Report) : Option ChannelId :=
  if report.user = user then report.channel else channel

/-- The channel that the last report about a user has them in. -/
def lastReported (reports : List Report) (user : SessionId) : Option ChannelId :=
  reports.foldl (Report.update user) none

theorem lastReported_append (reports reports' : List Report) (user : SessionId) :
    lastReported (reports ++ reports') user
      = reports'.foldl (Report.update user) (lastReported reports user) := by
  unfold lastReported
  rw [List.foldl_append]

theorem foldl_update_of_mem {reports : List Report} {user : SessionId}
    (hmem : ∃ report ∈ reports, report.user = user) (channel channel' : Option ChannelId) :
    reports.foldl (Report.update user) channel = reports.foldl (Report.update user) channel' := by
  induction reports generalizing channel channel' with
  | nil =>
    obtain ⟨report, hreport, _⟩ := hmem
    cases hreport
  | cons report reports ih =>
    rw [List.foldl_cons, List.foldl_cons]
    by_cases huser : report.user = user
    · have hupdate : ∀ c, Report.update user c report = report.channel := fun c => if_pos huser
      rw [hupdate, hupdate]
    · obtain ⟨report', hreport', huser'⟩ := hmem
      rcases List.mem_cons.1 hreport' with heq | htail
      · exact absurd (heq ▸ huser') huser
      · exact ih ⟨report', htail, huser'⟩ _ _

theorem foldl_update_of_not_mem {reports : List Report} {user : SessionId}
    (hnot : ¬∃ report ∈ reports, report.user = user) (channel : Option ChannelId) :
    reports.foldl (Report.update user) channel = channel := by
  induction reports generalizing channel with
  | nil => rfl
  | cons report reports ih =>
    have huser : report.user ≠ user := fun heq => hnot ⟨report, List.mem_cons_self, heq⟩
    rw [List.foldl_cons, Report.update, if_neg huser]
    apply ih
    rintro ⟨report', hreport', huser'⟩
    exact hnot ⟨report', List.mem_cons_of_mem _ hreport', huser'⟩

/-- A session, with the reports of the handshake and those its event handler has taken, and the changes of its
own channel that the handler has seen since the initial one. -/
structure Membership where
  session : Navigation
  handshake : List Report
  reports : List Report
  initialChannel : ChannelId
  ownChannels : List ChannelId

namespace Membership

variable {s : Membership}

/-- A channel that the caller has navigated to and the handler has not seen. -/
def navigated (s : Membership) : List ChannelId :=
  if s.session.session.channelWatch.changed then [s.session.session.channelWatch.value] else []

/-- The channel the session is in when the next event is taken: the last one that it was reported in or has
navigated to. -/
def currentChannel (s : Membership) : ChannelId :=
  (s.ownChannels ++ s.navigated).getLast?.getD s.initialChannel

/-- The channel the server has last reported a user in. -/
def reported (s : Membership) (user : SessionId) : Option ChannelId :=
  lastReported (s.handshake ++ s.reports) user

/-- The event that a step takes. -/
def taken (s : Membership) : NavigationAction → List MumbleEvent
  | .handle _ _ => s.session.events.take 1
  | _ => []

def next (s : Membership) (a : NavigationAction) : Membership :=
  { s with
    session := s.session.next a
    reports := s.reports ++ (s.taken a).filterMap MumbleEvent.report
    ownChannels := s.ownChannels ++ (s.taken a).flatMap fun event =>
      s.navigated ++ (event.ownChannel s.session.handler.ourSessionId).toList }

/-- What taking the next event sends. -/
def sent (s : Membership) (opus : TrySend) (text : Bool) : List Output :=
  (s.session.next (.handle opus text)).outputs.drop s.session.outputs.length

/-- A join chime is sent exactly if a user who was not in our channel is reported in it, and a leave chime
exactly if one who was in it is reported elsewhere. -/
def ChimesFollow (s : Membership) (event : MumbleEvent) (sent : List Output) : Prop :=
  ∀ report, event.report = some report → report.user ≠ s.session.handler.ourSessionId →
    (.sound .userJoinedChannel ∈ sent ↔
      report.channel = some s.currentChannel ∧ s.reported report.user ≠ some s.currentChannel) ∧
    (.sound .userLeftChannel ∈ sent ↔
      s.reported report.user = some s.currentChannel ∧ report.channel ≠ some s.currentChannel)

/-- A user in our channel has been reported there since the handshake, and is now reported elsewhere. -/
def Followable (s : Membership) (event : MumbleEvent) : Prop :=
  ∀ report, event.report = some report → report.user ≠ s.session.handler.ourSessionId →
    s.reported report.user = some s.currentChannel →
      (∃ earlier ∈ s.reports, earlier.user = report.user) ∧ report.channel ≠ some s.currentChannel

end Membership

/-- A session of a client that has gone through the handshake. -/
def membership : System Membership NavigationAction where
  init s := ∃ channel packets joined client userNames lastChannelId sent ttsEnabled callerNumber serverHost
      serverChannel,
    MumbleClient.connect channel packets joined = .ok (client, userNames) ∧
      s = ⟨.established client userNames lastChannelId sent ttsEnabled callerNumber serverHost serverChannel,
        handshakeReports packets, [], (rejoin client lastChannelId sent).1, []⟩
  enabled s a := s.session.enabled a
  next := Membership.next

instance (s : Membership) (a : NavigationAction) : Decidable (membership.enabled s a) :=
  inferInstanceAs (Decidable (s.session.enabled a))

namespace Membership

variable {s : Membership}

/-! ### What the handler knows -/

theorem handleEvent_userChannels (h : EventHandler) (event : MumbleEvent) (opus : TrySend) (text : Bool)
    (user : SessionId) : (h.handleEvent event opus text).1.userChannels.lookup user
      = event.report.toList.foldl (Report.update user) (h.userChannels.lookup user) := by
  cases event with
  | audioReceived => cases opus <;> rfl
  | userChangedChannel sessionId channelId =>
    have hinsert : (h.userChangedChannel sessionId channelId).1.userChannels
        = h.userChannels.insert sessionId channelId := by
      simp only [EventHandler.userChangedChannel]
      split_ifs <;> rfl
    simp only [EventHandler.handleEvent, hinsert, FiniteMap.lookup_insert, MumbleEvent.report, Option.toList,
      List.foldl_cons, List.foldl_nil, Report.update, eq_comm]
  | userDisconnected sessionId =>
    simp only [EventHandler.handleEvent, EventHandler.userDisconnected, FiniteMap.lookup_erase,
      MumbleEvent.report, Option.toList, List.foldl_cons, List.foldl_nil, Report.update, eq_comm]
  | _ => rfl

/-- The handler has the users where the reports it has taken have them, and the session where it was last
seen. -/
structure Tracks (s : Membership) : Prop where
  users : ∀ user, s.session.handler.userChannels.lookup user = lastReported s.reports user
  current : s.session.handler.ourChannelId = s.ownChannels.getLast?.getD s.initialChannel

theorem Tracks.checkWatch (h : s.Tracks) :
    (s.session.handler.checkWatch s.session.session.channelWatch).1.ourChannelId = s.currentChannel := by
  rw [Navigation.checkWatch_eq, currentChannel, navigated]
  cases s.session.session.channelWatch.changed with
  | false =>
    simp only [Bool.false_eq_true, if_false, List.append_nil]
    exact h.current
  | true => simp only [if_true, List.getLast?_concat, Option.getD_some]

theorem taken_of_ne (a : NavigationAction) (ha : ∀ opus text, a ≠ .handle opus text) : s.taken a = [] := by
  cases a with
  | handle opus text => exact absurd rfl (ha opus text)
  | _ => rfl

theorem Tracks.handle (h : s.Tracks) (opus : TrySend) (text : Bool) : (s.next (.handle opus text)).Tracks := by
  cases hevents : s.session.events with
  | nil =>
    have hsession : s.session.next (.handle opus text) = s.session := Navigation.handle_nil hevents opus text
    refine ⟨?_, ?_⟩
    · intro user
      simp only [Membership.next, hsession, taken, hevents, List.take_nil, List.filterMap_nil, List.append_nil]
      exact h.users user
    · simp only [Membership.next, hsession, taken, hevents, List.take_nil, List.flatMap_nil, List.append_nil]
      exact h.current
  | cons event events =>
    have hhandler : (s.session.next (.handle opus text)).handler
        = ((s.session.handler.checkWatch s.session.session.channelWatch).1.handleEvent event opus text).1 :=
      congrArg Navigation.handler (Navigation.handle_cons hevents opus text)
    refine ⟨?_, ?_⟩
    · intro user
      show (s.session.next (.handle opus text)).handler.userChannels.lookup user = lastReported
        (s.reports ++ (s.session.events.take 1).filterMap MumbleEvent.report) user
      rw [hhandler, handleEvent_userChannels, Navigation.checkWatch_eq, h.users user, hevents,
        lastReported_append]
      cases hreport : event.report with
      | none => simp only [List.take_succ_cons, List.take_zero, List.filterMap_cons, hreport, List.filterMap_nil,
          Option.toList_none]
      | some report => simp only [List.take_succ_cons, List.take_zero, List.filterMap_cons, hreport,
          List.filterMap_nil, Option.toList_some]
    · show (s.session.next (.handle opus text)).handler.ourChannelId = (s.ownChannels ++
        (s.session.events.take 1).flatMap fun event =>
          s.navigated ++ (event.ownChannel s.session.handler.ourSessionId).toList).getLast?.getD _
      have hour : (s.session.handler.checkWatch s.session.session.channelWatch).1.ourSessionId
          = s.session.handler.ourSessionId := by
        rw [Navigation.checkWatch_eq]
      rw [hhandler, Navigation.handleEvent_ourChannelId, hour, h.checkWatch, hevents]
      simp only [List.take_succ_cons, List.take_zero, List.flatMap_cons, List.flatMap_nil, List.append_nil,
        ← List.append_assoc]
      cases event.ownChannel s.session.handler.ourSessionId with
      | none =>
        rw [Option.toList_none, List.append_nil]
        rfl
      | some channelId =>
        rw [Option.toList_some, List.getLast?_concat]
        rfl

theorem Tracks.next (h : s.Tracks) (a : NavigationAction) : (s.next a).Tracks := by
  by_cases ha : ∀ opus text, a ≠ .handle opus text
  · refine ⟨?_, ?_⟩
    · intro user
      simp only [Membership.next, Navigation.handler_next _ ha, taken_of_ne a ha, List.filterMap_nil, List.append_nil]
      exact h.users user
    · simp only [Membership.next, Navigation.handler_next _ ha, taken_of_ne a ha, List.flatMap_nil, List.append_nil]
      exact h.current
  · push Not at ha
    obtain ⟨opus, text, rfl⟩ := ha
    exact h.handle opus text

theorem tracks_of_reachable (hs : membership.Reachable s) : s.Tracks := by
  apply hs.invariant (I := Tracks)
  · rintro s ⟨channel, packets, joined, client, userNames, lastChannelId, sent, ttsEnabled, callerNumber,
      serverHost, serverChannel, _, rfl⟩
    exact ⟨fun _ => rfl, rfl⟩
  · intro s a _ h _ _
    exact h.next a

/-! ### What is sent -/

theorem sent_eq {event : MumbleEvent} {events : List MumbleEvent} (hevents : s.session.events = event :: events)
    (opus : TrySend) (text : Bool) : s.sent opus text
      = ((s.session.handler.checkWatch s.session.session.channelWatch).1.handleEvent event opus text).2 :=
  Navigation.sent_eq hevents opus text

/-- The chimes for another user depend on the channels in which the handler has the user and the session. -/
theorem chimes_handleEvent (h : EventHandler) {event : MumbleEvent} {report : Report}
    (hreport : event.report = some report) (hother : report.user ≠ h.ourSessionId) (opus : TrySend)
    (text : Bool) :
    (.sound .userJoinedChannel ∈ (h.handleEvent event opus text).2 ↔
      report.channel = some h.ourChannelId) ∧
    (.sound .userLeftChannel ∈ (h.handleEvent event opus text).2 ↔
      h.userChannels.lookup report.user = some h.ourChannelId ∧ report.channel ≠ some h.ourChannelId) := by
  cases event with
  | userChangedChannel sessionId channelId =>
    cases hreport
    simp only [EventHandler.handleEvent, EventHandler.userChangedChannel]
    rw [if_neg hother]
    by_cases hjoined : channelId = h.ourChannelId
    · simp [hjoined]
    · by_cases hleft : h.userChannels.lookup sessionId = some h.ourChannelId
      · simp [hjoined, hleft]
      · simp [hjoined, hleft]
  | userDisconnected sessionId =>
    cases hreport
    simp only [EventHandler.handleEvent, EventHandler.userDisconnected]
    by_cases hleft : h.userChannels.lookup sessionId = some h.ourChannelId
    · simp [hleft]
    · simp [hleft]
  | _ => cases hreport

theorem Tracks.reported (h : s.Tracks) (user : SessionId) :
    s.session.handler.userChannels.lookup user
      = if ∃ earlier ∈ s.reports, earlier.user = user then s.reported user else none := by
  rw [h.users user, Membership.reported, lastReported_append]
  split
  · rename_i hmem
    exact foldl_update_of_mem hmem _ _
  · rename_i hnot
    exact foldl_update_of_not_mem hnot none

end Membership

/-- In every run, the chimes for an event are those that the reports call for exactly if a user whom the server
has last reported in our channel was reported after the handshake, and is now reported elsewhere. -/
theorem chimes_follow_iff {s : Membership} (hs : membership.Reachable s) {event : MumbleEvent}
    {events : List MumbleEvent} (hevents : s.session.events = event :: events) (opus : TrySend) (text : Bool) :
    s.ChimesFollow event (s.sent opus text) ↔ s.Followable event := by
  have htracks := Membership.tracks_of_reachable hs
  refine forall_congr' fun report => forall_congr' fun hreport => forall_congr' fun hother => ?_
  have hchimes := Membership.chimes_handleEvent
    (s.session.handler.checkWatch s.session.session.channelWatch).1 hreport
    (by rwa [Navigation.checkWatch_eq]) opus text
  have husers : (s.session.handler.checkWatch s.session.session.channelWatch).1.userChannels
      = s.session.handler.userChannels := by
    rw [Navigation.checkWatch_eq]
  rw [← Membership.sent_eq hevents, htracks.checkWatch, husers, htracks.reported] at hchimes
  rw [hchimes.1, hchimes.2]
  constructor
  · rintro ⟨hjoin, hleave⟩ hin
    have haway : report.channel ≠ some s.currentChannel := fun heq => (hjoin.1 heq).2 hin
    refine ⟨?_, haway⟩
    by_contra hsince
    have hknown := (hleave.2 ⟨hin, haway⟩).1
    rw [if_neg hsince] at hknown
    cases hknown
  · intro hfollow
    by_cases hin : s.reported report.user = some s.currentChannel
    · obtain ⟨hsince, haway⟩ := hfollow hin
      rw [if_pos hsince]
      exact ⟨⟨fun heq => absurd heq haway, And.left⟩, Iff.rfl⟩
    · refine ⟨⟨fun heq => ⟨heq, hin⟩, And.left⟩, ?_, fun hleft => absurd hleft.1 hin⟩
      rintro ⟨hknown, _⟩
      split at hknown
      · exact absurd hknown hin
      · cases hknown

/-- User 7 is in the root channel when the session is established there. -/
def rootHandshake : List HandshakePacket :=
  [.channelState (some 0) (some "Root"), .userState ⟨some 7, some "ann", some 0⟩, .serverSync (some 1)]

/-- The client of that handshake, without a configured channel. -/
def rootMembership : Membership :=
  ⟨.established ⟨1, none, 0, (∅ : FiniteMap ChannelId String).insert 0 "Root"⟩
      ((∅ : UserNames).insert 7 "ann") none true false none "mumble.example.com" 0,
    [⟨7, some 0⟩], [], 0, []⟩

theorem rootMembership_init : membership.init rootMembership :=
  ⟨"", rootHandshake, .ok (), _, _, none, true, false, none, "mumble.example.com", 0, rfl, rfl⟩

/-- The user goes to another channel, comes back and leaves the server. -/
theorem chimes_follow_back : ∃ s, membership.Reachable s ∧ s.session.events = [.userDisconnected 7] ∧
    s.ChimesFollow (.userDisconnected 7) (s.sent .ok true) := by
  obtain ⟨s, hs, hP⟩ := System.exists_reaches_of_run membership System.anyStep rootMembership_init
    [.packet (.userState ⟨some 7, none, some 3⟩), .handle .ok true,
      .packet (.userState ⟨some 7, none, some 0⟩), .handle .ok true, .packet (.userRemove 7)]
    (fun s => s.session.events = [.userDisconnected 7] ∧ s.reports = [⟨7, some 3⟩, ⟨7, some 0⟩])
    (by decide)
  obtain ⟨hevents, hreports⟩ := of_decide_eq_true hP
  refine ⟨s, hs, hevents, (chimes_follow_iff hs hevents .ok true).2 ?_⟩
  rintro report hreport _ _
  cases hreport
  refine ⟨?_, (Option.some_ne_none _).symm⟩
  rw [hreports]
  exact ⟨⟨7, some 0⟩, by decide, rfl⟩

/-- The user leaves the server; there is no chime. -/
theorem leave_unheard : ¬∀ s, membership.Reachable s → ∀ event events opus text,
    s.session.events = event :: events → s.session.handler.running = true →
      s.ChimesFollow event (s.sent opus text) := by
  intro hclaim
  obtain ⟨s, hs, hP⟩ := System.exists_reaches_of_run membership System.anyStep rootMembership_init
    [.packet (.userRemove 7)]
    (fun s => s.session.events = [.userDisconnected 7] ∧ s.session.handler.running = true ∧
      s.session.handler.ourSessionId = 1 ∧ s.reported 7 = some s.currentChannel ∧ s.sent .ok true = [])
    (by decide)
  obtain ⟨hevents, hrunning, hour, hin, hsent⟩ := of_decide_eq_true hP
  have hfollow := hclaim s hs _ _ .ok true hevents hrunning ⟨7, none⟩ rfl (by rw [hour]; decide)
  have hleft := hfollow.2.2 ⟨hin, (Option.some_ne_none _).symm⟩
  rw [hsent] at hleft
  cases hleft

end MumbleSip
