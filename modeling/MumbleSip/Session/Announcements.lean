import MumbleSip.Lib.LastWord
import MumbleSip.Session.Chimes

/-!
# Announcements of the own channel

The event handler announces a channel when the server reports the bridge's own session elsewhere than its last
report did. It starts without a report, although the session has been in its initial channel since it was
connected.
-/

namespace MumbleSip

open Transition History

/-- The channel that the report has the session in. -/
def Report.ownChannel (our : SessionId) (report : Report) : Option ChannelId :=
  if report.user = our then report.channel else none

namespace Membership

/-- The channel that the session was last known to be in: the one last reported, and the initial one before the
first report. -/
def lastKnown (s : Membership) : ChannelId :=
  (lastWord (Report.ownChannel s.session.handler.ourSessionId) s.reports).getD s.initialChannel

/-- A channel is announced only for a report that has the session there and not where it was last known to be. -/
def AnnouncesMoves (s : Membership) (sent : List Output) : Prop :=
  ∀ c name, .announcement c name ∈ sent →
    s.session.events.head? = some (.userChangedChannel s.session.handler.ourSessionId c) ∧ c ≠ s.lastKnown

/-- A report that has the session where it was last known to be comes after another one, and not after the
session's removal. -/
def StaysReported (s : Membership) : Prop :=
  s.session.handler.ttsEnabled = true →
    s.session.events.head? = some (.userChangedChannel s.session.handler.ourSessionId s.lastKnown) →
      lastReported s.reports s.session.handler.ourSessionId ≠ none

variable {s : Membership}

theorem lastReported_concat (reports : List Report) (report : Report) (user : SessionId) :
    lastReported (reports ++ [report]) user = Report.update user (lastReported reports user) report := by
  rw [lastReported_append]
  rfl

theorem lastWord_ownChannel {reports : List Report} {our : SessionId} {c : ChannelId}
    (h : lastReported reports our = some c) : lastWord (Report.ownChannel our) reports = some c := by
  induction reports using List.reverseRecOn with
  | nil => cases h
  | append_singleton reports report ih =>
    rw [lastReported_concat, Report.update] at h
    rw [lastWord_concat, Report.ownChannel]
    by_cases hour : report.user = our
    · rw [if_pos hour] at h ⊢
      rw [h, Option.some_or]
    · rw [if_neg hour] at h ⊢
      rw [Option.none_or, ih h]

theorem Tracks.announcement_mem_sent (h : s.Tracks) {opus : TrySend} {text : Bool} {c : ChannelId}
    {name : Option String} : .announcement c name ∈ s.sent opus text ↔
      s.session.events.head? = some (.userChangedChannel s.session.handler.ourSessionId c) ∧
        s.session.handler.ttsEnabled = true ∧ lastReported s.reports s.session.handler.ourSessionId ≠ some c ∧
        name = s.session.handler.channelNames.lookup c := by
  cases hevents : s.session.events with
  | nil =>
    have hsent : s.sent opus text = [] := Navigation.sent_of_nil hevents opus text
    rw [hsent]
    exact iff_of_false List.not_mem_nil nofun
  | cons event events =>
    rw [sent_eq hevents, Navigation.announcement_mem_handleEvent, Navigation.checkWatch_eq, h.users,
      List.head?_cons, Option.some.injEq]

theorem Tracks.announcesMoves_iff (h : s.Tracks) (opus : TrySend) (text : Bool) :
    s.AnnouncesMoves (s.sent opus text) ↔ s.StaysReported := by
  constructor
  · intro hmoves htts hhead hnone
    have hsent : .announcement s.lastKnown (s.session.handler.channelNames.lookup s.lastKnown)
        ∈ s.sent opus text := by
      rw [h.announcement_mem_sent, hnone]
      exact ⟨hhead, htts, nofun, rfl⟩
    exact (hmoves _ _ hsent).2 rfl
  · intro hstays c name hsent
    obtain ⟨hhead, htts, hother, _⟩ := h.announcement_mem_sent.1 hsent
    refine ⟨hhead, ?_⟩
    rintro rfl
    obtain ⟨c, hreported⟩ := Option.ne_none_iff_exists'.1 (hstays htts hhead)
    -- a reported session is where the report has it
    rw [hreported, lastKnown, lastWord_ownChannel hreported] at hother
    exact hother rfl

end Membership

/-- In every run, and whatever is announced on connect, a channel is announced only for a move of the session
exactly if a report that has it where it was last known to be is not the first one. -/
theorem announces_moves_iff {s : Membership} (hs : membership.Reachable s) (opus : TrySend) (text : Bool) :
    (s.AnnouncesMoves (s.sent opus text) ↔ s.StaysReported) ∧
      ∀ client initialChannelId ttsEnabled,
        connectOutput client initialChannelId ttsEnabled false = .sound .selfJoinedChannel := by
  refine ⟨(Membership.tracks_of_reachable hs).announcesMoves_iff opus text, ?_⟩
  intro client initialChannelId ttsEnabled
  exact if_neg fun h => Bool.false_ne_true h.2

/-- A session that has asked to join the channel configured for it. -/
def configuredMembership : Membership :=
  ⟨.established ⟨1, some 3, 3, (∅ : FiniteMap ChannelId String).insert 3 "Lounge"⟩ ∅ none true true none
    "mumble.example.com" 0, [], [], 3, []⟩

theorem configuredMembership_init : membership.init configuredMembership :=
  ⟨"Lounge", [.channelState (some 3) (some "Lounge"), .serverSync (some 1)], .ok (), _, _, none, true, true, none,
    "mumble.example.com", 0, rfl, rfl⟩

/-- The caller goes to another channel after the join is confirmed. -/
theorem move_announced : ∃ s, membership.Reachable s ∧ s.AnnouncesMoves (s.sent .ok true) ∧
    s.sent .ok true = [.announcement 2 none] := by
  obtain ⟨s, hs, hP⟩ := System.exists_reaches_of_run membership System.anyStep configuredMembership_init
    [.grant, .handle .ok true, .dtmf '*' true, .grant]
    (fun s => s.lastKnown = 3 ∧ s.session.events = [.userChangedChannel 1 2] ∧
      s.sent .ok true = [.announcement 2 none]) (by decide)
  obtain ⟨hknown, hevents, hsent⟩ := of_decide_eq_true hP
  refine ⟨s, hs, (announces_moves_iff hs .ok true).1.2 ?_, hsent⟩
  intro _ hhead
  rw [hevents, hknown] at hhead
  exact absurd (MumbleEvent.userChangedChannel.inj (Option.some.inj hhead)).2 (by decide)

/-- The confirmation of the initial join is announced. -/
theorem confirmation_announced : ¬∀ s, membership.Reachable s → ∀ opus text,
    s.AnnouncesMoves (s.sent opus text) := by
  intro hclaim
  obtain ⟨s, hs, hP⟩ := System.exists_reaches_of_run membership System.anyStep configuredMembership_init
    [.grant] (fun s => s.lastKnown = 3 ∧ .announcement 3 (some "Lounge") ∈ s.sent .ok true) (by decide)
  obtain ⟨hknown, hsent⟩ := of_decide_eq_true hP
  exact (hclaim s hs .ok true 3 (some "Lounge") hsent).2 hknown.symm

end MumbleSip
