import MumbleSip.Lib.Repetition
import MumbleSip.Session.Speech
import Mathlib.Data.List.SplitBy

/-!
# Debounced announcements

The announcements that the task has received, in the bursts that it takes for one. It calls the synthesis for the
last one of each burst, unless that is the channel of the burst before. A burst lasts until nothing has been sent
for the debounce window, if the task is never late, and to the end if the channel is closed.
-/

namespace MumbleSip

open Transition

/-- What was sent. -/
def Receipt.item (r : Receipt) : Announcement × Nat := (r.announcement, r.sentAt)

/-- The second announcement was sent before the window of the first was over. -/
def sameBurst (window : Nat) (r r' : Receipt) : Bool := window ≠ 0 && r'.sentAt < r.receivedAt + window

namespace Announcer

variable {s : Announcer}

/-- The bursts, with the one that is not over. -/
def groups (s : Announcer) : List (List Receipt) := s.bursts ++ if s.burst = [] then [] else [s.burst]

/-- The last announcement of each burst that is over. -/
def finals (s : Announcer) : List Announcement :=
  s.bursts.filterMap fun burst => burst.getLast?.map Receipt.announcement

/-! ### One step -/

theorem receive_cases (hen : s.enabled .receive) :
    (∃ item queue, s.task = .idle ∧ s.queue = item :: queue ∧ s.config.announceDebounce = 0 ∧
      s.receive = (s.take item queue).announce item.1 false) ∨
    (∃ item queue, (s.task = .idle ∧ s.config.announceDebounce ≠ 0 ∨
        ∃ latest deadline, s.task = .debouncing latest deadline) ∧
      s.queue = item :: queue ∧
      s.receive = { s.take item queue with task := .debouncing item.1 (s.now + s.config.announceDebounce) }) ∨
    (s.task = .idle ∧ s.queue = [] ∧ s.closed = true ∧ s.receive = { s with task := .ended }) ∨
    ∃ latest deadline, s.task = .debouncing latest deadline ∧ s.queue = [] ∧ s.closed = true ∧
      s.receive = s.announce latest true := by
  obtain ⟨hreceives, hready⟩ := hen
  cases htask : s.task with
  | idle =>
    cases hqueue : s.queue with
    | nil =>
      refine .inr (.inr (.inl ⟨rfl, rfl, hready.resolve_left fun hne => hne hqueue, ?_⟩))
      simp only [receive, htask, hqueue]
    | cons item queue =>
      by_cases hzero : s.config.announceDebounce = 0
      · refine .inl ⟨item, queue, rfl, rfl, hzero, ?_⟩
        simp only [receive, htask, hqueue]
        exact if_pos hzero
      · refine .inr (.inl ⟨item, queue, .inl ⟨rfl, hzero⟩, rfl, ?_⟩)
        simp only [receive, htask, hqueue]
        exact if_neg hzero
  | debouncing latest deadline =>
    cases hqueue : s.queue with
    | nil =>
      refine .inr (.inr (.inr ⟨latest, deadline, rfl, rfl, hready.resolve_left fun hne => hne hqueue, ?_⟩))
      simp only [receive, htask, hqueue]
    | cons item queue =>
      refine .inr (.inl ⟨item, queue, .inr ⟨latest, deadline, rfl⟩, rfl, ?_⟩)
      simp only [receive, htask, hqueue]
  | synthesizing a rxClosed =>
    rw [htask] at hreceives
    cases hreceives
  | ended =>
    rw [htask] at hreceives
    cases hreceives

theorem timeout_cases (hen : s.enabled .timeout) : ∃ latest deadline, s.task = .debouncing latest deadline ∧
    s.queue = [] ∧ deadline ≤ s.now ∧ s.timeout = s.announce latest false := by
  obtain ⟨hqueue, _, deadline, hdeadline, hle⟩ := hen
  cases htask : s.task with
  | debouncing latest deadline' =>
    rw [htask] at hdeadline
    cases hdeadline
    exact ⟨latest, deadline, rfl, hqueue, hle, by simp only [timeout, htask]⟩
  | _ =>
    rw [htask] at hdeadline
    cases hdeadline

theorem synthesized_cases {ok : Bool} (hen : s.enabled (.synthesized ok)) : ∃ x rxClosed,
    s.task = .synthesizing x rxClosed ∧ s.synthesized ok = s.conclude x (if ok then [.announcement x] else [])
      (if ok then .idle else if rxClosed then .ended else .idle) := by
  have hsynthesizes : s.task.synthesizes = true := hen
  cases htask : s.task with
  | synthesizing x rxClosed =>
    refine ⟨x, rxClosed, rfl, ?_⟩
    simp only [synthesized, htask]
    cases ok <;> rfl
  | _ =>
    rw [htask] at hsynthesizes
    cases hsynthesizes

/-- The burst is over, and its channel the one announced last. -/
def endBurst (s : Announcer) (latest : Announcement) : Announcer :=
  { s with bursts := s.bursts ++ [s.burst], burst := [], lastAnnouncedChannel := some latest.1 }

/-- A burst is passed over, or the synthesis is called, or there is none. -/
theorem announce_cases (s : Announcer) (latest : Announcement) (rxClosed : Bool) :
    (s.lastAnnouncedChannel = some latest.1 ∧
      s.announce latest rxClosed = (s.endBurst latest).conclude latest [] .idle) ∨
    (s.lastAnnouncedChannel ≠ some latest.1 ∧ (s.config.ttsEnabled = true ∧ s.config.runtime = true) ∧
      s.announce latest rxClosed = { s.endBurst latest with
        task := .synthesizing latest rxClosed, calls := s.calls ++ [latest] }) ∨
    (s.lastAnnouncedChannel ≠ some latest.1 ∧ ¬(s.config.ttsEnabled = true ∧ s.config.runtime = true) ∧
      s.announce latest rxClosed
        = (s.endBurst latest).conclude latest [] (if rxClosed then .ended else .idle)) := by
  unfold announce
  by_cases hsame : s.lastAnnouncedChannel = some latest.1
  · refine .inl ⟨hsame, (if_pos hsame).trans ?_⟩
    rw [endBurst, ← hsame]
  · by_cases hruntime : s.config.ttsEnabled = true ∧ s.config.runtime = true
    · exact .inr (.inl ⟨hsame, hruntime, by simp only [if_neg hsame, if_pos hruntime, endBurst]⟩)
    · exact .inr (.inr ⟨hsame, hruntime, by simp only [if_neg hsame, if_neg hruntime, endBurst]⟩)

theorem announce_frame (s : Announcer) (latest : Announcement) (rxClosed : Bool) :
    (s.announce latest rxClosed).config = s.config ∧ (s.announce latest rxClosed).now = s.now ∧
      (s.announce latest rxClosed).queue = s.queue ∧ (s.announce latest rxClosed).closed = s.closed ∧
      (s.announce latest rxClosed).bursts = s.bursts ++ [s.burst] ∧ (s.announce latest rxClosed).burst = [] ∧
      (s.announce latest rxClosed).task.deadline = none := by
  rcases announce_cases s latest rxClosed with ⟨_, heq⟩ | ⟨_, _, heq⟩ | ⟨_, _, heq⟩
  · rw [heq]
    exact ⟨rfl, rfl, rfl, rfl, rfl, rfl, rfl⟩
  · rw [heq]
    exact ⟨rfl, rfl, rfl, rfl, rfl, rfl, rfl⟩
  · rw [heq]
    cases rxClosed
    · exact ⟨rfl, rfl, rfl, rfl, rfl, rfl, rfl⟩
    · exact ⟨rfl, rfl, rfl, rfl, rfl, rfl, rfl⟩

/-! ### The bursts -/

/-- Where the task waits fits what it has received. -/
def TaskFits (s : Announcer) : Prop :=
  match s.task with
  | .idle => s.burst = []
  | .debouncing latest deadline => s.config.announceDebounce ≠ 0 ∧ ∃ r, s.burst.getLast? = some r ∧
      r.announcement = latest ∧ deadline = r.receivedAt + s.config.announceDebounce
  | .synthesizing _ rxClosed => s.burst = [] ∧ (rxClosed = true → s.closed = true ∧ s.queue = [])
  | .ended => s.burst = [] ∧ s.closed = true ∧ s.queue = []

theorem TaskFits.idle (h : s.TaskFits) (htask : s.task = .idle) : s.burst = [] := by
  rwa [TaskFits, htask] at h

theorem TaskFits.debouncing (h : s.TaskFits) {latest : Announcement} {deadline : Nat}
    (htask : s.task = .debouncing latest deadline) : s.config.announceDebounce ≠ 0 ∧
      ∃ r, s.burst.getLast? = some r ∧ r.announcement = latest ∧
        deadline = r.receivedAt + s.config.announceDebounce := by
  rwa [TaskFits, htask] at h

theorem TaskFits.synthesizing (h : s.TaskFits) {x : Announcement} {rxClosed : Bool}
    (htask : s.task = .synthesizing x rxClosed) :
    s.burst = [] ∧ (rxClosed = true → s.closed = true ∧ s.queue = []) := by
  rwa [TaskFits, htask] at h

theorem TaskFits.ended (h : s.TaskFits) (htask : s.task = .ended) :
    s.burst = [] ∧ s.closed = true ∧ s.queue = [] := by
  rwa [TaskFits, htask] at h

/-- Every announcement sent is in one burst or in the queue, and the synthesis is called for the last one of a
burst unless the burst before ended in its channel. -/
structure Histories (s : Announcer) : Prop where
  sent : s.groups.flatten.map Receipt.item ++ s.queue = s.sent
  nonempty : [] ∉ s.bursts
  single : s.config.announceDebounce = 0 → ∀ burst ∈ s.bursts, burst.length = 1
  last : s.lastAnnouncedChannel = s.finals.getLast?.map Prod.fst
  calls : s.config.ttsEnabled = true → s.config.runtime = true →
    s.calls = s.finals.destutter fun a b => a.1 ≠ b.1

theorem groups_of_nil (hburst : s.burst = []) : s.groups = s.bursts := by
  rw [groups, if_pos hburst, List.append_nil]

theorem groups_of_ne (hburst : s.burst ≠ []) : s.groups = s.bursts ++ [s.burst] := by
  rw [groups, if_neg hburst]

theorem burst_ne_nil {r : Receipt} (hlast : s.burst.getLast? = some r) : s.burst ≠ [] :=
  List.ne_nil_of_mem (List.mem_of_getLast? hlast)

theorem finals_concat {s' : Announcer} (hbursts : s'.bursts = s.bursts ++ [s.burst]) {r : Receipt}
    (hlast : s.burst.getLast? = some r) : s'.finals = s.finals ++ [r.announcement] := by
  rw [finals, hbursts, List.filterMap_append, List.filterMap_cons_some (by rw [hlast]; rfl)]
  rfl

theorem Histories.announce (h : s.Histories) {r : Receipt} (hlast : s.burst.getLast? = some r)
    (hsingle : s.config.announceDebounce = 0 → s.burst.length = 1) (rxClosed : Bool) :
    (s.announce r.announcement rxClosed).Histories := by
  have hburst := burst_ne_nil hlast
  have hsent := h.sent
  rw [groups_of_ne hburst] at hsent
  -- the calls are left to show
  have hdone : ∀ s' : Announcer, s'.config = s.config → s'.queue = s.queue → s'.sent = s.sent →
      s'.bursts = s.bursts ++ [s.burst] → s'.burst = [] → s'.lastAnnouncedChannel = some r.announcement.1 →
      (s.config.ttsEnabled = true → s.config.runtime = true → s'.calls
        = if s.finals.getLast?.map Prod.fst = some r.announcement.1 then s.calls
          else s.calls ++ [r.announcement]) → s'.Histories := by
    intro s' hconfig hqueue hsent' hbursts hburst' hlast' hcalls
    have hfinals : s'.finals = s.finals ++ [r.announcement] := finals_concat hbursts hlast
    refine ⟨?_, ?_, ?_, ?_, ?_⟩
    · rw [groups_of_nil hburst', hbursts, hqueue, hsent']
      exact hsent
    · rw [hbursts, List.mem_append, List.mem_singleton, not_or]
      exact ⟨h.nonempty, hburst.symm⟩
    · rw [hbursts, hconfig]
      intro hzero burst hmem
      rcases List.mem_append.1 hmem with hold | hnew
      · exact h.single hzero burst hold
      · rw [List.mem_singleton.1 hnew]
        exact hsingle hzero
    · rw [hfinals, hlast', List.getLast?_concat]
      rfl
    · rw [hconfig]
      intro htts hruntime
      rw [hcalls htts hruntime, hfinals, List.destutter_concat, h.calls htts hruntime]
  rcases announce_cases s r.announcement rxClosed with ⟨hsame, heq⟩ | ⟨hother, _, heq⟩ | ⟨_, hnone, heq⟩
  · rw [heq]
    refine hdone _ rfl rfl rfl rfl rfl rfl fun _ _ => ?_
    rw [if_pos (h.last.symm.trans hsame)]
    rfl
  · rw [heq]
    refine hdone _ rfl rfl rfl rfl rfl rfl fun _ _ => ?_
    rw [if_neg fun hlast => hother (h.last.trans hlast)]
  · rw [heq]
    exact hdone _ rfl rfl rfl rfl rfl rfl fun htts hruntime => absurd ⟨htts, hruntime⟩ hnone

theorem TaskFits.announce (latest : Announcement) {rxClosed : Bool}
    (hclosed : rxClosed = true → s.closed = true ∧ s.queue = []) : (s.announce latest rxClosed).TaskFits := by
  rcases announce_cases s latest rxClosed with ⟨_, heq⟩ | ⟨_, _, heq⟩ | ⟨_, _, heq⟩
  · rw [heq]
    exact rfl
  · rw [heq]
    exact ⟨rfl, hclosed⟩
  · rw [heq]
    cases rxClosed with
    | true => exact ⟨rfl, hclosed rfl⟩
    | false => exact rfl

theorem Histories.take (h : s.Histories) {item : Announcement × Nat} {queue : List (Announcement × Nat)}
    (hqueue : s.queue = item :: queue) : (s.take item queue).Histories := by
  refine ⟨?_, h.nonempty, h.single, h.last, h.calls⟩
  have hsent := h.sent
  have hgroups : (s.take item queue).groups = s.bursts ++ [s.burst ++ [⟨item.1, item.2, s.now⟩]] :=
    groups_of_ne (List.append_ne_nil_of_right_ne_nil _ (List.cons_ne_nil _ _))
  have hflatten : s.groups.flatten = s.bursts.flatten ++ s.burst := by
    by_cases hburst : s.burst = []
    · rw [groups_of_nil hburst, hburst, List.append_nil]
    · rw [groups_of_ne hburst, List.flatten_append, List.flatten_singleton]
  rw [hflatten, hqueue] at hsent
  rw [hgroups, List.flatten_append, List.flatten_singleton]
  show _ ++ queue = s.sent
  rw [← hsent]
  simp [Receipt.item]

theorem Histories.withTask (h : s.Histories) (task : AnnounceTask) : Histories { s with task := task } :=
  ⟨h.sent, h.nonempty, h.single, h.last, h.calls⟩

theorem Histories.conclude (h : s.Histories) (a : Announcement) (sounds : List Sound) (task : AnnounceTask) :
    (s.conclude a sounds task).Histories :=
  ⟨h.sent, h.nonempty, h.single, h.last, h.calls⟩

/-- The histories are right and the task fits them. -/
structure Debounces (s : Announcer) : Prop where
  histories : s.Histories
  task : s.TaskFits

theorem TaskFits.congr (h : s.TaskFits) {s' : Announcer} (htask : s'.task = s.task)
    (hconfig : s'.config = s.config) (hburst : s'.burst = s.burst)
    (hclosed : s.closed = true ∧ s.queue = [] → s'.closed = true ∧ s'.queue = []) : s'.TaskFits := by
  unfold TaskFits at h ⊢
  rw [htask, hconfig, hburst]
  cases hcase : s.task with
  | synthesizing a rxClosed =>
    rw [hcase] at h
    exact ⟨h.1, fun hrx => hclosed (h.2 hrx)⟩
  | ended =>
    rw [hcase] at h
    exact ⟨h.1, hclosed h.2⟩
  | _ =>
    rw [hcase] at h
    exact h

theorem Debounces.receive (h : s.Debounces) (hen : s.enabled .receive) : s.receive.Debounces := by
  rcases receive_cases hen with ⟨item, queue, htask, hqueue, hzero, heq⟩ |
    ⟨item, queue, htask, hqueue, heq⟩ | ⟨htask, hqueue, hclosed, heq⟩ |
    ⟨latest, deadline, htask, hqueue, hclosed, heq⟩
  · rw [heq]
    have htake : (s.take item queue).burst = [⟨item.1, item.2, s.now⟩] := by
      rw [Announcer.take, h.task.idle htask]
      rfl
    have hannounce := (h.histories.take hqueue).announce (r := ⟨item.1, item.2, s.now⟩)
      (by rw [htake]; rfl) (fun _ => by rw [htake]; rfl) false
    exact ⟨hannounce, TaskFits.announce item.1 fun hrx => by cases hrx⟩
  · rw [heq]
    refine ⟨(h.histories.take hqueue).withTask _, ?_, ⟨item.1, item.2, s.now⟩, ?_, rfl, rfl⟩
    · rcases htask with ⟨_, hne⟩ | ⟨latest, deadline, htask⟩
      · exact hne
      · exact (h.task.debouncing htask).1
    · exact List.getLast?_concat
  · rw [heq]
    exact ⟨h.histories.withTask _, h.task.idle htask, hclosed, hqueue⟩
  · obtain ⟨hne, r, hlast, hlatest, _⟩ := h.task.debouncing htask
    rw [heq, ← hlatest]
    exact ⟨h.histories.announce hlast (fun hzero => absurd hzero hne) true,
      TaskFits.announce r.announcement fun _ => ⟨hclosed, hqueue⟩⟩

theorem Debounces.timeout (h : s.Debounces) (hen : s.enabled .timeout) : s.timeout.Debounces := by
  obtain ⟨latest, deadline, htask, _, _, heq⟩ := timeout_cases hen
  obtain ⟨hne, r, hlast, hlatest, _⟩ := h.task.debouncing htask
  rw [heq, ← hlatest]
  exact ⟨h.histories.announce hlast (fun hzero => absurd hzero hne) false,
    TaskFits.announce r.announcement fun hrx => by cases hrx⟩

theorem Debounces.synthesized (h : s.Debounces) (ok : Bool) (hen : s.enabled (.synthesized ok)) :
    (s.synthesized ok).Debounces := by
  obtain ⟨x, rxClosed, htask, heq⟩ := synthesized_cases hen
  obtain ⟨hburst, hclosed⟩ := h.task.synthesizing htask
  rw [heq]
  refine ⟨h.histories.conclude _ _ _, ?_⟩
  cases ok with
  | true => exact hburst
  | false =>
    cases rxClosed with
    | true => exact ⟨hburst, hclosed rfl⟩
    | false => exact hburst

theorem Debounces.next (h : s.Debounces) {a : AnnouncerAction} (hen : s.enabled a) : (s.next a).Debounces := by
  cases a with
  | send a =>
    have hopen : s.closed = false := hen
    refine ⟨⟨?_, h.histories.nonempty, h.histories.single, h.histories.last, h.histories.calls⟩, ?_⟩
    · show s.groups.flatten.map Receipt.item ++ (s.queue ++ [(a, s.now)]) = s.sent ++ [(a, s.now)]
      rw [← List.append_assoc, h.histories.sent]
    · refine h.task.congr rfl rfl rfl fun hclosed => ?_
      rw [hopen] at hclosed
      cases hclosed.1
  | close => exact ⟨⟨h.histories.sent, h.histories.nonempty, h.histories.single, h.histories.last,
      h.histories.calls⟩, h.task.congr rfl rfl rfl fun hclosed => ⟨rfl, hclosed.2⟩⟩
  | wait ms => exact ⟨⟨h.histories.sent, h.histories.nonempty, h.histories.single, h.histories.last,
      h.histories.calls⟩, h.task.congr rfl rfl rfl id⟩
  | receive => exact h.receive hen
  | timeout => exact h.timeout hen
  | synthesized ok => exact h.synthesized ok hen

theorem debounces_of_reachable (hs : announcer.Reachable s) : s.Debounces := by
  apply hs.invariant (I := Debounces)
  · rintro s ⟨config, rfl⟩
    exact ⟨⟨rfl, List.not_mem_nil, fun _ => nofun, rfl, fun _ _ => rfl⟩, rfl⟩
  · intro s a _ h hen _
    exact h.next hen

/-! ### The end -/

/-- The steps of the task. -/
def TaskStep : AnnouncerAction → Prop
  | .receive | .timeout | .synthesized _ => True
  | .send _ | .close | .wait _ => False

/-- How many steps the task still makes at most once the channel is closed. -/
def remaining (s : Announcer) : Nat :=
  3 * s.queue.length +
    match s.task with
    | .ended => 0
    | .idle => 1
    | .synthesizing _ _ => 2
    | .debouncing _ _ => 3

theorem remaining_announce (s : Announcer) (latest : Announcement) (rxClosed : Bool) :
    (s.announce latest rxClosed).remaining ≤ 3 * s.queue.length + 2 := by
  rcases announce_cases s latest rxClosed with ⟨_, heq⟩ | ⟨_, _, heq⟩ | ⟨_, _, heq⟩
  · rw [heq]
    exact Nat.le_succ _
  · rw [heq]
    exact Nat.le_refl _
  · rw [heq]
    cases rxClosed
    · exact Nat.le_succ _
    · exact Nat.le_add_right _ _

theorem remaining_next {a : AnnouncerAction} (ha : TaskStep a) (hen : s.enabled a) :
    (s.next a).remaining < s.remaining := by
  cases a with
  | receive =>
    show s.receive.remaining < s.remaining
    rcases receive_cases hen with ⟨item, queue, htask, hqueue, _, heq⟩ |
      ⟨item, queue, htask, hqueue, heq⟩ | ⟨htask, hqueue, _, heq⟩ | ⟨latest, deadline, htask, hqueue, _, heq⟩
    · have hle := remaining_announce (s.take item queue) item.1 false
      have hlength : (s.take item queue).queue.length = queue.length := rfl
      rw [heq]
      simp only [remaining, htask, hqueue, List.length_cons] at hle ⊢
      omega
    · rw [heq]
      rcases htask with ⟨htask, _⟩ | ⟨latest, deadline, htask⟩
      · simp only [remaining, take, htask, hqueue, List.length_cons]
        omega
      · simp only [remaining, take, htask, hqueue, List.length_cons]
        omega
    · rw [heq]
      simp only [remaining, htask]
      omega
    · have hle := remaining_announce s latest true
      rw [heq]
      simp only [remaining, htask] at hle ⊢
      omega
  | timeout =>
    show s.timeout.remaining < s.remaining
    obtain ⟨latest, deadline, htask, _, _, heq⟩ := timeout_cases hen
    have hle := remaining_announce s latest false
    rw [heq]
    simp only [remaining, htask] at hle ⊢
    omega
  | synthesized ok =>
    show (s.synthesized ok).remaining < s.remaining
    obtain ⟨x, rxClosed, htask, heq⟩ := synthesized_cases hen
    rw [heq]
    simp only [remaining, conclude, htask]
    cases ok <;> cases rxClosed <;> simp
  | _ => exact absurd ha id

/-- Once the channel is closed, the task goes on until it has ended. -/
theorem exists_taskStep (hclosed : s.closed = true) (hnot : s.task ≠ .ended) : ∃ a, TaskStep a ∧ s.enabled a := by
  cases htask : s.task with
  | idle => exact ⟨.receive, trivial, by rw [htask]; rfl, .inr hclosed⟩
  | debouncing latest deadline => exact ⟨.receive, trivial, by rw [htask]; rfl, .inr hclosed⟩
  | synthesizing a rxClosed => exact ⟨.synthesized true, trivial, (congrArg AnnounceTask.synthesizes htask).trans rfl⟩
  | ended => exact absurd htask hnot

/-! ### The debounce window -/

/-- The second burst starts when the window of the first is over. -/
def Apart (window : Nat) (burst burst' : List Receipt) : Prop :=
  ∃ ha hb, sameBurst window (burst.getLast ha) (burst'.head hb) = false

/-- The bursts are apart, and between two bursts nothing is on its way that was sent within the window. -/
structure Spaced (s : Announcer) : Prop where
  apart : s.groups.IsChain (Apart s.config.announceDebounce)
  quiet : s.burst = [] → ∀ burst ∈ s.bursts.getLast?, ∀ r ∈ burst.getLast?, s.config.announceDebounce = 0 ∨
    (∀ item ∈ s.queue, r.receivedAt + s.config.announceDebounce ≤ item.2) ∧
      (r.receivedAt + s.config.announceDebounce ≤ s.now ∨ s.closed = true ∧ s.queue = [])

theorem sameBurst_eq_false {window : Nat} {r r' : Receipt} (h : window = 0 ∨ r.receivedAt + window ≤ r'.sentAt) :
    sameBurst window r r' = false := by
  rw [sameBurst, Bool.and_eq_false_iff]
  rcases h with hzero | hle
  · exact .inl (by simp [hzero])
  · exact .inr (decide_eq_false (Nat.not_lt.2 hle))

theorem Spaced.take_idle (h : s.Spaced) (hnonempty : [] ∉ s.bursts) (hburst : s.burst = [])
    {item : Announcement × Nat} {queue : List (Announcement × Nat)} (hqueue : s.queue = item :: queue) :
    (s.take item queue).Spaced := by
  have htake : (s.take item queue).burst = [⟨item.1, item.2, s.now⟩] := by
    rw [Announcer.take, hburst]
    rfl
  have hne : (s.take item queue).burst ≠ [] := by
    rw [htake]
    exact List.cons_ne_nil _ _
  refine ⟨?_, fun hnil => absurd hnil hne⟩
  have hapart := h.apart
  rw [groups_of_nil hburst] at hapart
  rw [groups_of_ne hne, htake]
  refine List.isChain_append.2 ⟨hapart, List.isChain_singleton _, fun burst hlast burst' hhead => ?_⟩
  cases hhead
  have hburst' : burst ≠ [] := fun hnil => hnonempty (hnil ▸ List.mem_of_mem_getLast? hlast)
  refine ⟨hburst', List.cons_ne_nil _ _, sameBurst_eq_false ?_⟩
  have hquiet := h.quiet hburst burst hlast (burst.getLast hburst') (List.getLast_mem_getLast? hburst')
  rw [hqueue] at hquiet
  exact hquiet.imp_right fun hafter => hafter.1 item List.mem_cons_self

theorem Spaced.take_debouncing (h : s.Spaced) (hburst : s.burst ≠ []) (item : Announcement × Nat)
    (queue : List (Announcement × Nat)) : (s.take item queue).Spaced := by
  have hne : (s.take item queue).burst ≠ [] := List.append_ne_nil_of_left_ne_nil hburst _
  refine ⟨?_, fun hnil => absurd hnil hne⟩
  have hapart := h.apart
  rw [groups_of_ne hburst] at hapart
  rw [groups_of_ne hne]
  obtain ⟨hchain, _, hboundary⟩ := List.isChain_append.1 hapart
  refine List.isChain_append.2 ⟨hchain, List.isChain_singleton _, fun burst hlast burst' hhead => ?_⟩
  cases hhead
  obtain ⟨ha, hb, hfalse⟩ := hboundary burst hlast s.burst rfl
  refine ⟨ha, hne, ?_⟩
  rw [← hfalse]
  congr 1
  exact List.head_append_of_ne_nil hb

theorem Spaced.announce (h : s.Spaced) {r : Receipt} (hlast : s.burst.getLast? = some r) (rxClosed : Bool)
    (hover : s.config.announceDebounce = 0 ∨
      s.queue = [] ∧ (r.receivedAt + s.config.announceDebounce ≤ s.now ∨ s.closed = true)) :
    (s.announce r.announcement rxClosed).Spaced := by
  have hburst := burst_ne_nil hlast
  obtain ⟨hconfig, hnow, hqueue, hclosed, hbursts, hburst', _⟩ := announce_frame s r.announcement rxClosed
  refine ⟨?_, fun _ burst hmem r' hr' => ?_⟩
  · rw [groups_of_nil hburst', hbursts, hconfig, ← groups_of_ne hburst]
    exact h.apart
  · rw [hbursts, List.getLast?_concat] at hmem
    cases hmem
    rw [hlast] at hr'
    cases hr'
    rw [hconfig, hqueue, hclosed, hnow]
    refine hover.imp_right fun ⟨hempty, htime⟩ => ⟨?_, htime.imp_right fun hclosed => ⟨hclosed, hempty⟩⟩
    rw [hempty]
    exact nofun

theorem Spaced.next (h : s.Spaced) (hs : s.Debounces) {a : AnnouncerAction} (hen : s.enabled a) :
    (s.next a).Spaced := by
  cases a with
  | send a =>
    have hopen : s.closed = false := hen
    refine ⟨h.apart, fun hburst burst hmem r hr => ?_⟩
    refine (h.quiet hburst burst hmem r hr).imp_right fun ⟨hitems, htime⟩ => ?_
    have hle : r.receivedAt + s.config.announceDebounce ≤ s.now := by
      rcases htime with hle | ⟨hclosed, _⟩
      · exact hle
      · rw [hopen] at hclosed
        cases hclosed
    refine ⟨fun item hitem => ?_, .inl hle⟩
    rcases List.mem_append.1 hitem with hold | hnew
    · exact hitems item hold
    · rw [List.mem_singleton.1 hnew]
      exact hle
  | close =>
    refine ⟨h.apart, fun hburst burst hmem r hr => ?_⟩
    exact (h.quiet hburst burst hmem r hr).imp_right fun ⟨hitems, htime⟩ =>
      ⟨hitems, htime.imp_right fun hclosed => ⟨rfl, hclosed.2⟩⟩
  | wait ms =>
    refine ⟨h.apart, fun hburst burst hmem r hr => ?_⟩
    exact (h.quiet hburst burst hmem r hr).imp_right fun ⟨hitems, htime⟩ =>
      ⟨hitems, htime.imp_left fun hle => hle.trans (Nat.le_add_right _ _)⟩
  | receive =>
    show s.receive.Spaced
    rcases receive_cases hen with ⟨item, queue, htask, hqueue, hzero, heq⟩ |
      ⟨item, queue, htask, hqueue, heq⟩ | ⟨htask, hqueue, hclosed, heq⟩ |
      ⟨latest, deadline, htask, hqueue, hclosed, heq⟩
    · have htake := h.take_idle hs.histories.nonempty (hs.task.idle htask) hqueue
      rw [heq]
      exact htake.announce (r := ⟨item.1, item.2, s.now⟩) List.getLast?_concat false (.inl hzero)
    · rw [heq]
      rcases htask with ⟨htask, _⟩ | ⟨latest, deadline, htask⟩
      · have htake := h.take_idle hs.histories.nonempty (hs.task.idle htask) hqueue
        exact ⟨htake.apart, htake.quiet⟩
      · obtain ⟨_, r, hlast, _⟩ := hs.task.debouncing htask
        have htake := h.take_debouncing (burst_ne_nil hlast) item queue
        exact ⟨htake.apart, htake.quiet⟩
    · rw [heq]
      exact ⟨h.apart, h.quiet⟩
    · obtain ⟨_, r, hlast, rfl, _⟩ := hs.task.debouncing htask
      rw [heq]
      exact h.announce hlast true (.inr ⟨hqueue, .inr hclosed⟩)
  | timeout =>
    show s.timeout.Spaced
    obtain ⟨latest, deadline, htask, hqueue, hle, heq⟩ := timeout_cases hen
    obtain ⟨_, r, hlast, rfl, rfl⟩ := hs.task.debouncing htask
    rw [heq]
    exact h.announce hlast false (.inr ⟨hqueue, .inl hle⟩)
  | synthesized ok =>
    show (s.synthesized ok).Spaced
    obtain ⟨x, rxClosed, _, heq⟩ := synthesized_cases hen
    rw [heq]
    exact ⟨h.apart, h.quiet⟩

theorem spaced_of_reachable (hs : announcer.Reachable s) : s.Spaced := by
  apply hs.invariant (I := Spaced)
  · rintro s ⟨config, rfl⟩
    exact ⟨List.isChain_nil, fun _ _ => nofun⟩
  · intro s a hs h hen _
    exact h.next (debounces_of_reachable hs) hen

/-! ### A task that is never late -/

/-- While it waits for more announcements, the task is polled before time goes on, and its timer before another
announcement is sent. -/
def punctual (s : Announcer) : AnnouncerAction → Prop
  | .send _ => ¬s.enabled .timeout
  | .wait ms => ∀ deadline ∈ s.task.deadline, s.queue = [] ∧ s.closed = false ∧ s.now + ms ≤ deadline
  | _ => True

instance (s : Announcer) : ∀ a : AnnouncerAction, Decidable (s.punctual a)
  | .send _ => inferInstanceAs (Decidable ¬_)
  | .wait _ => inferInstanceAs (Decidable (∀ deadline ∈ _, _))
  | .close | .receive | .timeout | .synthesized _ => inferInstanceAs (Decidable True)

/-- Within a burst, the announcements follow in the window, and so will those on their way. -/
structure Prompt (s : Announcer) : Prop where
  chain : ∀ burst ∈ s.groups, burst.IsChain fun r r' => sameBurst s.config.announceDebounce r r'
  queued : ∀ item ∈ s.queue, item.2 ≤ s.now
  deadline : ∀ deadline ∈ s.task.deadline, (∀ item ∈ s.queue, item.2 < deadline) ∧
    (s.now < deadline ∨ s.queue = [] ∧ s.now ≤ deadline)

theorem Prompt.announce (h : s.Prompt) (hburst : s.burst ≠ []) (latest : Announcement) (rxClosed : Bool) :
    (s.announce latest rxClosed).Prompt := by
  obtain ⟨hconfig, hnow, hqueue, _, hbursts, hburst', hdeadline⟩ := announce_frame s latest rxClosed
  refine ⟨?_, ?_, ?_⟩
  · rw [groups_of_nil hburst', hbursts, hconfig, ← groups_of_ne hburst]
    exact h.chain
  · rw [hqueue, hnow]
    exact h.queued
  · rw [hdeadline]
    exact nofun

theorem Prompt.take_chain (h : s.Prompt) {item : Announcement × Nat} (queue : List (Announcement × Nat))
    (hlast : ∀ r ∈ s.burst.getLast?, sameBurst s.config.announceDebounce r ⟨item.1, item.2, s.now⟩ = true) :
    ∀ burst ∈ (s.take item queue).groups, burst.IsChain fun r r' => sameBurst s.config.announceDebounce r r' := by
  have hne : (s.take item queue).burst ≠ [] := List.append_ne_nil_of_right_ne_nil _ (List.cons_ne_nil _ _)
  rw [groups_of_ne hne]
  intro burst hmem
  rcases List.mem_append.1 hmem with hold | hnew
  · exact h.chain burst (List.mem_append_left _ hold)
  · rw [List.mem_singleton.1 hnew]
    refine List.isChain_append.2 ⟨?_, List.isChain_singleton _, fun r hr r' hr' => ?_⟩
    · by_cases hburst : s.burst = []
      · rw [hburst]
        exact List.isChain_nil
      · apply h.chain
        rw [groups_of_ne hburst]
        exact List.mem_append_right _ List.mem_cons_self
    · cases hr'
      exact hlast r hr

theorem Prompt.receive (h : s.Prompt) (hfits : s.TaskFits) (hen : s.enabled .receive) : s.receive.Prompt := by
  -- what is received first was sent before the new deadline
  have htimes : ∀ {item : Announcement × Nat} {queue : List (Announcement × Nat)}, s.queue = item :: queue →
      ∀ item' ∈ queue, item'.2 ≤ s.now := fun hqueue item' hmem =>
    h.queued item' (hqueue ▸ List.mem_cons_of_mem _ hmem)
  have hchain : ∀ (item : Announcement × Nat) (queue : List (Announcement × Nat)), s.burst = [] →
      ∀ burst ∈ (s.take item queue).groups, burst.IsChain fun r r' => sameBurst s.config.announceDebounce r r' := by
    intro item queue hburst
    apply h.take_chain queue
    rw [hburst]
    exact nofun
  rcases receive_cases hen with ⟨item, queue, htask, hqueue, hzero, heq⟩ |
    ⟨item, queue, htask, hqueue, heq⟩ | ⟨htask, hqueue, hclosed, heq⟩ |
    ⟨latest, deadline, htask, hqueue, hclosed, heq⟩
  · rw [heq]
    have htake : (s.take item queue).Prompt := by
      refine ⟨hchain item queue (hfits.idle htask), htimes hqueue, ?_⟩
      show ∀ deadline ∈ s.task.deadline, _
      rw [htask]
      exact nofun
    exact htake.announce (List.append_ne_nil_of_right_ne_nil _ (List.cons_ne_nil _ _)) _ _
  · have hpos : s.config.announceDebounce ≠ 0 := by
      rcases htask with ⟨_, hne⟩ | ⟨latest, deadline, htask⟩
      · exact hne
      · exact (hfits.debouncing htask).1
    rw [heq]
    refine ⟨?_, htimes hqueue, ?_⟩
    · rcases htask with ⟨htask, _⟩ | ⟨latest, deadline, htask⟩
      · exact hchain item queue (hfits.idle htask)
      · obtain ⟨_, r, hlast, _, rfl⟩ := hfits.debouncing htask
        apply h.take_chain queue
        intro r' hr'
        rw [hlast] at hr'
        cases hr'
        have hlt := (h.deadline _ (by rw [htask]; rfl)).1 item (hqueue ▸ List.mem_cons_self)
        rw [sameBurst, Bool.and_eq_true]
        exact ⟨by simpa using hpos, decide_eq_true hlt⟩
    · intro deadline hdeadline
      cases hdeadline
      have hlt : s.now < s.now + s.config.announceDebounce := Nat.lt_add_of_pos_right (Nat.pos_of_ne_zero hpos)
      exact ⟨fun item' hmem => (htimes hqueue item' hmem).trans_lt hlt, .inl hlt⟩
  · rw [heq]
    exact ⟨h.chain, h.queued, nofun⟩
  · obtain ⟨_, r, hlast, _⟩ := hfits.debouncing htask
    rw [heq]
    exact h.announce (burst_ne_nil hlast) latest true

theorem Prompt.next (h : s.Prompt) (hs : s.Debounces) {a : AnnouncerAction} (hen : s.enabled a)
    (hpunctual : s.punctual a) : (s.next a).Prompt := by
  cases a with
  | send a =>
    have hopen : s.closed = false := hen
    refine ⟨h.chain, fun item hitem => ?_, fun deadline hdeadline => ?_⟩
    · rcases List.mem_append.1 hitem with hold | hnew
      · exact h.queued item hold
      · rw [List.mem_singleton.1 hnew]
        exact Nat.le_refl _
    · obtain ⟨hitems, htime⟩ := h.deadline deadline hdeadline
      have hlt : s.now < deadline := by
        rcases htime with hlt | ⟨hqueue, _⟩
        · exact hlt
        · exact Nat.not_le.1 fun hle => hpunctual ⟨hqueue, hopen, deadline, hdeadline, hle⟩
      refine ⟨fun item hitem => ?_, .inl hlt⟩
      rcases List.mem_append.1 hitem with hold | hnew
      · exact hitems item hold
      · rw [List.mem_singleton.1 hnew]
        exact hlt
  | close => exact ⟨h.chain, h.queued, h.deadline⟩
  | wait ms =>
    refine ⟨h.chain, fun item hitem => (h.queued item hitem).trans (Nat.le_add_right _ _),
      fun deadline hdeadline => ?_⟩
    obtain ⟨hqueue, _, hle⟩ := hpunctual deadline hdeadline
    exact ⟨(h.deadline deadline hdeadline).1, .inr ⟨hqueue, hle⟩⟩
  | receive => exact h.receive hs.task hen
  | timeout =>
    show s.timeout.Prompt
    obtain ⟨latest, deadline, htask, _, _, heq⟩ := timeout_cases hen
    obtain ⟨_, r, hlast, _⟩ := hs.task.debouncing htask
    rw [heq]
    exact h.announce (burst_ne_nil hlast) latest false
  | synthesized ok =>
    show (s.synthesized ok).Prompt
    obtain ⟨x, rxClosed, _, heq⟩ := synthesized_cases hen
    rw [heq]
    refine ⟨h.chain, h.queued, ?_⟩
    cases ok <;> cases rxClosed <;> exact fun _ hdeadline => by cases hdeadline

theorem prompt_of_reaches (hs : announcer.Reaches punctual s) : s.Prompt := by
  apply hs.invariant (I := Prompt)
  · rintro s ⟨config, rfl⟩
    exact ⟨fun _ => nofun, nofun, nofun⟩
  · intro s a hs h hen hpunctual
    exact h.next (debounces_of_reachable hs.reachable) hen hpunctual

/-- The bursts are the announcements received, split at the debounce window. -/
theorem splitBy_groups (hs : announcer.Reaches punctual s) :
    s.groups.flatten.splitBy (sameBurst s.config.announceDebounce) = s.groups := by
  have hnonempty : [] ∉ s.groups := by
    have hbursts := (debounces_of_reachable hs.reachable).histories.nonempty
    by_cases hburst : s.burst = []
    · rw [groups_of_nil hburst]
      exact hbursts
    · rw [groups_of_ne hburst, List.mem_append, List.mem_singleton, not_or]
      exact ⟨hbursts, Ne.symm hburst⟩
  exact List.splitBy_eq_iff.2
    ⟨rfl, hnonempty, (prompt_of_reaches hs).chain, (spaced_of_reachable hs.reachable).apart⟩

/-- The announcements are sent on in bursts, and the synthesis is called for their last channels without
repetitions. -/
structure Debounced (s : Announcer) : Prop where
  calls : s.calls = s.finals.destutter fun a b => a.1 ≠ b.1
  sent : s.groups.flatten.map Receipt.item ++ s.queue = s.sent
  apart : s.groups.IsChain (Apart s.config.announceDebounce)
  single : s.config.announceDebounce = 0 → ∀ burst ∈ s.bursts, burst.length = 1
  ended : s.task = .ended → s.closed = true ∧ s.queue = [] ∧ s.burst = []
  goesOn : s.closed = true → s.task ≠ .ended → ∃ a, TaskStep a ∧ s.enabled a
  ends : ∀ a, TaskStep a → s.enabled a → (s.next a).remaining < s.remaining

end Announcer

/-- In every run with a TTS runtime, the synthesis is called exactly for the last announcement of each burst, without
consecutive repetitions of a channel, the announcements left when the channel is closed are still made, and the
task ends; and if the task is never late, the bursts are what the debounce window splits its receipts into. -/
theorem announcements_debounced {s : Announcer} (hs : announcer.Reachable s) (htts : s.config.ttsEnabled = true)
    (hruntime : s.config.runtime = true) : s.Debounced ∧
      (announcer.Reaches Announcer.punctual s →
        s.groups = s.groups.flatten.splitBy (sameBurst s.config.announceDebounce)) := by
  have h := Announcer.debounces_of_reachable hs
  refine ⟨⟨h.histories.calls htts hruntime, h.histories.sent, (Announcer.spaced_of_reachable hs).apart,
    h.histories.single, fun hended => ?_, Announcer.exists_taskStep,
    fun _ => Announcer.remaining_next⟩, fun hpunctual => (Announcer.splitBy_groups hpunctual).symm⟩
  obtain ⟨hburst, hclosed, hqueue⟩ := h.task.ended hended
  exact ⟨hclosed, hqueue, hburst⟩

/-- The caller passes through a channel, stays in the next one and hangs up. -/
theorem passed_channel_skipped : ∃ s, announcer.Reaches Announcer.punctual s ∧ s.task = .ended ∧
    s.calls = [(2, some "Lounge")] ∧ s.calls = s.finals.destutter (fun a b => a.1 ≠ b.1) ∧
      s.groups = s.groups.flatten.splitBy (sameBurst s.config.announceDebounce) := by
  obtain ⟨s, hs, hP⟩ := System.exists_reaches_of_run announcer Announcer.punctual
    (s := .start ⟨true, 500, true⟩) ⟨_, rfl⟩
    [.send (1, some "Lobby"), .receive, .wait 100, .send (2, some "Lounge"), .receive, .wait 500, .timeout,
      .synthesized true, .close, .receive]
    (fun s => s.config = ⟨true, 500, true⟩ ∧ s.task = .ended ∧ s.calls = [(2, some "Lounge")]) (by decide)
  obtain ⟨hconfig, hended, hcalls⟩ := of_decide_eq_true hP
  obtain ⟨hdebounced, hsplit⟩ := announcements_debounced hs.reachable (by rw [hconfig]) (by rw [hconfig])
  exact ⟨s, hs, hended, hcalls, hdebounced.calls, hsplit hs⟩

end MumbleSip
