import MumbleSip.Session.SpokenSession

/-!
# Every message is answered

Once nothing more happens to a session, it works off what it has. A synthesis that the reader or the announcer
has asked for returns to it, as to every other caller of the runtime, and the task takes the next message.
-/

namespace MumbleSip

open Transition

namespace PocketTtsRuntime

variable {r : PocketTtsRuntime} {i : Nat}

theorem work_synthesizePhrase (r : PocketTtsRuntime) (phrase : String) :
    (r.synthesizePhrase phrase).work = r.work + 15 := by
  have hcalls : (r.synthesizePhrase phrase).callWork = r.callWork + 15 := by
    rw [callWork, callWork]
    refine (sum_range_succ_change (f := fun i => (r.calls i).pc.work) fun i hi => ?_).trans ?_
    · simp only [synthesizePhrase, Function.update_of_ne (Nat.ne_of_lt hi)]
    · simp only [synthesizePhrase, Function.update_self]
      rfl
  have htasks : (r.synthesizePhrase phrase).taskWork = r.taskWork := rfl
  rw [work, work, hcalls, htasks]
  omega

theorem not_cancelled_next (htracked : r.Tracked) (horderly : r.Orderly) {a : TtsAction} (hen : r.enabled a)
    (hne : a ≠ .call i .cancel) (hcall : (r.calls i).pc ≠ .cancelled) : ((r.next a).calls i).pc ≠ .cancelled := by
  cases a with
  | synthesizePhrase phrase =>
    show ((r.synthesizePhrase phrase).calls i).pc ≠ .cancelled
    by_cases hi : i = r.nextCall
    · simp only [synthesizePhrase, hi, Function.update_self]
      exact PhrasePc.noConfusion
    · simp only [synthesizePhrase, Function.update_of_ne hi]
      exact hcall
  | call j a =>
    show ((r.stepCall j a).calls i).pc ≠ .cancelled
    by_cases hi : i = j
    · subst j
      intro hpc
      have hleads := leads_stepCall hen
      rw [hpc] at hleads
      cases a with
      | cancel => exact hne rfl
      | _ => simp [Leads] at hleads
    · obtain ⟨pc, hmoves, _⟩ := htracked.stepCall_moves horderly hen
      rw [hmoves.calls, Function.update_of_ne hi]
      exact hcall
  | task t a =>
    rw [PocketTtsRuntime.next, (taskFrame_stepTask a).calls]
    exact hcall

/-- Where the runtime is settled, a call that is not cancelled has returned. -/
theorem Settled.returned (h : r.Settled) (hcalled : (r.calls i).pc ≠ .uncalled)
    (hcancelled : (r.calls i).pc ≠ .cancelled) : (r.calls i).pc.returned = true := by
  have hwork := h.calls i
  cases hpc : (r.calls i).pc with
  | uncalled => exact absurd hpc hcalled
  | cancelled => exact absurd hpc hcancelled
  | hit pcm => rfl
  | refused error => rfl
  | answered t result => rfl
  | _ =>
    rw [hpc] at hwork
    cases hwork

end PocketTtsRuntime

/-- The task waits for the clock or for another announcement, or it has ended. -/
structure Announcer.Waits (s : Announcer) : Prop where
  queue : s.queue = []
  task : s.task = .ended ∨ s.closed = false ∧ (s.task = .idle ∨ ∃ deadline ∈ s.task.deadline, s.now < deadline)

theorem Announcer.waits_of_not_enabled {s : Announcer} (hs : s.Debounces) (hreceive : ¬s.enabled .receive)
    (htimeout : ¬s.enabled .timeout) (hsynthesizes : s.task.synthesizes = false) : s.Waits := by
  have hreceives : s.task.receives = true → s.queue = [] ∧ s.closed = false := by
    intro hreceives
    refine ⟨?_, Bool.eq_false_of_not_eq_true fun hclosed => hreceive ⟨hreceives, .inr hclosed⟩⟩
    by_contra hqueue
    exact hreceive ⟨hreceives, .inl hqueue⟩
  cases htask : s.task with
  | idle =>
    obtain ⟨hqueue, hclosed⟩ := hreceives (by rw [htask]; rfl)
    exact ⟨hqueue, .inr ⟨hclosed, .inl htask⟩⟩
  | debouncing latest deadline =>
    obtain ⟨hqueue, hclosed⟩ := hreceives (by rw [htask]; rfl)
    have hdeadline : deadline ∈ s.task.deadline := by
      rw [htask]
      rfl
    refine ⟨hqueue, .inr ⟨hclosed, .inr ⟨deadline, hdeadline, Nat.not_le.1 fun hle => ?_⟩⟩⟩
    exact htimeout ⟨hqueue, hclosed, deadline, hdeadline, hle⟩
  | synthesizing x rxClosed =>
    rw [htask] at hsynthesizes
    cases hsynthesizes
  | ended =>
    obtain ⟨_, _, hqueue⟩ := hs.task.ended htask
    exact ⟨hqueue, .inl htask⟩

namespace SpokenSession

variable {getSound : SoundEvent → Pcm} {s : SpokenSession}

/-- Nobody aborts the tasks of the session, which would cancel the calls that they wait for. -/
def attached (s : SpokenSession) : SpokenAction → Prop
  | .runtime (.call i .cancel) => s.readerCall ≠ some i ∧ s.announcerCall ≠ some i
  | _ => True

instance (s : SpokenSession) : ∀ a : SpokenAction, Decidable (s.attached a)
  | .runtime (.call _ .cancel) => instDecidableAnd
  | .runtime (.call _ .checkCache) | .runtime (.call _ .checkInFlight) | .runtime (.call _ (.assertAvailable _))
  | .runtime (.call _ .launch) | .runtime (.call _ .borrow) | .runtime (.call _ .changed)
  | .runtime (.synthesizePhrase _) | .runtime (.task _ _) | .message _ _ _ | .receiveText | .textReturned
  | .announcer _ | .announcementReturned => instDecidableTrue

/-- A step of the runtime or of one of the two tasks towards its end. No caller is cancelled, and the channel of
the announcer is not closed. -/
def quiet (s : SpokenSession) : SpokenAction → Prop
  | .runtime a => TtsAction.proceeds s.runtime a
  | .announcer a => Announcer.TaskStep a
  | .message _ _ _ => False
  | .receiveText | .textReturned | .announcementReturned => True

instance (s : SpokenSession) : ∀ a : SpokenAction, Decidable (s.quiet a)
  | .runtime (.call _ .cancel) | .runtime (.synthesizePhrase _) | .message _ _ _
  | .announcer (.send _) | .announcer .close | .announcer (.wait _) => instDecidableFalse
  | .runtime (.call _ .checkCache) | .runtime (.call _ .checkInFlight) | .runtime (.call _ (.assertAvailable _))
  | .runtime (.call _ .launch) | .runtime (.call _ .borrow) | .runtime (.call _ .changed)
  | .runtime (.task _ _) | .receiveText | .textReturned | .announcer .receive | .announcer .timeout
  | .announcer (.synthesized _) | .announcementReturned => instDecidableTrue

/-- How many steps there are at most. -/
def left (s : SpokenSession) : Nat :=
  s.runtime.work + 17 * s.reader.queue.length + s.reader.current.toList.length + 16 * s.announcer.remaining

/-- Nothing is waiting but the announcer, and every message has been answered. -/
structure AtRest (s : SpokenSession) : Prop where
  runtime : s.runtime.Settled
  queue : s.reader.queue = []
  current : s.reader.current = none
  announcer : s.announcer.Waits
  answered : s.readerPcm.length = s.reader.received.length

/-! ### The calls of the session -/

/-- The tasks wait for calls that are not cancelled. -/
def Held (s : SpokenSession) : Prop :=
  ∀ i, s.readerCall = some i ∨ s.announcerCall = some i → (s.runtime.calls i).pc ≠ .cancelled

theorem Held.ask (h : s.Held) {s' : SpokenSession} {phrase : String}
    (hruntime : s'.runtime = s.runtime.synthesizePhrase phrase) (hcalls : ∀ i,
      s'.readerCall = some i ∨ s'.announcerCall = some i →
        i = s.runtime.nextCall ∨ s.readerCall = some i ∨ s.announcerCall = some i) : s'.Held := by
  intro i hi
  rw [hruntime]
  by_cases hnew : i = s.runtime.nextCall
  · simp only [PocketTtsRuntime.synthesizePhrase, hnew, Function.update_self]
    exact PhrasePc.noConfusion
  · simp only [PocketTtsRuntime.synthesizePhrase, Function.update_of_ne hnew]
    exact h i ((hcalls i hi).resolve_left hnew)

theorem Held.mono (h : s.Held) {s' : SpokenSession} (hruntime : s'.runtime = s.runtime)
    (hcalls : ∀ i, s'.readerCall = some i ∨ s'.announcerCall = some i →
      s.readerCall = some i ∨ s.announcerCall = some i) : s'.Held := by
  intro i hi
  rw [hruntime]
  exact h i (hcalls i hi)

theorem Held.next (h : s.Held) (htruthful : Truthful getSound s) {a : SpokenAction} (hen : s.enabled a)
    (hattached : s.attached a) : (s.next getSound a).Held := by
  cases a with
  | runtime a =>
    intro i hi
    have hne : a ≠ .call i .cancel := by
      rintro rfl
      exact hi.elim hattached.1 hattached.2
    exact PocketTtsRuntime.not_cancelled_next (PocketTtsRuntime.reaches_tracked htruthful.runtime)
      (PocketTtsRuntime.reaches_orderly htruthful.runtime) hen hne (h i hi)
  | message senderName message sent => exact h.mono rfl fun _ hi => hi
  | receiveText =>
    simp only [SpokenSession.next, receiveText]
    split
    · refine h.ask rfl fun i hi => ?_
      rcases hi with hnew | hold
      · exact .inl (Option.some.inj hnew).symm
      · exact .inr (.inr hold)
    · exact h.mono rfl fun _ hi => hi
  | textReturned =>
    refine h.mono rfl fun i hi => .inr ?_
    rcases hi with hnone | hold
    · cases hnone
    · exact hold
  | announcer a =>
    simp only [SpokenSession.next, stepAnnouncer]
    split
    · refine h.ask rfl fun i hi => ?_
      rcases hi with hold | hnew
      · exact .inr (.inl hold)
      · exact .inl (Option.some.inj hnew).symm
    · exact h.mono rfl fun _ hi => hi
  | announcementReturned =>
    refine h.mono rfl fun i hi => .inl ?_
    rcases hi with hold | hnone
    · exact hold
    · cases hnone

theorem held_of_reaches (hs : (spokenSession getSound).Reaches attached s) : s.Held := by
  apply hs.invariant (I := Held)
  · rintro s ⟨runtime, config, _, rfl⟩
    intro i hi
    rcases hi with hnone | hnone <;> cases hnone
  · intro s a hs h hen hattached
    exact h.next (truthful_of_reachable hs.reachable) hen hattached

theorem attached_of_quiet {a : SpokenAction} (h : s.quiet a) : s.attached a := by
  cases a with
  | runtime a =>
    cases a with
    | call i a =>
      cases a with
      | cancel => exact h.elim
      | _ => trivial
    | _ => trivial
  | _ => trivial

/-! ### The steps that are left -/

theorem left_receiveText (hen : s.reader.enabled .receive) : (s.receiveText getSound).left < s.left := by
  obtain ⟨hidle, hqueue⟩ := hen
  obtain ⟨⟨senderName, message⟩, queue, hqueue⟩ := List.exists_cons_of_ne_nil hqueue
  by_cases hruntime : s.reader.config.runtime = true
  · have hreceive : s.reader.receive = { s.reader with queue := queue, current := some (senderName, message) } := by
      simp only [TextReader.receive, hqueue, if_pos hruntime]
    simp only [receiveText, hreceive, left, PocketTtsRuntime.work_synthesizePhrase, hqueue, hidle, List.length_cons,
      Option.toList_some, Option.toList_none, List.length_nil]
    omega
  · have hreceive : s.reader.receive = { s.reader with
        queue := queue
        sounds := s.reader.sounds ++ [.chime .textMessage] } := by
      simp only [TextReader.receive, hqueue, if_neg hruntime]
    simp only [receiveText, hreceive, hidle, left, hqueue, List.length_cons]
    omega

theorem left_textReturned (hen : s.reader.current ≠ none) : (s.textReturned getSound).left < s.left := by
  obtain ⟨item, hcurrent⟩ := Option.ne_none_iff_exists'.1 hen
  simp only [textReturned, TextReader.synthesized, hcurrent, left, Option.toList_some, Option.toList_none,
    List.length_cons, List.length_nil]
  omega

/-- A step of the announcer that leads to a call takes more from what is left than the call adds. -/
theorem left_stepAnnouncer {a : AnnouncerAction} (ha : Announcer.TaskStep a) (hen : s.announcer.enabled a) :
    (s.stepAnnouncer a).left < s.left := by
  have hlt := Announcer.remaining_next ha hen
  simp only [stepAnnouncer]
  split
  · simp only [left, PocketTtsRuntime.work_synthesizePhrase]
    omega
  · simp only [left]
    omega

theorem left_announcementReturned (hen : s.announcer.task.synthesizes = true) :
    s.announcementReturned.left < s.left := by
  have hlt := Announcer.remaining_next (s := s.announcer)
    (a := AnnouncerAction.synthesized (s.outcome s.announcerCall).isSome) trivial hen
  have hstep : s.announcer.next (.synthesized (s.outcome s.announcerCall).isSome)
      = s.announcer.synthesized (s.outcome s.announcerCall).isSome := rfl
  rw [hstep] at hlt
  simp only [announcementReturned, left]
  omega

theorem decreases_left : (spokenSession getSound).Decreases quiet
    (fun s => (spokenSession getSound).Reaches attached s) left where
  keeps _ _ hs hen hquiet := hs.step hen (attached_of_quiet hquiet)
  lt s a hs hen hquiet := by
    have h := truthful_of_reachable hs.reachable
    cases a with
    | runtime a =>
      have hlt : (s.runtime.next a).work < s.runtime.work := by
        refine PocketTtsRuntime.work_next (PocketTtsRuntime.reaches_tracked h.runtime)
          (PocketTtsRuntime.reaches_orderly h.runtime) hen ?_
        cases a with
        | synthesizePhrase phrase => exact hquiet
        | _ => trivial
      show ({ s with runtime := s.runtime.next a } : SpokenSession).left < s.left
      simp only [left]
      omega
    | message senderName message sent => exact hquiet.elim
    | receiveText => exact left_receiveText hen
    | textReturned => exact left_textReturned hen.1
    | announcer a => exact left_stepAnnouncer hquiet hen.2
    | announcementReturned => exact left_announcementReturned hen.1

theorem received_next {a : SpokenAction} (hquiet : s.quiet a) :
    (s.next getSound a).reader.received = s.reader.received := by
  have hreceive : s.reader.receive.received = s.reader.received := by
    unfold TextReader.receive
    split
    · split <;> rfl
    · rfl
  cases a with
  | runtime a => rfl
  | message senderName message sent => exact hquiet.elim
  | receiveText =>
    simp only [SpokenSession.next, receiveText]
    split <;> exact hreceive
  | textReturned =>
    simp only [SpokenSession.next, textReturned, TextReader.synthesized]
    split <;> rfl
  | announcer a =>
    simp only [SpokenSession.next, stepAnnouncer]
    split <;> rfl
  | announcementReturned => rfl

theorem received_of_steps {s' : SpokenSession} {n : Nat} (hsteps : (spokenSession getSound).Steps quiet s n s') :
    s'.reader.received = s.reader.received := by
  induction hsteps with
  | refl => rfl
  | step _ _ hquiet ih => exact (received_next hquiet).trans ih

/-! ### The end -/

theorem Held.hasReturned (h : s.Held) (hsettled : s.runtime.Settled) {call : Option Nat} {phrase : Option String}
    {sounds : List Sound} {pcms : List Pcm} (hvoiced : Voiced getSound s.runtime call phrase sounds pcms)
    (hcall : ∀ i, call = some i → s.readerCall = some i ∨ s.announcerCall = some i) (hwaits : phrase ≠ none) :
    s.hasReturned call = true := by
  obtain ⟨text, htext⟩ := Option.ne_none_iff_exists'.1 hwaits
  obtain ⟨i, hi, hasks⟩ := hvoiced.asks text htext
  rw [SpokenSession.hasReturned, hi]
  exact hsettled.returned hasks.called (h i (hcall i hi))

theorem atRest_of_stuck (hs : (spokenSession getSound).Reaches attached s)
    (hstuck : (spokenSession getSound).Stuck quiet s) : s.AtRest := by
  have h := truthful_of_reachable hs.reachable
  have hheld := held_of_reaches hs
  have htracked := PocketTtsRuntime.reaches_tracked h.runtime
  have horderly := PocketTtsRuntime.reaches_orderly h.runtime
  have hsettled : s.runtime.Settled := by
    apply PocketTtsRuntime.settled_of_work htracked horderly (PocketTtsRuntime.reaches_recovers h.runtime)
    by_contra hwork
    obtain ⟨a, hen, hproceeds⟩ := PocketTtsRuntime.proceeds_of_work htracked horderly hwork
    exact hstuck (.runtime a) hen hproceeds
  have hcurrent : s.reader.current = none := by
    by_contra hne
    refine hstuck .textReturned ⟨hne, ?_⟩ trivial
    refine hheld.hasReturned hsettled h.reader (fun _ => .inl) fun hnone => hne ?_
    exact Option.map_eq_none_iff.1 hnone
  have hqueue : s.reader.queue = [] := by
    by_contra hne
    exact hstuck .receiveText ⟨hcurrent, hne⟩ trivial
  have hsynthesizes : s.announcer.task.synthesizes = false := by
    cases htask : s.announcer.task with
    | synthesizing x rxClosed =>
      refine absurd trivial (hstuck .announcementReturned ⟨by rw [htask]; rfl, ?_⟩)
      refine hheld.hasReturned hsettled h.announcer (fun _ => .inr) ?_
      rw [announcerPhrase, htask]
      exact Option.some_ne_none _
    | _ => rfl
  refine ⟨hsettled, hqueue, hcurrent, ?_, ?_⟩
  · apply Announcer.waits_of_not_enabled (Announcer.debounces_of_reachable h.announcerRuns)
    · exact fun hen => hstuck (.announcer .receive) ⟨rfl, hen⟩ trivial
    · exact fun hen => hstuck (.announcer .timeout) ⟨rfl, hen⟩ trivial
    · exact hsynthesizes
  · obtain ⟨answered, hpcms, hperm, _⟩ := h.messagesAnswered
    rw [hcurrent, hqueue, Option.toList_none, List.append_nil, List.append_nil] at hperm
    rw [hpcms, List.length_map, hperm.length_eq, List.length_map]

end SpokenSession

/-- While the tasks of a session are not aborted, and from the moment when no further message, announcement or
caller comes in, no caller is cancelled, the announcement channel stays open or closed as it is and no time passes,
the session and the runtime take at most so many steps as are left, in whatever order and with whatever outcomes of
the syntheses. Where none is left, every text message has been answered and the announcer waits for the clock or a
channel; and they can always get there. -/
theorem session_comes_to_rest {getSound : SoundEvent → Pcm} {s s' : SpokenSession} {n : Nat}
    (hs : (spokenSession getSound).Reaches SpokenSession.attached s)
    (hsteps : (spokenSession getSound).Steps SpokenSession.quiet s n s') :
    n + s'.left ≤ s.left ∧ ((spokenSession getSound).Stuck SpokenSession.quiet s' → s'.AtRest) ∧
      ∃ m s'', (spokenSession getSound).Steps SpokenSession.quiet s' m s'' ∧ s''.AtRest ∧
        s''.reader.received = s.reader.received := by
  have hs' := hsteps.invariant SpokenSession.decreases_left hs
  obtain ⟨m, s'', hsteps', hstuck⟩ := SpokenSession.decreases_left.exists_stuck hs'
  have hs'' := hsteps'.invariant SpokenSession.decreases_left hs'
  exact ⟨hsteps.add_le SpokenSession.decreases_left hs, SpokenSession.atRest_of_stuck hs', m, s'', hsteps',
    SpokenSession.atRest_of_stuck hs'' hstuck, SpokenSession.received_of_steps (hsteps.trans hsteps')⟩

/-- Of two messages the reader has one read out when nothing more comes in. -/
theorem session_comes_to_rest_reading : ∃ s s' s'' : SpokenSession, s.readerPcm = [] ∧ s'.readerPcm = [[1, 2]] ∧
    10 + s'.left ≤ s.left ∧ s''.AtRest ∧ s''.readerPcm.length = 2 := by
  obtain ⟨s, hs, hP⟩ := System.exists_reaches_of_run (spokenSession fun _ => [7]) SpokenSession.attached
    (s := .start (.new "eponine" 48000) ⟨true, 500, true⟩) ⟨_, _, .init ⟨_, _, rfl⟩, rfl⟩
    [.message (some "Ann") "hi" true, .message none "bye" true, .receiveText]
    (fun s : SpokenSession => s.readerPcm == [] && (s.reader.received.length == 2 &&
      ((spokenSession fun _ => [7]).run SpokenSession.quiet s (readOut.drop 2)).any fun s' : SpokenSession =>
        s'.readerPcm == [[1, 2]])) (by decide)
  obtain ⟨hpcm, hrest⟩ := Bool.and_eq_true_iff.1 hP
  obtain ⟨hreceived, hany⟩ := Bool.and_eq_true_iff.1 hrest
  obtain ⟨hsome, hpcm'⟩ := (Option.any_eq_true_iff_get _ _).1 hany
  have hsteps := System.Steps.refl.run (Option.some_get hsome).symm
  obtain ⟨hbound, _, m, s'', _, hrest, hsame⟩ := session_comes_to_rest hs hsteps
  refine ⟨s, _, s'', eq_of_beq hpcm, eq_of_beq hpcm', hbound, hrest, ?_⟩
  rw [hrest.answered, hsame, eq_of_beq hreceived]

end MumbleSip
