import MumbleSip.Lib.LastWord
import MumbleSip.Session.Debounce

/-!
# Chimes in place of speech

What the caller hears when the synthesis fails or there is none. The task that reads text messages out plays a
chime. The one that announces channels plays nothing, and has by then noted the channel as announced.
-/

namespace MumbleSip

open Transition History

/-- The channel that the sound says. -/
def Sound.spoken : Sound → Option ChannelId
  | .announcement a => some a.1
  | _ => none

/-- Exactly one sound is sent for the burst: its announcement or a chime. -/
def Handled.Heard (h : Handled) : Prop :=
  ∃ sound, h.sounds = [sound] ∧ (sound = .announcement h.announcement ∨ ∃ event, sound = .chime event)

/-- The channel that the caller was last told after the bursts. -/
def lastSpoken (handled : List Handled) : Option ChannelId := lastWord Sound.spoken (handled.flatMap Handled.sounds)

namespace Announcer

variable {s : Announcer}

/-- Every burst that ends in another channel than the caller was last told is heard. -/
def BurstsHeard (s : Announcer) : Prop :=
  ∀ before h after, s.handled = before ++ h :: after → lastSpoken before ≠ some h.announcement.1 → h.Heard

/-- Every sound is sent for a burst, and every burst that is over is done with or being synthesized. -/
structure Accounted (s : Announcer) : Prop where
  sounds : s.sounds = s.handled.flatMap Handled.sounds
  finals : s.handled.map Handled.announcement ++ s.task.current.toList = s.finals

/-- The last announcement of the burst that the step ends. -/
def endedBy (s : Announcer) : AnnouncerAction → Option Announcement
  | .receive =>
    match s.task, s.queue with
    | .idle, item :: _ => if s.config.announceDebounce = 0 then some item.1 else none
    | .debouncing latest _, [] => some latest
    | _, _ => none
  | .timeout =>
    match s.task with
    | .debouncing latest _ => some latest
    | _ => none
  | _ => none

/-- No synthesis fails, and there is a runtime where a channel is to be announced. -/
def speaks (s : Announcer) (a : AnnouncerAction) : Prop :=
  a ≠ .synthesized false ∧
    ∀ latest ∈ s.endedBy a, s.lastAnnouncedChannel ≠ some latest.1 → s.config.runtime = true

/-! ### One step -/

/-- A step leaves the bursts alone, or ends one, or is an outcome of the synthesis. -/
theorem next_cases (h : s.Debounces) {a : AnnouncerAction} (hen : s.enabled a) :
    (s.endedBy a = none ∧ (s.next a).config = s.config ∧ (s.next a).handled = s.handled ∧
      (s.next a).sounds = s.sounds ∧ (s.next a).lastAnnouncedChannel = s.lastAnnouncedChannel ∧
      (s.next a).finals = s.finals ∧ (s.next a).task.current = s.task.current ∧ ∀ ok, a ≠ .synthesized ok) ∨
    (∃ (r : Receipt) (rxClosed : Bool) (s' : Announcer), s.endedBy a = some r.announcement ∧
      s.task.current = none ∧ s'.burst.getLast? = some r ∧ s'.config = s.config ∧
      s'.handled = s.handled ∧ s'.sounds = s.sounds ∧
      s'.lastAnnouncedChannel = s.lastAnnouncedChannel ∧ s'.bursts = s.bursts ∧
      s.next a = s'.announce r.announcement rxClosed ∧ ∀ ok, a ≠ .synthesized ok) ∨
    ∃ x rxClosed ok, a = .synthesized ok ∧ s.task = .synthesizing x rxClosed ∧
      s.next a = s.conclude x (if ok then [.announcement x] else [])
        (if ok then .idle else if rxClosed then .ended else .idle) := by
  cases a with
  | receive =>
    rcases receive_cases hen with ⟨item, queue, htask, hqueue, hzero, heq⟩ |
      ⟨item, queue, htask, hqueue, heq⟩ | ⟨htask, hqueue, hclosed, heq⟩ |
      ⟨latest, deadline, htask, hqueue, hclosed, heq⟩
    · right; left
      refine ⟨⟨item.1, item.2, s.now⟩, false, s.take item queue, ?_, by rw [htask]; rfl,
        List.getLast?_concat, rfl, rfl, rfl, rfl, rfl, heq, fun _ h => by cases h⟩
      simp only [endedBy, htask, hqueue, hzero, if_true]
    · left
      have hnext : s.next .receive = { s.take item queue with
        task := .debouncing item.1 (s.now + s.config.announceDebounce) } := heq
      rw [hnext]
      rcases htask with ⟨htask, hne⟩ | ⟨latest, deadline, htask⟩
      · refine ⟨?_, rfl, rfl, rfl, rfl, rfl, by rw [htask]; rfl, fun _ h => by cases h⟩
        simp only [endedBy, htask, hqueue, if_neg hne]
      · refine ⟨?_, rfl, rfl, rfl, rfl, rfl, by rw [htask]; rfl, fun _ h => by cases h⟩
        simp only [endedBy, htask, hqueue]
    · left
      have hnext : s.next .receive = { s with task := .ended } := heq
      rw [hnext]
      refine ⟨?_, rfl, rfl, rfl, rfl, rfl, by rw [htask]; rfl, fun _ h => by cases h⟩
      simp only [endedBy, htask, hqueue]
    · right; left
      obtain ⟨_, r, hlast, rfl, _⟩ := h.task.debouncing htask
      refine ⟨r, true, s, ?_, by rw [htask]; rfl, hlast, rfl, rfl, rfl, rfl, rfl, heq, fun _ h => by cases h⟩
      simp only [endedBy, htask, hqueue]
  | timeout =>
    right; left
    obtain ⟨latest, deadline, htask, _, _, heq⟩ := timeout_cases hen
    obtain ⟨_, r, hlast, rfl, _⟩ := h.task.debouncing htask
    refine ⟨r, false, s, ?_, by rw [htask]; rfl, hlast, rfl, rfl, rfl, rfl, rfl, heq, fun _ h => by cases h⟩
    simp only [endedBy, htask]
  | synthesized ok =>
    right; right
    obtain ⟨x, rxClosed, htask, heq⟩ := synthesized_cases hen
    exact ⟨x, rxClosed, ok, rfl, htask, heq⟩
  | _ => exact .inl ⟨rfl, rfl, rfl, rfl, rfl, rfl, rfl, fun _ h => by cases h⟩

theorem announce_results (s : Announcer) (latest : Announcement) (rxClosed : Bool) :
    (s.announce latest rxClosed).config = s.config ∧ (s.announce latest rxClosed).sounds = s.sounds ∧
      (s.announce latest rxClosed).lastAnnouncedChannel = some latest.1 ∧
      ((s.lastAnnouncedChannel = some latest.1 ∨ ¬(s.config.ttsEnabled = true ∧ s.config.runtime = true)) ∧
          (s.announce latest rxClosed).handled = s.handled ++ [⟨latest, []⟩] ∧
          (s.announce latest rxClosed).task.current = none ∨
        (s.lastAnnouncedChannel ≠ some latest.1 ∧ s.config.runtime = true) ∧
          (s.announce latest rxClosed).handled = s.handled ∧
          (s.announce latest rxClosed).task.current = some latest) := by
  rcases announce_cases s latest rxClosed with ⟨hsame, heq⟩ | ⟨hother, hruntime, heq⟩ | ⟨_, hnone, heq⟩
  · rw [heq]
    exact ⟨rfl, List.append_nil _, rfl, .inl ⟨.inl hsame, rfl, rfl⟩⟩
  · rw [heq]
    exact ⟨rfl, rfl, rfl, .inr ⟨⟨hother, hruntime.2⟩, rfl, rfl⟩⟩
  · rw [heq]
    refine ⟨rfl, List.append_nil _, rfl, .inl ⟨.inr hnone, rfl, ?_⟩⟩
    cases rxClosed <;> rfl

theorem current_conclude (s : Announcer) (x : Announcement) (sounds : List Sound) (ok rxClosed : Bool) :
    (s.conclude x sounds (if ok then .idle else if rxClosed then .ended else .idle)).task.current = none := by
  cases ok <;> cases rxClosed <;> rfl

/-! ### The account -/

theorem Accounted.next (h : s.Accounted) (hs : s.Debounces) {a : AnnouncerAction} (hen : s.enabled a) :
    (s.next a).Accounted := by
  rcases next_cases hs hen with ⟨_, _, hhandled, hsounds, _, hfinals, hcurrent, _⟩ |
    ⟨r, rxClosed, s', _, hidle, hlast, _, hhandled, hsounds, _, hbursts, heq, _⟩ |
    ⟨x, rxClosed, ok, _, htask, heq⟩
  · refine ⟨?_, ?_⟩
    · rw [hsounds, hhandled]
      exact h.sounds
    · rw [hhandled, hcurrent, hfinals]
      exact h.finals
  · obtain ⟨_, hsounds', _, hresult⟩ := announce_results s' r.announcement rxClosed
    have hfinals : (s'.announce r.announcement rxClosed).finals = s.finals ++ [r.announcement] := by
      obtain ⟨_, _, _, _, hbursts', _⟩ := announce_frame s' r.announcement rxClosed
      rw [finals_concat hbursts' hlast, Announcer.finals, hbursts]
      rfl
    have hold := h.finals
    rw [hidle, Option.toList_none, List.append_nil] at hold
    rw [heq]
    refine ⟨?_, ?_⟩
    · rw [hsounds', hsounds, h.sounds]
      rcases hresult with ⟨_, hhandled', _⟩ | ⟨_, hhandled', _⟩
      · rw [hhandled', hhandled, List.flatMap_append]
        exact (List.append_nil _).symm
      · rw [hhandled', hhandled]
    · rw [hfinals, ← hold]
      rcases hresult with ⟨_, hhandled', hcurrent'⟩ | ⟨_, hhandled', hcurrent'⟩
      · rw [hhandled', hhandled, hcurrent', List.map_append]
        exact List.append_nil _
      · rw [hhandled', hhandled, hcurrent']
        rfl
  · have hfinals := h.finals
    rw [htask] at hfinals
    rw [heq]
    refine ⟨?_, ?_⟩
    · show s.sounds ++ _ = (s.handled ++ [_]).flatMap Handled.sounds
      rw [h.sounds, List.flatMap_append]
      simp only [List.flatMap_cons, List.flatMap_nil, List.append_nil]
    · show (s.handled ++ [_]).map Handled.announcement ++ _ = s.finals
      rw [current_conclude, ← hfinals, List.map_append]
      exact List.append_nil _

theorem accounted_of_reachable (hs : announcer.Reachable s) : s.Accounted := by
  apply hs.invariant (I := Accounted)
  · rintro s ⟨config, rfl⟩
    exact ⟨rfl, rfl⟩
  · intro s a hs h hen _
    exact h.next (debounces_of_reachable hs) hen

/-! ### What is heard -/

theorem lastSpoken_concat (handled : List Handled) (a : Announcement) (sounds : List Sound) :
    lastSpoken (handled ++ [⟨a, sounds⟩]) = (lastWord Sound.spoken sounds).or (lastSpoken handled) := by
  rw [lastSpoken, List.flatMap_append, lastWord_append]
  simp only [List.flatMap_cons, List.flatMap_nil, List.append_nil]
  rfl

theorem burstsHeard_concat {s' : Announcer} {h : Handled} (hhandled : s'.handled = s.handled ++ [h]) :
    s'.BurstsHeard ↔ s.BurstsHeard ∧ (lastSpoken s.handled ≠ some h.announcement.1 → h.Heard) := by
  unfold BurstsHeard
  rw [hhandled]
  exact forall_split_concat (P := fun before h => lastSpoken before ≠ some h.announcement.1 → h.Heard)

/-- A channel noted as announced has been spoken, or is being synthesized. -/
structure InStep (s : Announcer) : Prop where
  heard : s.BurstsHeard
  spoken : s.task.current = none → s.lastAnnouncedChannel = lastSpoken s.handled
  speaking : ∀ x ∈ s.task.current, s.lastAnnouncedChannel = some x.1 ∧ lastSpoken s.handled ≠ some x.1

theorem InStep.next (h : s.InStep) (hs : s.Debounces) {a : AnnouncerAction} (hen : s.enabled a)
    (htts : s.config.ttsEnabled = true) : (s.speaks a → (s.next a).InStep) ∧
      (¬s.speaks a → ¬(s.next a).BurstsHeard) := by
  have hsilent : ∀ x, ¬Handled.Heard ⟨x, []⟩ := by
    rintro x ⟨sound, hsounds, _⟩
    cases hsounds
  rcases next_cases hs hen with ⟨hended, _, hhandled, _, hlast, _, hcurrent, hnot⟩ |
    ⟨r, rxClosed, s', hended, hidle, _, hconfig, hhandled, _, hlast, _, heq, hnot⟩ |
    ⟨x, rxClosed, ok, rfl, htask, heq⟩
  · have hspeaks : s.speaks a := by
      refine ⟨hnot false, ?_⟩
      rw [hended]
      exact nofun
    refine ⟨fun _ => ⟨?_, ?_, ?_⟩, fun hnot => absurd hspeaks hnot⟩
    · unfold BurstsHeard
      rw [hhandled]
      exact h.heard
    · rw [hcurrent, hlast, hhandled]
      exact h.spoken
    · rw [hcurrent, hlast, hhandled]
      exact h.speaking
  · have hspoken := h.spoken hidle
    have hiff : s.speaks a ↔ (s.lastAnnouncedChannel ≠ some r.announcement.1 → s.config.runtime = true) := by
      unfold speaks
      rw [hended]
      exact ⟨fun hspeaks => hspeaks.2 _ rfl, fun hruntime => ⟨hnot false, fun latest hlatest => by
        cases hlatest
        exact hruntime⟩⟩
    obtain ⟨_, _, hlast', hresult⟩ := announce_results s' r.announcement rxClosed
    rw [hlast, hconfig, hhandled] at hresult
    rw [heq, hiff]
    rcases hresult with ⟨hwhy, hhandled', hcurrent⟩ | ⟨⟨hother, hruntime⟩, hhandled', hcurrent⟩
    · refine ⟨fun hruntime => ?_, fun hnone hheard => ?_⟩
      · have hsame : s.lastAnnouncedChannel = some r.announcement.1 := by
          by_contra hother
          exact hwhy.elim hother fun hnone => hnone ⟨htts, hruntime hother⟩
        refine ⟨(burstsHeard_concat hhandled').2 ⟨h.heard, fun hne => ?_⟩, fun _ => ?_, ?_⟩
        · exact absurd (hspoken.symm.trans hsame) hne
        · rw [hlast', hhandled', lastSpoken_concat, ← hspoken, hsame]
          rfl
        · rw [hcurrent]
          exact nofun
      · push Not at hnone
        have hne : lastSpoken s.handled ≠ some r.announcement.1 := hspoken ▸ hnone.1
        exact hsilent _ (((burstsHeard_concat hhandled').1 hheard).2 hne)
    · refine ⟨fun _ => ⟨?_, ?_, ?_⟩, fun hnone => absurd (fun _ => hruntime) hnone⟩
      · unfold BurstsHeard
        rw [hhandled']
        exact h.heard
      · rw [hcurrent]
        exact nofun
      · rw [hcurrent, hlast', hhandled']
        rintro x hx
        cases hx
        exact ⟨rfl, hspoken ▸ hother⟩
  · obtain ⟨hlast, hne⟩ := h.speaking x (by rw [htask]; rfl)
    have hcurrent := current_conclude s x (if ok then [.announcement x] else []) ok rxClosed
    rw [heq]
    cases ok with
    | true =>
      refine ⟨fun _ => ⟨?_, fun _ => ?_, ?_⟩, fun hnot => absurd ⟨nofun, nofun⟩ hnot⟩
      · refine (burstsHeard_concat (h := ⟨x, [.announcement x]⟩) rfl).2 ⟨h.heard, fun _ => ?_⟩
        exact ⟨_, rfl, .inl rfl⟩
      · show s.lastAnnouncedChannel = lastSpoken (s.handled ++ [⟨x, [.announcement x]⟩])
        rw [hlast, lastSpoken_concat]
        rfl
      · rw [hcurrent]
        exact nofun
    | false =>
      refine ⟨fun hspeaks => absurd rfl hspeaks.1, fun _ hheard => ?_⟩
      exact hsilent x (((burstsHeard_concat (h := ⟨x, []⟩) rfl).1 hheard).2 hne)

theorem config_next (hs : s.Debounces) {a : AnnouncerAction} (hen : s.enabled a) :
    (s.next a).config = s.config := by
  rcases next_cases hs hen with ⟨_, hconfig, _⟩ | ⟨r, rxClosed, s', _, _, _, hconfig, _, _, _, _, heq, _⟩ |
    ⟨x, rxClosed, ok, _, _, heq⟩
  · exact hconfig
  · rw [heq]
    exact (announce_results s' r.announcement rxClosed).1.trans hconfig
  · rw [heq]
    rfl

theorem burstsHeard_of_next (hs : s.Debounces) {a : AnnouncerAction} (hen : s.enabled a)
    (hheard : (s.next a).BurstsHeard) : s.BurstsHeard := by
  have hhandled : (s.next a).handled = s.handled ∨ ∃ h, (s.next a).handled = s.handled ++ [h] := by
    rcases next_cases hs hen with ⟨_, _, hhandled, _⟩ | ⟨r, rxClosed, s', _, _, _, _, hhandled, _, _, _, heq, _⟩ |
      ⟨x, rxClosed, ok, _, _, heq⟩
    · exact .inl hhandled
    · obtain ⟨_, _, _, ⟨_, hhandled', _⟩ | ⟨_, hhandled', _⟩⟩ := announce_results s' r.announcement rxClosed
      · exact .inr ⟨_, by rw [heq, hhandled', hhandled]⟩
      · exact .inl (by rw [heq, hhandled', hhandled])
    · exact .inr ⟨_, by rw [heq]; rfl⟩
  rcases hhandled with hsame | ⟨h, hmore⟩
  · unfold BurstsHeard at hheard
    rw [hsame] at hheard
    exact hheard
  · exact ((burstsHeard_concat hmore).1 hheard).1

theorem inStep_of_reaches (hs : announcer.Reaches speaks s) (htts : s.config.ttsEnabled = true) : s.InStep := by
  revert htts
  apply hs.invariant (I := fun s => s.config.ttsEnabled = true → s.InStep)
  · rintro s ⟨config, rfl⟩ _
    refine ⟨fun before h after heq => ?_, fun _ => rfl, nofun⟩
    exact absurd heq (List.append_ne_nil_of_right_ne_nil _ (List.cons_ne_nil _ _)).symm
  · intro s a hs h hen hspeaks htts
    have hdebounces := debounces_of_reachable hs.reachable
    rw [show (announcer.next s a).config = s.config from config_next hdebounces hen] at htts
    exact ((h htts).next hdebounces hen htts).1 hspeaks

end Announcer

/-! ### Text messages -/

namespace TextReader

variable {s : TextReader}

/-- Every message is answered by exactly one sound, its text or the chime, unless it is still waiting. -/
def TextsHeard (s : TextReader) : Prop :=
  ∃ answered : List ((Option String × String) × Sound), s.sounds = answered.map Prod.snd ∧
    s.received.Perm (answered.map Prod.fst ++ s.current.toList ++ s.queue) ∧
    ∀ p ∈ answered, p.2 = .text p.1.1 p.1.2 ∨ p.2 = .chime .textMessage

theorem TextsHeard.next (h : s.TextsHeard) {a : TextAction} (hen : s.enabled a) : (s.next a).TextsHeard := by
  obtain ⟨answered, hsounds, hperm, hvalid⟩ := h
  have hchime : ∀ item, ∀ p ∈ answered ++ [(item, Sound.chime .textMessage)],
      p.2 = .text p.1.1 p.1.2 ∨ p.2 = .chime .textMessage := by
    intro item p hp
    rcases List.mem_append.1 hp with hold | hnew
    · exact hvalid p hold
    · rw [List.mem_singleton.1 hnew]
      exact .inr rfl
  cases a with
  | message senderName message sent =>
    simp only [TextReader.next, TextReader.message]
    split_ifs with hsent
    · refine ⟨answered, hsounds, ?_, hvalid⟩
      show (s.received ++ [(senderName, message)]).Perm (_ ++ (s.queue ++ [(senderName, message)]))
      rw [← List.append_assoc]
      exact hperm.append_right _
    · refine ⟨answered ++ [((senderName, message), .chime .textMessage)], ?_, ?_, hchime _⟩
      · simp only [List.map_append, hsounds]
        rfl
      · show (s.received ++ [(senderName, message)]).Perm _
        rw [List.append_assoc] at hperm
        rw [List.map_append, List.append_assoc, List.append_assoc]
        exact (List.perm_append_singleton _ s.received).trans
          ((hperm.cons (senderName, message)).trans List.perm_middle.symm)
  | receive =>
    obtain ⟨hidle, hqueue⟩ := hen
    obtain ⟨item, queue, hqueue⟩ := List.exists_cons_of_ne_nil hqueue
    rw [hidle, hqueue, Option.toList_none, List.append_nil] at hperm
    simp only [TextReader.next, TextReader.receive, hqueue]
    split_ifs with hruntime
    · refine ⟨answered, hsounds, ?_, hvalid⟩
      rw [Option.toList_some, List.append_assoc, List.singleton_append]
      exact hperm
    · refine ⟨answered ++ [(item, .chime .textMessage)], ?_, ?_, hchime _⟩
      · simp only [List.map_append, hsounds]
        rfl
      · rw [hidle, Option.toList_none, List.append_nil, List.map_append, List.append_assoc]
        exact hperm
  | synthesized ok =>
    cases hcurrent : s.current with
    | none => exact absurd hcurrent hen
    | some item =>
      rw [hcurrent, Option.toList_some, List.append_assoc, List.singleton_append] at hperm
      simp only [TextReader.next, TextReader.synthesized, hcurrent]
      refine ⟨answered ++ [(item, if ok then .text item.1 item.2 else .chime .textMessage)], ?_, ?_, ?_⟩
      · simp only [List.map_append, hsounds]
        rfl
      · rw [Option.toList_none, List.append_nil, List.map_append, List.append_assoc]
        exact hperm
      · cases ok with
        | true =>
          intro p hp
          rcases List.mem_append.1 hp with hold | hnew
          · exact hvalid p hold
          · rw [List.mem_singleton.1 hnew]
            exact .inl rfl
        | false => exact hchime item

theorem textsHeard_of_reachable (hs : textReader.Reachable s) : s.TextsHeard := by
  apply hs.invariant (I := TextsHeard)
  · rintro s ⟨config, rfl⟩
    exact ⟨[], rfl, List.Perm.refl _, nofun⟩
  · intro s a _ h hen _
    exact h.next hen

end TextReader

/-- In every run, every text message is answered by one sound. Every burst in another channel than the caller was
last told is answered by one sound in the runs in which no announcement fails to be synthesized, and no longer
once one does. -/
theorem bursts_heard (reader : TextReader) (s : Announcer) :
    (textReader.Reachable reader → reader.TextsHeard) ∧
      (announcer.Reachable s → s.Accounted) ∧
      (announcer.Reaches Announcer.speaks s → s.config.ttsEnabled = true → s.BurstsHeard ∧
        ∀ a, s.enabled a → ¬s.speaks a → ∀ s', (announcer.startingAt (s.next a)).Reachable s' →
          ¬s'.BurstsHeard) := by
  refine ⟨TextReader.textsHeard_of_reachable, Announcer.accounted_of_reachable, fun hs htts => ?_⟩
  have h := Announcer.inStep_of_reaches hs htts
  refine ⟨h.heard, fun a hen hnot s' hs' => ?_⟩
  have hdebounces := Announcer.debounces_of_reachable hs.reachable
  have hstable : s'.Debounces ∧ ¬s'.BurstsHeard := by
    apply hs'.stable (P := fun s => s.Debounces ∧ ¬s.BurstsHeard)
    · exact ⟨hdebounces.next hen, (h.next hdebounces hen htts).2 hnot⟩
    · rintro s a ⟨hs, hunheard⟩ hen _
      exact ⟨hs.next hen, fun hheard => hunheard (Announcer.burstsHeard_of_next hs hen hheard)⟩
  exact hstable.2

/-- The synthesis fails for a channel; the next announcement of the channel is passed over. -/
theorem failed_announcement_unheard : ¬∀ s, announcer.Reachable s → s.config.ttsEnabled = true →
    s.BurstsHeard := by
  intro hclaim
  obtain ⟨s, hs, hP⟩ := System.exists_reaches_of_run announcer System.anyStep (s := .start ⟨true, 0, true⟩)
    ⟨_, rfl⟩
    [.send (3, some "Lounge"), .receive, .synthesized false, .send (3, some "Lounge"), .receive]
    (fun s => s.config.ttsEnabled = true ∧
      s.handled = [⟨(3, some "Lounge"), []⟩, ⟨(3, some "Lounge"), []⟩]) (by decide)
  obtain ⟨htts, hhandled⟩ := of_decide_eq_true hP
  obtain ⟨sound, hsounds, _⟩ := hclaim s hs htts [⟨(3, some "Lounge"), []⟩] ⟨(3, some "Lounge"), []⟩ []
    hhandled (by decide)
  cases hsounds

end MumbleSip
