import MumbleSip.Audio.Answers
import MumbleSip.Audio.Phrase
import MumbleSip.Session.Fallback

/-!
# What a session says

The announcer and the text reader of a session, and the TTS runtime that they share with all other callers. What
the tasks take for an oracle, the outcome of a synthesis, is here the return of their call of `synthesize_phrase`,
so a run of the session is a run of each task, and what they send for a channel or a message is a synthesis of its
phrase.
-/

namespace MumbleSip

open Transition

/-! ### What the runtime keeps -/

namespace PocketTtsRuntime

variable {r : PocketTtsRuntime} {i t : Nat}

/-- The tasks have made these samples of the phrase. -/
def Synthesizes (r : PocketTtsRuntime) (phrase : String) (pcm : Pcm) : Prop :=
  ∃ t, r.Spawned (r.cacheKey phrase) t ∧ (r.tasks t).result = some (.ok pcm)

theorem Synthesizes.keeps {r' : PocketTtsRuntime} {phrase : String} {pcm : Pcm} (h : r.Synthesizes phrase pcm)
    (hkeeps : r.Keeps r') (hkey : r'.cacheKey = r.cacheKey) : r'.Synthesizes phrase pcm := by
  obtain ⟨t, hspawned, hresult⟩ := h
  obtain ⟨hpc, hsame, hmono⟩ := hkeeps t hspawned.1
  refine ⟨t, ⟨hpc, ?_⟩, hmono _ hresult⟩
  rw [hsame, hspawned.2, hkey]

theorem cacheKey_stepCall (a : PhraseAction) : (r.stepCall i a).cacheKey = r.cacheKey := by
  have hclone : ∀ t seen, (r.cloneResult i t seen).cacheKey = r.cacheKey := by
    intro t seen
    unfold cloneResult
    split <;> rfl
  cases a with
  | checkCache => rfl
  | checkInFlight =>
    simp only [stepCall, checkInFlight]
    split <;> rfl
  | assertAvailable now =>
    simp only [stepCall, assertAvailable]
    split
    · rfl
    · rfl
    · split <;> rfl
  | launch =>
    simp only [stepCall, launch]
    split <;> rfl
  | borrow =>
    simp only [stepCall, borrow]
    split
    · exact hclone _ _
    · rfl
  | changed =>
    simp only [stepCall, changed]
    split
    · split
      · exact hclone _ _
      · rfl
      · rfl
    · rfl
  | cancel => rfl

/-- A task goes on with its key, and with its result once it has one. -/
structure GoesOn (r r' : PocketTtsRuntime) (t : Nat) : Prop where
  spawned : (r.tasks t).pc ≠ .unspawned → (r'.tasks t).pc ≠ .unspawned
  cacheKey : r'.cacheKey = r.cacheKey
  taskKey : (r'.tasks t).cacheKey = (r.tasks t).cacheKey
  result : (r'.tasks t).result = (r.tasks t).result

theorem goesOn_setTask {r' : PocketTtsRuntime} (hkey : r'.cacheKey = r.cacheKey) {task : SynthesisTask}
    (hspawned : task.pc ≠ .unspawned) (htask : task.cacheKey = (r.tasks t).cacheKey)
    (hresult : task.result = (r.tasks t).result) : r.GoesOn (r'.setTask t task) t := by
  have hself : (r'.setTask t task).tasks t = task := Function.update_self _ _ _
  refine ⟨fun _ => ?_, hkey, ?_, ?_⟩
  · rw [hself]
    exact hspawned
  · rw [hself, htask]
  · rw [hself, hresult]

theorem goesOn_stepTask {a : SynthesisAction} (hne : ∀ result, a ≠ .synthesized result) :
    r.GoesOn (r.stepTask t a) t := by
  have hstay : r.GoesOn r t := ⟨id, rfl, rfl, rfl⟩
  have hgoto : ∀ pc, pc ≠ .unspawned → r.GoesOn (r.goto t pc) t := fun pc hpc => goesOn_setTask rfl hpc rfl rfl
  cases a with
  | synthesized result => exact absurd rfl (hne result)
  | insertCache =>
    simp only [stepTask, insertCache]
    split
    · exact goesOn_setTask (by rfl) SynthesisPc.noConfusion (by rfl) (by rfl)
    · exact hstay
  | markHealthy => exact goesOn_setTask (by rfl) SynthesisPc.noConfusion (by rfl) (by rfl)
  | handleFailure now =>
    have hstart : r.GoesOn (r.startRecovery t) t := goesOn_setTask (by rfl) SynthesisPc.noConfusion (by rfl) (by rfl)
    simp only [stepTask, handleFailure]
    split
    · exact hstart
    · exact hgoto _ SynthesisPc.noConfusion
    · split
      · exact hstart
      · exact hgoto _ SynthesisPc.noConfusion
  | healthCheck ok =>
    simp only [stepTask, healthCheck]
    split
    · split
      · exact hgoto _ SynthesisPc.noConfusion
      · split <;> exact hgoto _ SynthesisPc.noConfusion
    · exact hstay
  | verdict now =>
    simp only [stepTask, verdict]
    split
    · exact goesOn_setTask (by rfl) SynthesisPc.noConfusion (by rfl) (by rfl)
    · exact hstay
  | send =>
    simp only [stepTask, send]
    split
    · exact goesOn_setTask (by rfl) SynthesisPc.noConfusion (by rfl) (by rfl)
    · exact hstay
  | remove => exact goesOn_setTask (by rfl) SynthesisPc.noConfusion (by rfl) (by rfl)

theorem cacheKey_next (a : TtsAction) : (r.next a).cacheKey = r.cacheKey := by
  cases a with
  | synthesizePhrase phrase => rfl
  | call i a => exact cacheKey_stepCall a
  | task t a =>
    cases a with
    | synthesized result => rfl
    | _ => exact (goesOn_stepTask fun _ heq => by cases heq).cacheKey

theorem keeps_next (htracked : r.Tracked) (horderly : r.Orderly) {a : TtsAction} (hen : r.enabled a) :
    r.Keeps (r.next a) := by
  intro u hspawned
  cases a with
  | synthesizePhrase phrase => exact ⟨hspawned, rfl, fun _ hresult => hresult⟩
  | call i a =>
    have hsame : (r.stepCall i a).tasks u = r.tasks u := by
      obtain ⟨_, _, ⟨⟨htasks, _⟩, _⟩ | ⟨hspawns, _⟩⟩ := htracked.stepCall_moves horderly hen
      · rw [htasks]
      · apply hspawns.others
        intro heq
        exact hspawned (htracked.fresh u heq.ge)
    show ((r.stepCall i a).tasks u).pc ≠ .unspawned ∧ _
    rw [PocketTtsRuntime.next, hsame]
    exact ⟨hspawned, rfl, fun _ hresult => hresult⟩
  | task t a =>
    by_cases hu : u = t
    · subst u
      by_cases hsynthesized : ∃ result, a = .synthesized result
      · obtain ⟨result, rfl⟩ := hsynthesized
        have hnone : (r.tasks t).result = none := by
          have hsound := htracked.sound t
          unfold SynthesisTask.Sound at hsound
          rw [show (r.tasks t).pc = .synthesize from hen] at hsound
          exact hsound.1
        refine ⟨?_, ?_, fun result' hresult => ?_⟩
        · show ((r.synthesized t result).tasks t).pc ≠ .unspawned
          simp only [synthesized, setTask, Function.update_self]
          split <;> exact SynthesisPc.noConfusion
        · show ((r.synthesized t result).tasks t).cacheKey = _
          simp only [synthesized, setTask, Function.update_self]
        · rw [hnone] at hresult
          cases hresult
      · have hgoes : r.GoesOn (r.stepTask t a) t := goesOn_stepTask fun result heq => hsynthesized ⟨result, heq⟩
        exact ⟨hgoes.spawned hspawned, hgoes.taskKey, fun result hresult => hgoes.result.trans hresult⟩
    · show ((r.stepTask t a).tasks u).pc ≠ .unspawned ∧ _
      rw [PocketTtsRuntime.next, (taskFrame_stepTask a).tasks u hu]
      exact ⟨hspawned, rfl, fun _ hresult => hresult⟩

/-- The call has been made for the phrase. -/
structure Asks (r : PocketTtsRuntime) (i : Nat) (phrase : String) : Prop where
  called : (r.calls i).pc ≠ .uncalled
  cacheKey : (r.calls i).cacheKey = r.cacheKey phrase

theorem asks_synthesizePhrase (r : PocketTtsRuntime) (phrase : String) :
    (r.synthesizePhrase phrase).Asks r.nextCall phrase := by
  have hself : (r.synthesizePhrase phrase).calls r.nextCall = ⟨r.cacheKey phrase, .checkCache⟩ :=
    Function.update_self _ _ _
  refine ⟨?_, ?_⟩
  · rw [hself]
    exact PhrasePc.noConfusion
  · rw [hself]
    rfl

theorem Asks.lt_nextCall {phrase : String} (h : r.Asks i phrase) (horderly : r.Orderly) : i < r.nextCall := by
  by_contra hge
  exact h.called (horderly.fresh i (Nat.le_of_not_lt hge))

theorem called_stepCall {a : PhraseAction} (hen : r.enabledCall i a) : ((r.stepCall i a).calls i).pc ≠ .uncalled := by
  have hleads := leads_stepCall hen
  intro hpc
  rw [hpc] at hleads
  cases a <;> simp [Leads] at hleads

theorem Asks.next {phrase : String} (h : r.Asks i phrase) (htracked : r.Tracked) (horderly : r.Orderly)
    {a : TtsAction} (hen : r.enabled a) : (r.next a).Asks i phrase := by
  have hkeep : ∀ {r' : PocketTtsRuntime}, r'.cacheKey = r.cacheKey → r'.calls i = r.calls i → r'.Asks i phrase := by
    intro r' hkey hcall
    refine ⟨?_, ?_⟩
    · rw [hcall]
      exact h.called
    · rw [hcall, hkey]
      exact h.cacheKey
  have hkey := r.cacheKey_next a
  cases a with
  | synthesizePhrase phrase' =>
    apply hkeep hkey
    exact Function.update_of_ne (h.lt_nextCall horderly).ne _ _
  | call j a =>
    obtain ⟨pc, hmoves, _⟩ := htracked.stepCall_moves horderly hen
    by_cases hj : i = j
    · subst j
      refine ⟨called_stepCall hen, ?_⟩
      rw [hkey, ← h.cacheKey]
      show ((r.stepCall i a).calls i).cacheKey = _
      rw [hmoves.calls, Function.update_self]
    · apply hkeep hkey
      show (r.stepCall j a).calls i = _
      rw [hmoves.calls, Function.update_of_ne hj]
  | task t a =>
    apply hkeep hkey
    exact congrFun (taskFrame_stepTask a).calls i

/-- The samples that a call returns are those of a synthesis of its phrase. -/
theorem Asks.synthesizes {phrase : String} {pcm : Pcm} (h : r.Asks i phrase) (hsynthesized : r.Synthesized)
    (htracked : r.Tracked) (hsamples : (r.calls i).pc.samples = some pcm) : r.Synthesizes phrase pcm := by
  cases hpc : (r.calls i).pc with
  | hit pcm' =>
    rw [hpc] at hsamples
    cases hsamples
    obtain ⟨t, ht, hstored⟩ := hsynthesized.hits i _ hpc
    exact ⟨t, ⟨Stored.spawned hstored, ht.trans h.cacheKey⟩, hstored.2⟩
  | answered t result =>
    have hwaits := htracked.waits i
    unfold Waits at hwaits
    rw [hpc] at hwaits hsamples
    obtain ⟨⟨hspawned, ht⟩, hresult⟩ := hwaits
    cases result with
    | ok pcm' =>
      cases hsamples
      exact ⟨t, ⟨hspawned, ht.trans h.cacheKey⟩, hresult⟩
    | error text => cases hsamples
  | _ =>
    rw [hpc] at hsamples
    cases hsamples

end PocketTtsRuntime

/-- The end of a synthesis. -/
def AnnouncerAction.isOutcome : AnnouncerAction → Bool
  | .synthesized _ => true
  | _ => false

/-- A call of `synthesize_phrase` has returned to its caller. -/
def PhrasePc.returned : PhrasePc → Bool
  | .hit _ | .refused _ | .answered _ _ => true
  | _ => false

namespace Announcer

variable {s : Announcer}

/-- The task sends nothing for a burst, or its announcement. -/
def Plain (handled : List Handled) : Prop :=
  ∀ h ∈ handled, h.sounds = [] ∨ h.sounds = [.announcement h.announcement]

theorem plain_concat {handled : List Handled} (h : Plain handled) {last : Handled}
    (hlast : last.sounds = [] ∨ last.sounds = [.announcement last.announcement]) : Plain (handled ++ [last]) := by
  intro h' hmem
  rcases List.mem_append.1 hmem with hold | hnew
  · exact h h' hold
  · rw [List.mem_singleton.1 hnew]
    exact hlast

theorem plain_of_reachable (hs : announcer.Reachable s) : Plain s.handled := by
  apply hs.invariant (I := fun s => Plain s.handled)
  · rintro s ⟨config, rfl⟩
    exact nofun
  · intro s a hs h hen _
    rcases next_cases (debounces_of_reachable hs) hen with ⟨_, _, hhandled, _⟩ |
      ⟨r, rxClosed, s', _, _, _, _, hhandled, _, _, _, heq, _⟩ | ⟨x, rxClosed, ok, _, _, heq⟩
    · rwa [show (announcer.next s a).handled = s.handled from hhandled]
    · rw [show announcer.next s a = s'.announce r.announcement rxClosed from heq]
      obtain ⟨_, _, _, ⟨_, hhandled', _⟩ | ⟨_, hhandled', _⟩⟩ := announce_results s' r.announcement rxClosed
      · rw [hhandled', hhandled]
        exact plain_concat h (.inl rfl)
      · rwa [hhandled', hhandled]
    · rw [show announcer.next s a = _ from heq]
      refine plain_concat h ?_
      cases ok
      · exact .inl rfl
      · exact .inr rfl

/-- The announcements that have been sent are those of some of the bursts. -/
theorem exists_said {handled : List Handled} (h : Plain handled) : ∃ said : List Announcement,
    said.Sublist (handled.map Handled.announcement) ∧
      handled.flatMap Handled.sounds = said.map Sound.announcement := by
  induction handled with
  | nil => exact ⟨[], .slnil, rfl⟩
  | cons first handled ih =>
    obtain ⟨said, hsaid, hmap⟩ := ih fun h' hmem => h h' (List.mem_cons_of_mem _ hmem)
    rcases h first List.mem_cons_self with hnone | hone
    · refine ⟨said, hsaid.cons _, ?_⟩
      rw [List.flatMap_cons, hnone, hmap]
      rfl
    · refine ⟨first.announcement :: said, hsaid.cons_cons _, ?_⟩
      rw [List.flatMap_cons, hone, hmap]
      rfl

end Announcer

/-! ### The session -/

structure SpokenSession where
  runtime : PocketTtsRuntime
  /-- The text reader, the call of `synthesize_phrase` that it waits for, and what it has sent to the mixer. -/
  reader : TextReader
  readerCall : Option Nat
  readerPcm : List Pcm
  announcer : Announcer
  announcerCall : Option Nat
  announcerPcm : List Pcm

inductive SpokenAction
  /-- A step of a call or a background task, or the call of somebody else. -/
  | runtime (a : TtsAction)
  /-- The event handler has a text message; `sent` is whether the reader takes it. -/
  | message (senderName : Option String) (message : String) (sent : Bool)
  | receiveText
  | textReturned
  /-- A step of the announcer that is not the end of a synthesis. -/
  | announcer (a : AnnouncerAction)
  | announcementReturned
  deriving DecidableEq

namespace SpokenSession

variable (getSound : SoundEvent → Pcm) (s : SpokenSession)

def start (runtime : PocketTtsRuntime) (config : SpeechConfig) : SpokenSession :=
  ⟨runtime, .start config, none, [], .start config, none, []⟩

/-- What the awaited call has returned. -/
def outcome (call : Option Nat) : Option Pcm := call.bind fun i => (s.runtime.calls i).pc.samples

def hasReturned (call : Option Nat) : Bool := call.any fun i => (s.runtime.calls i).pc.returned

def message (senderName : Option String) (message : String) (sent : Bool) : SpokenSession :=
  { s with
    reader := s.reader.message senderName message sent
    readerPcm := s.readerPcm ++ if s.reader.config.ttsEnabled ∧ sent then [] else [getSound .textMessage] }

/-- The reader calls `synthesize_phrase`, if there is a runtime. -/
def receiveText : SpokenSession :=
  match s.reader.receive.current with
  | some (senderName, message) =>
    { s with
      reader := s.reader.receive
      runtime := s.runtime.synthesizePhrase (textMessagePhrase senderName message)
      readerCall := some s.runtime.nextCall }
  | none => { s with reader := s.reader.receive, readerPcm := s.readerPcm ++ [getSound .textMessage] }

def textReturned : SpokenSession :=
  { s with
    reader := s.reader.synthesized (s.outcome s.readerCall).isSome
    readerCall := none
    readerPcm := s.readerPcm ++ [(s.outcome s.readerCall).getD (getSound .textMessage)] }

/-- A burst that is to be announced leads to the call of `synth_channel_announcement`. -/
def stepAnnouncer (a : AnnouncerAction) : SpokenSession :=
  match s.announcer.task.current, (s.announcer.next a).task.current with
  | none, some (channelId, channelName) =>
    { s with
      announcer := s.announcer.next a
      runtime := s.runtime.synthesizePhrase (channelAnnouncementPhrase channelName channelId)
      announcerCall := some s.runtime.nextCall }
  | _, _ => { s with announcer := s.announcer.next a }

def announcementReturned : SpokenSession :=
  { s with
    announcer := s.announcer.synthesized (s.outcome s.announcerCall).isSome
    announcerCall := none
    announcerPcm := s.announcerPcm ++ (s.outcome s.announcerCall).toList }

def enabled : SpokenAction → Prop
  | .runtime a => s.runtime.enabled a
  | .message _ _ _ => True
  | .receiveText => s.reader.enabled .receive
  | .textReturned => s.reader.current ≠ none ∧ s.hasReturned s.readerCall = true
  | .announcer a => a.isOutcome = false ∧ s.announcer.enabled a
  | .announcementReturned => s.announcer.task.synthesizes = true ∧ s.hasReturned s.announcerCall = true

instance : (a : SpokenAction) → Decidable (s.enabled a)
  | .runtime a => inferInstanceAs (Decidable (s.runtime.enabled a))
  | .message _ _ _ => instDecidableTrue
  | .receiveText | .textReturned => inferInstanceAs (Decidable (_ ∧ _))
  | .announcer a => inferInstanceAs (Decidable (_ ∧ s.announcer.enabled a))
  | .announcementReturned => inferInstanceAs (Decidable (_ ∧ _))

def next : SpokenAction → SpokenSession
  | .runtime a => { s with runtime := s.runtime.next a }
  | .message senderName message sent => s.message getSound senderName message sent
  | .receiveText => s.receiveText getSound
  | .textReturned => s.textReturned getSound
  | .announcer a => s.stepAnnouncer a
  | .announcementReturned => s.announcementReturned

end SpokenSession

/-- A session that has just been established, whatever the runtime has been doing. -/
def spokenSession (getSound : SoundEvent → Pcm) : System SpokenSession SpokenAction where
  init s := ∃ runtime config, ttsRuntime.Reachable runtime ∧ s = .start runtime config
  enabled := SpokenSession.enabled
  next := SpokenSession.next getSound

instance {getSound : SoundEvent → Pcm} (s : SpokenSession) (a : SpokenAction) :
    Decidable ((spokenSession getSound).enabled s a) :=
  inferInstanceAs (Decidable (s.enabled a))

/-! ### What is said -/

/-- The samples are what is to be heard for the sound. -/
def PocketTtsRuntime.Voices (getSound : SoundEvent → Pcm) (r : PocketTtsRuntime) : Sound → Pcm → Prop
  | .announcement (channelId, channelName), pcm => r.Synthesizes (channelAnnouncementPhrase channelName channelId) pcm
  | .text senderName message, pcm => r.Synthesizes (textMessagePhrase senderName message) pcm
  | .chime event, pcm => pcm = getSound event

/-- A task that shares the runtime: whoever waits has made a call for its phrase, and what has been sent is what is
to be heard. -/
structure Voiced (getSound : SoundEvent → Pcm) (r : PocketTtsRuntime) (call : Option Nat) (phrase : Option String)
    (sounds : List Sound) (pcms : List Pcm) : Prop where
  asks : ∀ text, phrase = some text → ∃ i, call = some i ∧ r.Asks i text
  pcms : List.Forall₂ (r.Voices getSound) sounds pcms

section Voiced

variable {getSound : SoundEvent → Pcm} {r : PocketTtsRuntime} {call : Option Nat} {phrase : Option String}
  {sounds : List Sound} {pcms : List Pcm}

theorem Voiced.start (getSound : SoundEvent → Pcm) (r : PocketTtsRuntime) : Voiced getSound r none none [] [] :=
  ⟨nofun, .nil⟩

theorem PocketTtsRuntime.voices_next (hs : ttsRuntime.Reachable r) {a : TtsAction} (hen : r.enabled a) {sound : Sound}
    {pcm : Pcm} (h : r.Voices getSound sound pcm) : (r.next a).Voices getSound sound pcm := by
  have hkeeps := keeps_next (reaches_tracked hs) (reaches_orderly hs) hen
  cases sound with
  | announcement channel => exact h.keeps hkeeps (r.cacheKey_next a)
  | text senderName message => exact h.keeps hkeeps (r.cacheKey_next a)
  | chime event => exact h

theorem Voiced.next (h : Voiced getSound r call phrase sounds pcms) (hs : ttsRuntime.Reachable r) {a : TtsAction}
    (hen : r.enabled a) : Voiced getSound (r.next a) call phrase sounds pcms := by
  refine ⟨fun text htext => ?_, h.pcms.imp fun _ _ => PocketTtsRuntime.voices_next hs hen⟩
  obtain ⟨i, hcall, hasks⟩ := h.asks text htext
  exact ⟨i, hcall, hasks.next (PocketTtsRuntime.reaches_tracked hs) (PocketTtsRuntime.reaches_orderly hs) hen⟩

theorem Voiced.ask (h : Voiced getSound r call phrase sounds pcms) (hs : ttsRuntime.Reachable r) (text : String) :
    Voiced getSound (r.synthesizePhrase text) (some r.nextCall) (some text) sounds pcms := by
  have hnext : Voiced getSound (r.synthesizePhrase text) call phrase sounds pcms :=
    h.next hs (a := TtsAction.synthesizePhrase text) trivial
  refine ⟨fun text' htext => ?_, hnext.pcms⟩
  cases htext
  exact ⟨r.nextCall, rfl, r.asks_synthesizePhrase text⟩

/-- What the call of a waiting task returns is a synthesis of its phrase. -/
theorem Voiced.synthesizes (h : Voiced getSound r call phrase sounds pcms) (hs : ttsRuntime.Reachable r) {text : String}
    (htext : phrase = some text) {pcm : Pcm} (hreturned : call.bind (fun i => (r.calls i).pc.samples) = some pcm) :
    r.Synthesizes text pcm := by
  obtain ⟨i, hcall, hasks⟩ := h.asks text htext
  rw [hcall] at hreturned
  exact hasks.synthesizes (PocketTtsRuntime.reaches_synthesized hs) (PocketTtsRuntime.reaches_tracked hs) hreturned

theorem Voiced.send (h : Voiced getSound r call phrase sounds pcms) (call' : Option Nat) {more : List Sound}
    {pcms' : List Pcm} (hmore : List.Forall₂ (r.Voices getSound) more pcms') :
    Voiced getSound r call' none (sounds ++ more) (pcms ++ pcms') :=
  ⟨nofun, List.rel_append h.pcms hmore⟩

end Voiced

namespace SpokenSession

variable {getSound : SoundEvent → Pcm} {s : SpokenSession}

/-- The phrase that the reader waits for. -/
def readerPhrase (reader : TextReader) : Option String :=
  reader.current.map fun item => textMessagePhrase item.1 item.2

def announcerPhrase (announcer : Announcer) : Option String :=
  announcer.task.current.map fun a => channelAnnouncementPhrase a.2 a.1

/-- The tasks run as they do alone, and what they send is what is to be heard. -/
structure Truthful (getSound : SoundEvent → Pcm) (s : SpokenSession) : Prop where
  runtime : ttsRuntime.Reachable s.runtime
  readerRuns : textReader.Reachable s.reader
  announcerRuns : MumbleSip.announcer.Reachable s.announcer
  reader : Voiced getSound s.runtime s.readerCall (readerPhrase s.reader) s.reader.sounds s.readerPcm
  announcer : Voiced getSound s.runtime s.announcerCall (announcerPhrase s.announcer) s.announcer.sounds s.announcerPcm

theorem Truthful.stepRuntime (h : Truthful getSound s) {a : TtsAction} (hen : s.runtime.enabled a) :
    Truthful getSound { s with runtime := s.runtime.next a } where
  runtime := h.runtime.step hen trivial
  readerRuns := h.readerRuns
  announcerRuns := h.announcerRuns
  reader := h.reader.next h.runtime hen
  announcer := h.announcer.next h.runtime hen

theorem Truthful.message (h : Truthful getSound s) (senderName : Option String) (message : String) (sent : Bool) :
    Truthful getSound (s.message getSound senderName message sent) := by
  have hruns : textReader.Reachable (s.reader.message senderName message sent) :=
    h.readerRuns.step (a := TextAction.message senderName message sent) trivial trivial
  refine ⟨h.runtime, hruns, h.announcerRuns, ?_, h.announcer⟩
  simp only [SpokenSession.message, TextReader.message]
  split_ifs with hsent
  · rw [List.append_nil]
    exact h.reader
  · refine ⟨h.reader.asks, List.rel_append h.reader.pcms ?_⟩
    exact .cons rfl .nil

theorem Truthful.receiveText (h : Truthful getSound s) (hen : s.reader.enabled .receive) :
    Truthful getSound (s.receiveText getSound) := by
  have hruns : textReader.Reachable s.reader.receive := h.readerRuns.step (a := TextAction.receive) hen trivial
  obtain ⟨hidle, hqueue⟩ := hen
  obtain ⟨⟨senderName, message⟩, queue, hqueue⟩ := List.exists_cons_of_ne_nil hqueue
  have hnone := h.reader
  rw [readerPhrase, hidle] at hnone
  by_cases hruntime : s.reader.config.runtime = true
  · have hreceive : s.reader.receive = { s.reader with queue := queue, current := some (senderName, message) } := by
      simp only [TextReader.receive, hqueue, if_pos hruntime]
    have hstep : s.receiveText getSound = { s with
        reader := s.reader.receive
        runtime := s.runtime.synthesizePhrase (textMessagePhrase senderName message)
        readerCall := some s.runtime.nextCall } := by
      simp only [SpokenSession.receiveText, hreceive]
    rw [hstep]
    refine ⟨h.runtime.step (a := TtsAction.synthesizePhrase _) trivial trivial, hruns, h.announcerRuns, ?_,
      h.announcer.next h.runtime (a := TtsAction.synthesizePhrase _) trivial⟩
    simp only [hreceive]
    exact hnone.ask h.runtime _
  · have hreceive : s.reader.receive = { s.reader with
        queue := queue
        sounds := s.reader.sounds ++ [.chime .textMessage] } := by
      simp only [TextReader.receive, hqueue, if_neg hruntime]
    have hstep : s.receiveText getSound = { s with
        reader := s.reader.receive
        readerPcm := s.readerPcm ++ [getSound .textMessage] } := by
      simp only [SpokenSession.receiveText, hreceive, hidle]
    rw [hstep]
    refine ⟨h.runtime, hruns, h.announcerRuns, ?_, h.announcer⟩
    simp only [hreceive, readerPhrase, hidle]
    exact hnone.send _ (.cons rfl .nil)

theorem Truthful.textReturned (h : Truthful getSound s) (hen : s.reader.current ≠ none) :
    Truthful getSound (s.textReturned getSound) := by
  have hruns : textReader.Reachable (s.reader.synthesized (s.outcome s.readerCall).isSome) :=
    h.readerRuns.step (a := TextAction.synthesized _) hen trivial
  refine ⟨h.runtime, hruns, h.announcerRuns, ?_, h.announcer⟩
  obtain ⟨⟨senderName, message⟩, hcurrent⟩ := Option.ne_none_iff_exists'.1 hen
  simp only [SpokenSession.textReturned, TextReader.synthesized, hcurrent]
  apply h.reader.send
  have hphrase : readerPhrase s.reader = some (textMessagePhrase senderName message) := by
    rw [readerPhrase, hcurrent]
    rfl
  cases houtcome : s.outcome s.readerCall with
  | none => exact .cons rfl .nil
  | some pcm => exact .cons (h.reader.synthesizes h.runtime hphrase houtcome) .nil

theorem Truthful.stepAnnouncer (h : Truthful getSound s) {a : AnnouncerAction} (hno : a.isOutcome = false)
    (hen : s.announcer.enabled a) : Truthful getSound (s.stepAnnouncer a) := by
  have hruns : MumbleSip.announcer.Reachable (s.announcer.next a) := h.announcerRuns.step hen trivial
  have hdebounces := Announcer.debounces_of_reachable h.announcerRuns
  -- the announcer goes on without a call
  have hgoes : (s.announcer.next a).sounds = s.announcer.sounds →
      (s.announcer.next a).task.current = s.announcer.task.current → Truthful getSound (s.stepAnnouncer a) := by
    intro hsounds hcurrent
    have hstep : s.stepAnnouncer a = { s with announcer := s.announcer.next a } := by
      simp only [SpokenSession.stepAnnouncer, hcurrent]
      cases s.announcer.task.current <;> rfl
    rw [hstep]
    refine ⟨h.runtime, h.readerRuns, hruns, h.reader, ?_⟩
    have hsame := h.announcer
    rw [announcerPhrase, ← hsounds, ← hcurrent] at hsame
    exact hsame
  rcases Announcer.next_cases hdebounces hen with ⟨_, _, _, hsounds, _, _, hcurrent, _⟩ |
    ⟨receipt, rxClosed, s', _, hidle, _, _, _, hsounds, _, _, heq, _⟩ | ⟨_, _, ok, rfl, _⟩
  · exact hgoes hsounds hcurrent
  · obtain ⟨_, hsounds', _, hresult⟩ := Announcer.announce_results s' receipt.announcement rxClosed
    rw [← heq] at hsounds' hresult
    rcases hresult with ⟨_, _, hcurrent⟩ | ⟨_, _, hcurrent⟩
    · exact hgoes (hsounds'.trans hsounds) (hcurrent.trans hidle.symm)
    · have hstep : s.stepAnnouncer a = { s with
          announcer := s.announcer.next a
          runtime := s.runtime.synthesizePhrase
            (channelAnnouncementPhrase receipt.announcement.2 receipt.announcement.1)
          announcerCall := some s.runtime.nextCall } := by
        simp only [SpokenSession.stepAnnouncer, hidle, hcurrent]
      rw [hstep]
      refine ⟨h.runtime.step (a := TtsAction.synthesizePhrase _) trivial trivial, h.readerRuns, hruns,
        h.reader.next h.runtime (a := TtsAction.synthesizePhrase _) trivial, ?_⟩
      simp only [announcerPhrase, hcurrent, hsounds', hsounds]
      exact h.announcer.ask h.runtime _
  · cases hno

theorem Truthful.announcementReturned (h : Truthful getSound s) (hen : s.announcer.task.synthesizes = true) :
    Truthful getSound s.announcementReturned := by
  have hruns : MumbleSip.announcer.Reachable (s.announcer.synthesized (s.outcome s.announcerCall).isSome) :=
    h.announcerRuns.step (a := AnnouncerAction.synthesized _) hen trivial
  refine ⟨h.runtime, h.readerRuns, hruns, h.reader, ?_⟩
  have hsynthesized : s.announcer.enabled (.synthesized (s.outcome s.announcerCall).isSome) := hen
  obtain ⟨a, rxClosed, htask, heq⟩ := Announcer.synthesized_cases hsynthesized
  have hphrase : announcerPhrase s.announcer = some (channelAnnouncementPhrase a.2 a.1) := by
    rw [announcerPhrase, htask]
    rfl
  simp only [SpokenSession.announcementReturned, announcerPhrase, heq, Announcer.current_conclude]
  apply h.announcer.send
  cases houtcome : s.outcome s.announcerCall with
  | none => exact .nil
  | some pcm => exact .cons (h.announcer.synthesizes h.runtime hphrase houtcome) .nil

theorem truthful_of_reachable (hs : (spokenSession getSound).Reachable s) : Truthful getSound s := by
  apply hs.invariant (I := Truthful getSound)
  · rintro s ⟨runtime, config, hruntime, rfl⟩
    exact ⟨hruntime, .init ⟨config, rfl⟩, .init ⟨config, rfl⟩, .start _ _, .start _ _⟩
  · intro s a _ h hen _
    cases a with
    | runtime a => exact h.stepRuntime hen
    | message senderName message sent => exact h.message senderName message sent
    | receiveText => exact h.receiveText hen
    | textReturned => exact h.textReturned hen.1
    | announcer a => exact h.stepAnnouncer hen.1 hen.2
    | announcementReturned => exact h.announcementReturned hen.1

/-- Every message is answered by the samples of its phrase or by the chime, unless it is still waiting. -/
def MessagesAnswered (getSound : SoundEvent → Pcm) (s : SpokenSession) : Prop :=
  ∃ answered : List ((Option String × String) × Pcm), s.readerPcm = answered.map Prod.snd ∧
    s.reader.received.Perm (answered.map Prod.fst ++ s.reader.current.toList ++ s.reader.queue) ∧
    ∀ p ∈ answered, s.runtime.Synthesizes (textMessagePhrase p.1.1 p.1.2) p.2 ∨ p.2 = getSound .textMessage

/-- What is said of channels are the announcements of bursts, in their order. -/
def ChannelsSaid (s : SpokenSession) : Prop :=
  ∃ said : List Announcement, said.Sublist s.announcer.finals ∧
    List.Forall₂ (fun a pcm => s.runtime.Synthesizes (channelAnnouncementPhrase a.2 a.1) pcm) said s.announcerPcm

/-- The samples of the sounds in their places. -/
theorem exists_answered {r : PocketTtsRuntime} {answered : List ((Option String × String) × Sound)} {pcms : List Pcm}
    (hvoices : List.Forall₂ (r.Voices getSound) (answered.map Prod.snd) pcms)
    (hvalid : ∀ p ∈ answered, p.2 = .text p.1.1 p.1.2 ∨ p.2 = .chime .textMessage) :
    ∃ answered' : List ((Option String × String) × Pcm), pcms = answered'.map Prod.snd ∧
      answered'.map Prod.fst = answered.map Prod.fst ∧
      ∀ p ∈ answered', r.Synthesizes (textMessagePhrase p.1.1 p.1.2) p.2 ∨ p.2 = getSound .textMessage := by
  induction answered generalizing pcms with
  | nil =>
    cases hvoices
    exact ⟨[], rfl, rfl, nofun⟩
  | cons p answered ih =>
    obtain ⟨item, sound⟩ := p
    rw [List.map_cons] at hvoices
    obtain ⟨pcm, pcms', hpcm, hrest, rfl⟩ := List.forall₂_cons_left_iff.1 hvoices
    obtain ⟨answered', hpcms, hitems, hanswers⟩ := ih hrest fun p hp => hvalid p (List.mem_cons_of_mem _ hp)
    refine ⟨(item, pcm) :: answered', by rw [hpcms, List.map_cons], by rw [List.map_cons, hitems, List.map_cons], ?_⟩
    intro p hp
    rcases List.mem_cons.1 hp with rfl | hold
    · rcases hvalid (item, sound) List.mem_cons_self with hsound | hsound
      · rw [hsound] at hpcm
        exact .inl hpcm
      · rw [hsound] at hpcm
        exact .inr hpcm
    · exact hanswers p hold

theorem Truthful.messagesAnswered (h : Truthful getSound s) : s.MessagesAnswered getSound := by
  obtain ⟨answered, hsounds, hperm, hvalid⟩ := TextReader.textsHeard_of_reachable h.readerRuns
  have hvoices := h.reader.pcms
  rw [hsounds] at hvoices
  obtain ⟨answered', hpcms, hitems, hanswers⟩ := exists_answered hvoices hvalid
  refine ⟨answered', hpcms, ?_, hanswers⟩
  rw [hitems]
  exact hperm

theorem Truthful.channelsSaid (h : Truthful getSound s) : s.ChannelsSaid := by
  have haccounted := Announcer.accounted_of_reachable h.announcerRuns
  have hsounds := Announcer.plain_of_reachable h.announcerRuns
  have hvoices := h.announcer.pcms
  rw [haccounted.sounds] at hvoices
  obtain ⟨said, hsaid, hmap⟩ := Announcer.exists_said hsounds
  rw [hmap, List.forall₂_map_left_iff] at hvoices
  refine ⟨said, ?_, hvoices⟩
  rw [← haccounted.finals]
  exact hsaid.trans (List.sublist_append_left _ _)

end SpokenSession

/-- In every run of a session with the runtime that it shares with all other callers, the caller hears for each text
message a synthesis of what is to be said of it or the chime, once, and for the channels nothing but syntheses of
the announcements of where bursts of moves have ended, each at most once and in their order. -/
theorem session_says_what_happened {getSound : SoundEvent → Pcm} {s : SpokenSession}
    (hs : (spokenSession getSound).Reachable s) : s.MessagesAnswered getSound ∧ s.ChannelsSaid := by
  have h := SpokenSession.truthful_of_reachable hs
  exact ⟨h.messagesAnswered, h.channelsSaid⟩

/-- A message is read out. -/
def readOut : List SpokenAction :=
  [.message (some "Ann") "hi" true, .receiveText, .runtime (.call 0 .checkCache), .runtime (.call 0 .checkInFlight),
    .runtime (.call 0 (.assertAvailable 0)), .runtime (.call 0 .launch), .runtime (.task 0 (.synthesized (.ok [1, 2]))),
    .runtime (.task 0 .insertCache), .runtime (.task 0 .markHealthy), .runtime (.task 0 .send),
    .runtime (.call 0 .borrow), .textReturned]

/-- A message is answered by its synthesis, and the next one, which the reader does not take, by the chime. -/
theorem session_says_message : ∃ s : SpokenSession, (spokenSession fun _ => [7]).Reachable s ∧
    s.readerPcm = [[1, 2], [7]] ∧ s.MessagesAnswered (fun _ => [7]) ∧ s.ChannelsSaid := by
  obtain ⟨s, hs, hP⟩ := System.exists_reaches_of_run (spokenSession fun _ => [7]) System.anyStep
    (s := .start (.new "eponine" 48000) ⟨true, 500, true⟩) ⟨_, _, .init ⟨_, _, rfl⟩, rfl⟩
    (readOut ++ [.message none "bye" false]) (fun s : SpokenSession => s.readerPcm = [[1, 2], [7]]) (by decide)
  exact ⟨s, hs, of_decide_eq_true hP, session_says_what_happened hs⟩

end MumbleSip
