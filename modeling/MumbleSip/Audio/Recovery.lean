import MumbleSip.Audio.InFlight

/-!
# Recovery from a failure

A task that sets `Recovering` is on its way to a verdict, so the runtime does not stay in recovery. That only
one task recovers at a time rests on the flag it has set: a success that clears the flag in the middle of a
burst lets a second failure start another one.
-/

namespace MumbleSip

open Transition

namespace PocketTtsRuntime

variable {r : PocketTtsRuntime} {i t : Nat}

/-! ### What a step does to the availability -/

/-- What a step of a call leaves alone: it changes the availability only where it finds a cooldown that is over,
and it touches no task that has been spawned. -/
structure CallFrame (r r' : PocketTtsRuntime) : Prop where
  availability : r'.availability = r.availability ∨
    r'.availability = .healthy ∧ ∃ deadline, r.availability = .cooldown deadline
  recoveringTask : r'.recoveringTask = r.recoveringTask
  tasks : ∀ t, r'.tasks t = r.tasks t ∨ t = r.nextTask ∧ (r'.tasks t).pc = .synthesize

theorem CallFrame.rfl : r.CallFrame r := ⟨.inl (Eq.refl _), Eq.refl _, fun _ => .inl (Eq.refl _)⟩

theorem CallFrame.setCall {r' : PocketTtsRuntime} (h : r.CallFrame r') (pc : PhrasePc) :
    r.CallFrame (r'.setCall i pc) := ⟨h.availability, h.recoveringTask, h.tasks⟩

theorem CallFrame.unlock {r' : PocketTtsRuntime} (h : r.CallFrame r') : r.CallFrame (r'.unlock i) :=
  ⟨h.availability, h.recoveringTask, h.tasks⟩

theorem CallFrame.cloneResult {seen : Nat} : r.CallFrame (r.cloneResult i t seen) := by
  unfold PocketTtsRuntime.cloneResult
  split
  · exact CallFrame.rfl.setCall _
  · exact CallFrame.rfl.unlock.setCall _

theorem CallFrame.launch : r.CallFrame (r.launch i) := by
  unfold PocketTtsRuntime.launch
  split
  · exact CallFrame.rfl.setCall _
  · refine CallFrame.setCall (r := r) ?_ _
    refine ⟨.inl (Eq.refl _), Eq.refl _, fun t => ?_⟩
    by_cases ht : t = r.nextTask
    · right
      refine ⟨ht, ?_⟩
      simp only [ht, Function.update_self]
    · left
      simp only [Function.update_of_ne ht]

theorem callFrame_stepCall (a : PhraseAction) : r.CallFrame (r.stepCall i a) := by
  cases a with
  | checkCache => exact ⟨.inl rfl, rfl, fun _ => .inl rfl⟩
  | checkInFlight =>
    simp only [stepCall, checkInFlight]
    split
    · exact ⟨.inl rfl, rfl, fun _ => .inl rfl⟩
    · exact CallFrame.rfl.setCall _
  | assertAvailable now =>
    simp only [stepCall, assertAvailable]
    split
    · exact CallFrame.rfl.setCall _
    · exact CallFrame.rfl.setCall _
    · rename_i deadline hcooldown
      split
      · exact ⟨.inr ⟨rfl, deadline, hcooldown⟩, rfl, fun _ => .inl rfl⟩
      · exact CallFrame.rfl.setCall _
  | launch => exact .launch
  | borrow =>
    simp only [stepCall, borrow]
    split
    · exact .cloneResult
    · exact .rfl
  | changed =>
    simp only [stepCall, changed]
    split
    · split
      · exact .cloneResult
      · exact CallFrame.rfl.unlock.setCall _
      · exact .rfl
    · exact .rfl
  | cancel => exact CallFrame.rfl.unlock.setCall _

theorem Tracked.recovering_stepCall (h : r.Tracked) (a : PhraseAction) :
    ((r.stepCall i a).tasks t).pc.recovering = (r.tasks t).pc.recovering := by
  rcases (callFrame_stepCall (r := r) (i := i) a).tasks t with heq | ⟨ht, hpc⟩
  · rw [heq]
  · rw [hpc, ht, h.fresh _ (Nat.le_refl _)]
    rfl

/-- What a task that is about to fail, or recovers, does to the flag. -/
theorem stepTask_cases {a : SynthesisAction} (hen : r.enabledTask t a) :
    (a = .markHealthy ∧ (r.stepTask t a).availability = .healthy ∧
        (r.tasks t).pc.recovering = false ∧ ((r.stepTask t a).tasks t).pc.recovering = false) ∨
      (r.availability ≠ .recovering ∧ (r.tasks t).pc = .handleFailure ∧
        (r.stepTask t a).availability = .recovering ∧ (r.stepTask t a).recoveringTask = t ∧
          ((r.stepTask t a).tasks t).pc = .burst 0) ∨
      ((r.tasks t).pc.isVerdict = true ∧ (r.stepTask t a).availability ≠ .recovering ∧
        ((r.stepTask t a).tasks t).pc = .send) ∨
      ((r.stepTask t a).availability = r.availability ∧
        (r.stepTask t a).recoveringTask = r.recoveringTask ∧
          ((r.stepTask t a).tasks t).pc.recovering = (r.tasks t).pc.recovering) := by
  cases a with
  | synthesized result =>
    have hpc : (r.tasks t).pc = .synthesize := hen
    refine .inr (.inr (.inr ⟨rfl, rfl, ?_⟩))
    simp only [stepTask, synthesized, setTask, Function.update_self, hpc]
    split <;> rfl
  | insertCache =>
    have hpc : (r.tasks t).pc = .insertCache := hen
    refine .inr (.inr (.inr ?_))
    simp only [stepTask, insertCache]
    split
    · refine ⟨rfl, rfl, ?_⟩
      simp only [goto, setTask, Function.update_self, hpc]
      rfl
    · exact ⟨rfl, rfl, rfl⟩
  | markHealthy =>
    have hpc : (r.tasks t).pc = .markHealthy := hen
    refine .inl ⟨rfl, rfl, by rw [hpc]; rfl, ?_⟩
    simp only [stepTask, markHealthy, goto, setTask, Function.update_self]
    rfl
  | handleFailure now =>
    have hpc : (r.tasks t).pc = .handleFailure := hen
    have hstart : ((r.startRecovery t).tasks t).pc = .burst 0 := by
      simp only [startRecovery, goto, setTask, Function.update_self]
    have hskip : ((r.goto t .send).tasks t).pc.recovering = (r.tasks t).pc.recovering := by
      simp only [goto, setTask, Function.update_self, hpc]
      rfl
    simp only [stepTask, handleFailure]
    split
    · rename_i havailable
      have hne : r.availability ≠ .recovering := by
        intro h
        cases havailable.symm.trans h
      exact .inr (.inl ⟨hne, hpc, rfl, rfl, hstart⟩)
    · exact .inr (.inr (.inr ⟨rfl, rfl, hskip⟩))
    · rename_i deadline hcooldown
      split
      · have hne : r.availability ≠ .recovering := by
          intro h
          cases hcooldown.symm.trans h
        exact .inr (.inl ⟨hne, hpc, rfl, rfl, hstart⟩)
      · exact .inr (.inr (.inr ⟨rfl, rfl, hskip⟩))
  | healthCheck ok =>
    refine .inr (.inr (.inr ?_))
    simp only [stepTask, healthCheck]
    split
    · rename_i attempt hpc
      split
      · refine ⟨rfl, rfl, ?_⟩
        simp only [goto, setTask, Function.update_self, hpc]
        rfl
      · split <;>
        · refine ⟨rfl, rfl, ?_⟩
          simp only [goto, setTask, Function.update_self, hpc]
          rfl
    · exact ⟨rfl, rfl, rfl⟩
  | verdict now =>
    refine .inr (.inr (.inl ?_))
    simp only [stepTask, verdict]
    split
    · rename_i recovered hpc
      refine ⟨by rw [hpc]; rfl, ?_, ?_⟩
      · show (if recovered then _ else _) ≠ RuntimeAvailability.recovering
        split <;> exact fun h => by cases h
      · simp only [goto, setTask, Function.update_self]
    · rename_i hnot
      cases hpc : (r.tasks t).pc with
      | verdict recovered => exact absurd hpc (hnot recovered)
      | _ =>
        simp only [enabledTask, hpc] at hen
        cases hen
  | send =>
    have hpc : (r.tasks t).pc = .send := hen
    refine .inr (.inr (.inr ?_))
    simp only [stepTask, send]
    split
    · refine ⟨rfl, rfl, ?_⟩
      simp only [setTask, Function.update_self, hpc]
      rfl
    · exact ⟨rfl, rfl, rfl⟩
  | remove =>
    have hpc : (r.tasks t).pc = .remove := hen.1
    refine .inr (.inr (.inr ⟨rfl, rfl, ?_⟩))
    simp only [stepTask, remove, setTask, Function.update_self, hpc]
    rfl

/-- What a step of a task leaves alone: only its end touches `in_flight`, and only a success the cache. -/
structure TaskFrame (r r' : PocketTtsRuntime) (t : Nat) (a : SynthesisAction) : Prop where
  calls : r'.calls = r.calls
  nextCall : r'.nextCall = r.nextCall
  tasks : ∀ t' ≠ t, r'.tasks t' = r.tasks t'
  inFlight : a ≠ .remove → r'.inFlight = r.inFlight
  cache : a ≠ .insertCache → r'.cache = r.cache

theorem TaskFrame.rfl {a : SynthesisAction} : r.TaskFrame r t a :=
  ⟨Eq.refl _, Eq.refl _, fun _ _ => Eq.refl _, fun _ => Eq.refl _, fun _ => Eq.refl _⟩

theorem TaskFrame.setTask {r' : PocketTtsRuntime} {a : SynthesisAction} (h : r.TaskFrame r' t a)
    (task : SynthesisTask) : r.TaskFrame (r'.setTask t task) t a :=
  ⟨h.calls, h.nextCall, fun t' hne => (Function.update_of_ne hne _ _).trans (h.tasks t' hne), h.inFlight,
    h.cache⟩

theorem TaskFrame.setAvailability (availability : RuntimeAvailability) (recoveringTask : Nat)
    {a : SynthesisAction} : r.TaskFrame
      { r with availability := availability, recoveringTask := recoveringTask } t a :=
  ⟨Eq.refl _, Eq.refl _, fun _ _ => Eq.refl _, fun _ => Eq.refl _, fun _ => Eq.refl _⟩

theorem taskFrame_stepTask (a : SynthesisAction) : r.TaskFrame (r.stepTask t a) t a := by
  cases a with
  | synthesized => exact TaskFrame.rfl.setTask _
  | insertCache =>
    simp only [stepTask, insertCache]
    split
    · refine TaskFrame.setTask (r := r) ?_ _
      exact ⟨rfl, rfl, fun _ _ => rfl, fun _ => rfl, fun hne => absurd rfl hne⟩
    · exact .rfl
  | markHealthy => exact (TaskFrame.setAvailability .healthy r.recoveringTask).setTask _
  | handleFailure now =>
    simp only [stepTask, handleFailure]
    split
    · exact (TaskFrame.setAvailability .recovering t).setTask _
    · exact TaskFrame.rfl.setTask _
    · split
      · exact (TaskFrame.setAvailability .recovering t).setTask _
      · exact TaskFrame.rfl.setTask _
  | healthCheck ok =>
    simp only [stepTask, healthCheck]
    split
    · split
      · exact TaskFrame.rfl.setTask _
      · split <;> exact TaskFrame.rfl.setTask _
    · exact .rfl
  | verdict now =>
    simp only [stepTask, verdict]
    split
    · exact (TaskFrame.setAvailability _ r.recoveringTask).setTask _
    · exact .rfl
  | send =>
    simp only [stepTask, send]
    split
    · exact TaskFrame.rfl.setTask _
    · exact .rfl
  | remove =>
    refine TaskFrame.setTask (r := r) ?_ _
    exact ⟨rfl, rfl, fun _ _ => rfl, fun hne => absurd rfl hne, fun _ => rfl⟩

theorem tasks_stepTask_of_ne {t' : Nat} (hne : t' ≠ t) (a : SynthesisAction) :
    (r.stepTask t a).tasks t' = r.tasks t' :=
  (taskFrame_stepTask a).tasks t' hne

/-! ### Who recovers -/

/-- The task that has set `Recovering` has not written its verdict. -/
def Recovers (r : PocketTtsRuntime) : Prop :=
  r.availability = .recovering → (r.tasks r.recoveringTask).pc.recovering = true

theorem Recovers.next (h : r.Recovers) (htracked : r.Tracked) {a : TtsAction} (hen : r.enabled a) :
    (r.next a).Recovers := by
  cases a with
  | synthesizePhrase phrase => exact h
  | call i a =>
    intro havailable
    simp only [PocketTtsRuntime.next] at havailable ⊢
    rw [(callFrame_stepCall a).recoveringTask, htracked.recovering_stepCall]
    rcases (callFrame_stepCall (r := r) (i := i) a).availability with heq | ⟨hhealthy, _⟩
    · exact h (heq.symm.trans havailable)
    · rw [hhealthy] at havailable
      cases havailable
  | task t a =>
    intro havailable
    simp only [PocketTtsRuntime.next] at havailable ⊢
    rcases stepTask_cases hen with ⟨_, hhealthy, _⟩ | ⟨_, _, _, htask, hpc⟩ | ⟨_, hne, _⟩ |
      ⟨hsame, htask, hpc⟩
    · rw [hhealthy] at havailable
      cases havailable
    · rw [htask, hpc]
      rfl
    · exact absurd havailable hne
    · rw [htask]
      have hold := h (hsame.symm.trans havailable)
      by_cases ht : r.recoveringTask = t
      · rw [ht] at hold ⊢
        exact hpc.trans hold
      · rw [tasks_stepTask_of_ne ht]
        exact hold

theorem reaches_recovers {ok : PocketTtsRuntime → TtsAction → Prop} (hs : ttsRuntime.Reaches ok r) :
    r.Recovers := by
  apply hs.invariant (I := Recovers)
  · rintro r ⟨voice, sampleRate, rfl⟩ havailable
    cases havailable
  · intro r a hs h hen _
    exact h.next (reaches_tracked hs) hen

end PocketTtsRuntime

/-- While the runtime is recovering some task is on its way to a verdict. Once all tasks have ended it is not,
and a call whose clock is late enough launches its synthesis. -/
theorem recovery_never_wedged {r : PocketTtsRuntime} (hs : ttsRuntime.Reachable r) :
    (r.availability = .recovering → ∃ t, (r.tasks t).pc.recovering = true) ∧
    ((∀ t, (r.tasks t).pc = .unspawned ∨ (r.tasks t).pc = .done) →
      (r.availability = .healthy ∨ ∃ deadline, r.availability = .cooldown deadline) ∧
        ∃ deadline, ∀ i now, deadline ≤ now →
          ((r.stepCall i (.assertAvailable now)).calls i).pc = .launch) := by
  have h := PocketTtsRuntime.reaches_recovers hs
  refine ⟨fun havailable => ⟨_, h havailable⟩, fun hended => ?_⟩
  cases havailable : r.availability with
  | healthy =>
    refine ⟨.inl rfl, 0, fun i now _ => ?_⟩
    simp only [PocketTtsRuntime.stepCall, PocketTtsRuntime.assertAvailable, havailable,
      PocketTtsRuntime.setCall, Function.update_self]
  | recovering =>
    have hpc := h havailable
    rcases hended r.recoveringTask with hunspawned | hdone
    · rw [hunspawned] at hpc
      cases hpc
    · rw [hdone] at hpc
      cases hpc
  | cooldown deadline =>
    refine ⟨.inr ⟨deadline, rfl⟩, deadline, fun i now hnow => ?_⟩
    simp only [PocketTtsRuntime.stepCall, PocketTtsRuntime.assertAvailable, havailable, if_pos hnow,
      PocketTtsRuntime.setCall, Function.update_self]

/-- One failure, up to the second health check, and then up to the end of the task. -/
def failedSynthesis : List TtsAction :=
  [.synthesizePhrase "failure phrase", .call 0 .checkCache, .call 0 .checkInFlight,
    .call 0 (.assertAvailable 0), .call 0 .launch, .task 0 (.synthesized (.error "synthetic failure")),
    .task 0 (.handleFailure 0), .task 0 (.healthCheck false)]

theorem recovery_never_wedged_burst : ∃ r, ttsRuntime.Reachable r ∧ r.availability = .recovering ∧
    ∃ t, (r.tasks t).pc.recovering = true := by
  obtain ⟨r, hr, hP⟩ := System.exists_reaches_of_run ttsRuntime System.anyStep
    (s := .new "eponine" 48000) ⟨_, _, rfl⟩ failedSynthesis (fun r => r.availability = .recovering)
    (by decide)
  have havailable := of_decide_eq_true hP
  exact ⟨r, hr, havailable, (recovery_never_wedged hr).1 havailable⟩

/-! ### One recovery at a time -/

/-- The task has looked at the flag in `handle_runtime_failure`. -/
def SynthesisPc.pastFailure : SynthesisPc → Bool
  | .burst _ | .verdict _ | .send | .remove | .done => true
  | _ => false

theorem SynthesisPc.pastFailure_of_recovering {pc : SynthesisPc} (h : pc.recovering = true) :
    pc.pastFailure = true := by
  cases pc <;> first | rfl | cases h

namespace PocketTtsRuntime

variable {r : PocketTtsRuntime} {i t : Nat}

/-- No success is recorded while the runtime is recovering. -/
def recoverySafe (r : PocketTtsRuntime) : TtsAction → Bool
  | .task _ .markHealthy => r.availability ≠ .recovering
  | _ => true

/-- A task that recovers has set the flag, and nobody has changed it since. -/
def Alone (r : PocketTtsRuntime) : Prop :=
  ∀ t, (r.tasks t).pc.recovering = true → r.availability = .recovering ∧ r.recoveringTask = t

theorem Alone.none (h : r.Alone) (hne : r.availability ≠ .recovering) (t : Nat) :
    (r.tasks t).pc.recovering ≠ true := by
  intro ht
  exact hne (h t ht).1

theorem Alone.next (h : r.Alone) (htracked : r.Tracked) {a : TtsAction} (hen : r.enabled a)
    (hsafe : r.recoverySafe a = true) : (r.next a).Alone := by
  cases a with
  | synthesizePhrase phrase => exact h
  | call i a =>
    intro t ht
    simp only [PocketTtsRuntime.next] at ht ⊢
    rw [htracked.recovering_stepCall] at ht
    rw [(callFrame_stepCall a).recoveringTask]
    rcases (callFrame_stepCall (r := r) (i := i) a).availability with heq | ⟨_, deadline, hcooldown⟩
    · rw [heq]
      exact h t ht
    · exact absurd ht (h.none (by rw [hcooldown]; exact fun h => by cases h) t)
  | task t a =>
    intro t' ht'
    simp only [PocketTtsRuntime.next] at ht' ⊢
    have hother : t' ≠ t → (r.tasks t').pc.recovering = true := by
      intro hne
      rw [tasks_stepTask_of_ne hne] at ht'
      exact ht'
    rcases stepTask_cases hen with ⟨ha, _, _, hself⟩ | ⟨hne, _, havailable, htask, _⟩ | ⟨hverdict, _, hself⟩ |
      ⟨hsame, htask, hself⟩
    · subst ha
      have hne : r.availability ≠ .recovering := of_decide_eq_true hsafe
      by_cases heq : t' = t
      · rw [heq, hself] at ht'
        cases ht'
      · exact absurd (hother heq) (h.none hne t')
    · refine ⟨havailable, htask.trans ?_⟩
      by_contra heq
      exact h.none hne t' (hother (Ne.symm heq))
    · by_cases heq : t' = t
      · rw [heq, hself] at ht'
        cases ht'
      · -- the flag names one task
        have hverdict' : (r.tasks t).pc.recovering = true := by
          rw [SynthesisPc.recovering, hverdict, Bool.or_true]
        have hfirst := (h t hverdict').2
        exact absurd ((h t' (hother heq)).2.symm.trans hfirst) heq
    · rw [hsame, htask]
      by_cases heq : t' = t
      · rw [heq] at ht' ⊢
        exact h t (hself.symm.trans ht')
      · exact h t' (hother heq)

/-- The task sets the flag no more, and the flag is not the one it may have set. -/
def Displaced (r : PocketTtsRuntime) (t : Nat) : Prop :=
  (r.tasks t).pc.pastFailure = true ∧ ¬(r.availability = .recovering ∧ r.recoveringTask = t)

theorem pastFailure_stepTask {a : SynthesisAction} (hen : r.enabledTask t a)
    (hpast : (r.tasks t).pc.pastFailure = true) : ((r.stepTask t a).tasks t).pc.pastFailure = true := by
  cases a with
  | synthesized | insertCache | markHealthy | handleFailure =>
    simp only [enabledTask] at hen
    rw [hen] at hpast
    cases hpast
  | healthCheck ok =>
    simp only [stepTask, healthCheck]
    split
    · split
      · simp only [goto, setTask, Function.update_self]
        rfl
      · split <;>
        · simp only [goto, setTask, Function.update_self]
          rfl
    · exact hpast
  | verdict now =>
    simp only [stepTask, verdict]
    split
    · simp only [goto, setTask, Function.update_self]
      rfl
    · exact hpast
  | send =>
    simp only [stepTask, send]
    split
    · simp only [setTask, Function.update_self]
      rfl
    · exact hpast
  | remove =>
    simp only [stepTask, remove, setTask, Function.update_self]
    rfl

/-- A task sets the flag once. -/
theorem Displaced.next (h : r.Displaced t) (htracked : r.Tracked) {a : TtsAction} (hen : r.enabled a) :
    (r.next a).Displaced t := by
  obtain ⟨hpast, hflag⟩ := h
  cases a with
  | synthesizePhrase phrase => exact ⟨hpast, hflag⟩
  | call i a =>
    refine ⟨?_, ?_⟩
    · rcases (callFrame_stepCall (r := r) (i := i) a).tasks t with heq | ⟨ht, _⟩
      · show ((r.stepCall i a).tasks t).pc.pastFailure = true
        rw [heq]
        exact hpast
      · rw [ht, htracked.fresh _ (Nat.le_refl _)] at hpast
        cases hpast
    · show ¬((r.stepCall i a).availability = .recovering ∧ (r.stepCall i a).recoveringTask = t)
      rw [(callFrame_stepCall a).recoveringTask]
      rcases (callFrame_stepCall (r := r) (i := i) a).availability with heq | ⟨hhealthy, _⟩
      · rw [heq]
        exact hflag
      · rw [hhealthy]
        rintro ⟨havailable, _⟩
        cases havailable
  | task t' a =>
    refine ⟨?_, ?_⟩
    · by_cases ht : t = t'
      · subst t'
        exact pastFailure_stepTask hen hpast
      · show ((r.stepTask t' a).tasks t).pc.pastFailure = true
        rw [tasks_stepTask_of_ne ht]
        exact hpast
    · show ¬((r.stepTask t' a).availability = .recovering ∧ (r.stepTask t' a).recoveringTask = t)
      rcases stepTask_cases hen with ⟨_, hhealthy, _⟩ | ⟨_, hpc, _, htask, _⟩ | ⟨_, hne, _⟩ | ⟨hsame, htask, _⟩
      · rw [hhealthy]
        rintro ⟨havailable, _⟩
        cases havailable
      · rw [htask]
        rintro ⟨_, rfl⟩
        rw [hpc] at hpast
        cases hpast
      · exact fun hboth => hne hboth.1
      · rw [hsame, htask]
        exact hflag

end PocketTtsRuntime

/-- The steps of a run in which no success is recorded while the runtime is recovering. -/
def recoversUndisturbed (r : PocketTtsRuntime) (a : TtsAction) : Prop := r.recoverySafe a = true

instance (r : PocketTtsRuntime) (a : TtsAction) : Decidable (recoversUndisturbed r a) :=
  inferInstanceAs (Decidable (_ = _))

/-- One task at a time is between setting `Recovering` and its verdict, and the verdict replaces the value it
has set. Once a success has cleared the flag of a task that recovers, its verdict never does. -/
theorem recovers_alone {r : PocketTtsRuntime} (hs : ttsRuntime.Reaches recoversUndisturbed r) :
    (∀ t t', (r.tasks t).pc.recovering = true → (r.tasks t').pc.recovering = true → t = t') ∧
    (∀ t, (r.tasks t).pc.isVerdict = true → r.availability = .recovering ∧ r.recoveringTask = t) ∧
    ∀ t, r.enabled (.task t .markHealthy) → ¬recoversUndisturbed r (.task t .markHealthy) →
      ∃ t', (r.tasks t').pc.recovering = true ∧
        ∀ r', (ttsRuntime.startingAt (r.next (.task t .markHealthy))).Reachable r' →
          ¬(r'.availability = .recovering ∧ r'.recoveringTask = t') := by
  have htracked := PocketTtsRuntime.reaches_tracked hs
  have halone : r.Alone := by
    apply hs.invariant (I := PocketTtsRuntime.Alone)
    · rintro r ⟨voice, sampleRate, rfl⟩ t ht
      cases ht
    · intro r a hs h hen hsafe
      exact h.next (PocketTtsRuntime.reaches_tracked hs) hen hsafe
  refine ⟨fun t t' ht ht' => (halone t ht).2.symm.trans (halone t' ht').2, fun t ht => halone t ?_,
    fun t hen hbroken => ?_⟩
  · rw [SynthesisPc.recovering, ht, Bool.or_true]
  · have havailable : r.availability = .recovering := by
      by_contra hne
      exact hbroken (decide_eq_true hne)
    have hrecovering := PocketTtsRuntime.reaches_recovers hs havailable
    have hpc : (r.tasks t).pc = .markHealthy := hen
    have hne : r.recoveringTask ≠ t := by
      intro heq
      rw [heq, hpc] at hrecovering
      cases hrecovering
    refine ⟨r.recoveringTask, hrecovering, fun r' hr' => ?_⟩
    have hdisplaced : (r.next (.task t .markHealthy)).Displaced r.recoveringTask := by
      refine ⟨?_, ?_⟩
      · show ((r.stepTask t .markHealthy).tasks r.recoveringTask).pc.pastFailure = true
        rw [PocketTtsRuntime.tasks_stepTask_of_ne hne]
        exact SynthesisPc.pastFailure_of_recovering hrecovering
      · rintro ⟨hboth, _⟩
        cases hboth
    have hlater := hr'.stable (P := fun r'' => r''.Tracked ∧ r''.Displaced r.recoveringTask)
      ⟨htracked.next hen, hdisplaced⟩ fun _ _ h hen _ => ⟨h.1.next hen, h.2.next h.1 hen⟩
    exact hlater.2.2

/-- A failure that recovers by itself. -/
theorem recovers_alone_once : ∃ r, ttsRuntime.Reaches recoversUndisturbed r ∧
    (r.tasks 0).pc.isVerdict = true ∧ r.availability = .recovering ∧ r.recoveringTask = 0 := by
  obtain ⟨r, hr, hP⟩ := System.exists_reaches_of_run ttsRuntime recoversUndisturbed
    (s := .new "eponine" 48000) ⟨_, _, rfl⟩ (failedSynthesis ++ [.task 0 (.healthCheck true)])
    (fun r => (r.tasks 0).pc.isVerdict = true)
    (by decide)
  have hverdict := of_decide_eq_true hP
  exact ⟨r, hr, hverdict, (recovers_alone hr).2.1 0 hverdict⟩

/-- Three phrases in flight: the first fails and its burst starts, the second succeeds and clears the flag, the
third fails and starts a second burst. -/
theorem recoveries_overlap : ¬∀ r, ttsRuntime.Reachable r →
    (∀ t t', (r.tasks t).pc.isBurst = true → (r.tasks t').pc.isBurst = true → t = t') ∧
    ∀ t, (r.tasks t).pc.isVerdict = true → r.availability = .recovering ∧ r.recoveringTask = t := by
  intro hclaim
  obtain ⟨r, hr, hP⟩ := System.exists_reaches_of_run ttsRuntime System.anyStep
    (s := .new "eponine" 48000) ⟨_, _, rfl⟩
    [.synthesizePhrase "a", .call 0 .checkCache, .call 0 .checkInFlight, .call 0 (.assertAvailable 0),
      .call 0 .launch, .synthesizePhrase "b", .call 1 .checkCache, .call 1 .checkInFlight,
      .call 1 (.assertAvailable 0), .call 1 .launch, .synthesizePhrase "c", .call 2 .checkCache,
      .call 2 .checkInFlight, .call 2 (.assertAvailable 0), .call 2 .launch,
      .task 0 (.synthesized (.error "connection refused")), .task 0 (.handleFailure 0),
      .task 1 (.synthesized (.ok [1, 2, 3, 4])), .task 1 .insertCache, .task 1 .markHealthy,
      .task 2 (.synthesized (.error "connection refused")), .task 2 (.handleFailure 0)]
    (fun r => (r.tasks 0).pc.isBurst = true ∧ (r.tasks 2).pc.isBurst = true)
    (by decide)
  obtain ⟨hfirst, hthird⟩ := of_decide_eq_true hP
  exact absurd ((hclaim r hr).1 0 2 hfirst hthird) (by decide)

end MumbleSip
