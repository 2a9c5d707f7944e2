import MumbleSip.Audio.Recovery
import MumbleSip.Lib.Progress

/-!
# Every caller is answered

A caller that finds its key at its first look waits with the lock on `in_flight` in its hands, and the task it
waits for needs that lock to end. The task publishes its result before it asks for the lock, so whoever holds
the lock waits for a task that needs none. Each step of a call or a task brings its end nearer, so without new
calls the runtime comes to rest, whatever the order of the steps.
-/

namespace MumbleSip

open Transition

/-- The steps a call has before it, those of the task it may spawn included. -/
def PhrasePc.work : PhrasePc → Nat
  | .checkCache => 15
  | .checkInFlight => 14
  | .assertAvailable => 13
  | .launch => 12
  | .borrow _ => 2
  | .changed _ _ => 1
  | _ => 0

/-- The steps a task has before it. -/
def SynthesisPc.work : SynthesisPc → Nat
  | .synthesize => 9
  | .handleFailure => 8
  | .burst attempt => 4 + (postFailureRetryAttempts - 1 - attempt)
  | .insertCache => 4
  | .markHealthy | .verdict _ => 3
  | .send => 2
  | .remove => 1
  | .unspawned | .done => 0

namespace TtsAction

/-- No caller comes in. -/
def noNewCall (_ : PocketTtsRuntime) : TtsAction → Prop
  | .synthesizePhrase _ => False
  | _ => True

instance (r : PocketTtsRuntime) : ∀ a : TtsAction, Decidable (noNewCall r a)
  | .synthesizePhrase _ => inferInstanceAs (Decidable False)
  | .call _ _ | .task _ _ => inferInstanceAs (Decidable True)

/-- A step of a call or a task towards its end. -/
def proceeds (_ : PocketTtsRuntime) : TtsAction → Prop
  | .synthesizePhrase _ | .call _ .cancel => False
  | _ => True

end TtsAction

namespace PocketTtsRuntime

variable {r r' : PocketTtsRuntime} {i t : Nat}

def callWork (r : PocketTtsRuntime) : Nat := ∑ i ∈ Finset.range r.nextCall, (r.calls i).pc.work

def taskWork (r : PocketTtsRuntime) : Nat := ∑ t ∈ Finset.range r.nextTask, (r.tasks t).pc.work

def work (r : PocketTtsRuntime) : Nat := r.callWork + r.taskWork

/-- Nobody is waiting, nothing is in flight, and nobody holds the lock. -/
structure Settled (r : PocketTtsRuntime) : Prop where
  calls : ∀ i, (r.calls i).pc.work = 0
  tasks : ∀ t, (r.tasks t).pc = .unspawned ∨ (r.tasks t).pc = .done
  inFlight : ∀ key, r.inFlight.lookup key = none
  unlocked : r.inFlightLock = none
  available : r.availability ≠ .recovering

/-- The calls are numbered in the order they come, and who holds the lock waits for a task. -/
structure Orderly (r : PocketTtsRuntime) : Prop where
  fresh : ∀ i, r.nextCall ≤ i → (r.calls i).pc = .uncalled
  holder : ∀ i, r.inFlightLock = some i → ∃ t, (r.calls i).pc.waitsOn = some t

theorem orderly_new (voice : String) (sampleRate : UInt32) : (new voice sampleRate).Orderly where
  fresh _ _ := rfl
  holder i h := by cases h

theorem called_of_enabled {a : PhraseAction} (hen : r.enabledCall i a) : (r.calls i).pc ≠ .uncalled := by
  intro hpc
  cases a <;> simp [enabledCall, hpc, PhrasePc.isBorrow, PhrasePc.awaits, hasChanged] at hen

theorem Orderly.lt_nextCall (h : r.Orderly) {a : PhraseAction} (hen : r.enabledCall i a) : i < r.nextCall := by
  by_contra hge
  exact called_of_enabled hen (h.fresh i (Nat.le_of_not_lt hge))

/-- A call goes to another place. It has the lock only if it waits for a task there, and takes it from nobody. -/
structure Moves (r r' : PocketTtsRuntime) (i : Nat) (pc : PhrasePc) : Prop where
  calls : r'.calls = Function.update r.calls i { r.calls i with pc := pc }
  nextCall : r'.nextCall = r.nextCall
  holder : r'.inFlightLock = some i → ∃ t, pc.waitsOn = some t
  others : ∀ j, j ≠ i → r'.inFlightLock = some j → r.inFlightLock = some j

/-- The tasks are what they were. -/
def SameTasks (r r' : PocketTtsRuntime) : Prop := r'.tasks = r.tasks ∧ r'.nextTask = r.nextTask

/-- A task has been spawned for a key that had no entry. -/
structure Spawns (r r' : PocketTtsRuntime) (key : String) : Prop where
  others : ∀ t, t ≠ r.nextTask → r'.tasks t = r.tasks t
  spawned : r'.tasks r.nextTask = ⟨key, .synthesize, none, .channel .pending⟩
  nextTask : r'.nextTask = r.nextTask + 1
  none : r.inFlight.lookup key = none

theorem moves_unlock {pc : PhrasePc} : r.Moves ((r.unlock i).setCall i pc) i pc := by
  refine ⟨rfl, rfl, fun h => ?_, fun j hj h => ?_⟩
  · have hlock : (if r.inFlightLock = some i then none else r.inFlightLock) = some i := h
    split at hlock
    · cases hlock
    · rename_i hne
      exact absurd hlock hne
  · have hlock : (if r.inFlightLock = some i then none else r.inFlightLock) = some j := h
    split at hlock
    · cases hlock
    · exact hlock

theorem Orderly.moves (h : r.Orderly) {pc : PhrasePc} (hcalls : r'.calls = r.calls)
    (hnext : r'.nextCall = r.nextCall) (hlock : r'.inFlightLock = r.inFlightLock)
    (hkeeps : (r.calls i).pc.waitsOn = none ∨ ∃ t, pc.waitsOn = some t) : r.Moves (r'.setCall i pc) i pc := by
  refine ⟨?_, hnext, fun hheld => ?_, fun _ _ hheld => hlock.symm.trans hheld⟩
  · simp only [setCall, hcalls]
  · obtain ⟨t, ht⟩ := h.holder i (hlock.symm.trans hheld)
    rcases hkeeps with hnone | hwaits
    · rw [hnone] at ht
      cases ht
    · exact hwaits

/-- A call that has been told of the result, or finds it there, returns. -/
theorem Tracked.cloneResult_of_sent (h : r.Tracked) (hsent : (r.tasks t).pc.sent = true) (seen : Nat) :
    ∃ result, r.cloneResult i t seen = (r.unlock i).setCall i (.answered t result) := by
  obtain ⟨result, _, hvalue, _⟩ := (h.sound t).sent hsent
  refine ⟨result, ?_⟩
  simp only [PocketTtsRuntime.cloneResult, hvalue]

theorem Tracked.stepCall_moves (h : r.Tracked) (horderly : r.Orderly) {a : PhraseAction}
    (hen : r.enabledCall i a) : ∃ pc, r.Moves (r.stepCall i a) i pc ∧
      ((r.SameTasks (r.stepCall i a) ∧ pc.work < (r.calls i).pc.work) ∨
        (r.Spawns (r.stepCall i a) (r.calls i).cacheKey ∧ (r.calls i).pc = .launch ∧ pc.work = 2)) := by
  cases a with
  | checkCache =>
    have hpc : (r.calls i).pc = .checkCache := hen
    refine ⟨_, horderly.moves rfl rfl rfl (.inl (by rw [hpc]; rfl)), .inl ⟨⟨rfl, rfl⟩, ?_⟩⟩
    rw [hpc]
    split <;> simp [PhrasePc.work]
  | checkInFlight =>
    have hpc : (r.calls i).pc = .checkInFlight := hen.1
    simp only [PocketTtsRuntime.stepCall, checkInFlight]
    split
    · rename_i t hentry
      refine ⟨.borrow t, ⟨rfl, rfl, fun _ => ⟨t, rfl⟩, fun j hj hheld => ?_⟩, .inl ⟨⟨rfl, rfl⟩, ?_⟩⟩
      · exact absurd (Option.some.inj hheld).symm hj
      · simp [hpc, PhrasePc.work]
    · refine ⟨_, horderly.moves rfl rfl rfl (.inl (by rw [hpc]; rfl)), .inl ⟨⟨rfl, rfl⟩, ?_⟩⟩
      simp [hpc, PhrasePc.work]
  | assertAvailable now =>
    have hpc : (r.calls i).pc = .assertAvailable := hen
    have hwaits : (r.calls i).pc.waitsOn = none := by rw [hpc]; rfl
    have hlaunch : PhrasePc.launch.work < (r.calls i).pc.work := by simp [hpc, PhrasePc.work]
    have hrefused : ∀ error, (PhrasePc.refused error).work < (r.calls i).pc.work := by
      intro error
      simp [hpc, PhrasePc.work]
    simp only [PocketTtsRuntime.stepCall, assertAvailable]
    split
    · exact ⟨_, horderly.moves rfl rfl rfl (.inl hwaits), .inl ⟨⟨rfl, rfl⟩, hlaunch⟩⟩
    · exact ⟨_, horderly.moves rfl rfl rfl (.inl hwaits), .inl ⟨⟨rfl, rfl⟩, hrefused _⟩⟩
    · split
      · exact ⟨_, horderly.moves rfl rfl rfl (.inl hwaits), .inl ⟨⟨rfl, rfl⟩, hlaunch⟩⟩
      · exact ⟨_, horderly.moves rfl rfl rfl (.inl hwaits), .inl ⟨⟨rfl, rfl⟩, hrefused _⟩⟩
  | launch =>
    have hpc : (r.calls i).pc = .launch := hen.1
    simp only [PocketTtsRuntime.stepCall, PocketTtsRuntime.launch]
    split
    · rename_i t hentry
      refine ⟨_, horderly.moves rfl rfl rfl (.inr ⟨t, rfl⟩), .inl ⟨⟨rfl, rfl⟩, ?_⟩⟩
      simp [hpc, PhrasePc.work]
    · rename_i hnone
      refine ⟨_, horderly.moves rfl rfl rfl (.inr ⟨r.nextTask, rfl⟩),
        .inr ⟨⟨fun t ht => ?_, ?_, rfl, hnone⟩, hpc, rfl⟩⟩
      · exact Function.update_of_ne ht _ _
      · exact Function.update_self _ _ _
  | borrow =>
    simp only [PocketTtsRuntime.stepCall, PocketTtsRuntime.borrow]
    split
    · rename_i t hpc
      unfold PocketTtsRuntime.cloneResult
      split
      · refine ⟨_, horderly.moves rfl rfl rfl (.inr ⟨t, rfl⟩), .inl ⟨⟨rfl, rfl⟩, ?_⟩⟩
        simp [hpc, PhrasePc.work]
      · refine ⟨_, moves_unlock, .inl ⟨⟨rfl, rfl⟩, ?_⟩⟩
        simp [hpc, PhrasePc.work]
    · rename_i hnot
      cases hpc : (r.calls i).pc with
      | borrow t => exact absurd hpc (hnot t)
      | _ =>
        simp only [enabledCall, hpc] at hen
        cases hen
  | changed =>
    have hwaits := h.waits i
    unfold Waits at hwaits
    simp only [PocketTtsRuntime.stepCall, PocketTtsRuntime.changed]
    cases hpc : (r.calls i).pc with
    | changed t seen =>
      simp only [enabledCall, hpc, hasChanged] at hen
      rw [hpc] at hwaits
      obtain ⟨hspawned, hseen⟩ := hwaits
      subst seen
      obtain ⟨change, hchange⟩ := Option.isSome_iff_exists.1 hen
      obtain ⟨hsent, rfl⟩ := h.changed_eq hspawned.1 hchange
      obtain ⟨result, hclone⟩ := h.cloneResult_of_sent (i := i) hsent 1
      simp only [hchange, hclone]
      exact ⟨_, moves_unlock, .inl ⟨⟨rfl, rfl⟩, Nat.succ_pos 0⟩⟩
    | _ =>
      simp only [enabledCall, hpc, hasChanged] at hen
      cases hen
  | cancel =>
    have hawaits : (r.calls i).pc.awaits = true := hen
    refine ⟨_, moves_unlock, .inl ⟨⟨rfl, rfl⟩, ?_⟩⟩
    cases hpc : (r.calls i).pc with
    | checkCache | checkInFlight | assertAvailable | launch | changed => simp [PhrasePc.work]
    | _ =>
      rw [hpc] at hawaits
      cases hawaits

theorem stepTask_keeps (a : SynthesisAction) :
    (r.stepTask t a).inFlightLock = r.inFlightLock ∧ (r.stepTask t a).nextTask = r.nextTask := by
  cases a with
  | synthesized | markHealthy | remove => exact ⟨rfl, rfl⟩
  | insertCache | send | verdict =>
    simp only [stepTask, insertCache, send, verdict]
    split <;> exact ⟨rfl, rfl⟩
  | handleFailure now =>
    simp only [stepTask, handleFailure]
    split
    · exact ⟨rfl, rfl⟩
    · exact ⟨rfl, rfl⟩
    · split <;> exact ⟨rfl, rfl⟩
  | healthCheck ok =>
    simp only [stepTask, healthCheck]
    split
    · split
      · exact ⟨rfl, rfl⟩
      · split <;> exact ⟨rfl, rfl⟩
    · exact ⟨rfl, rfl⟩

@[simp] theorem pc_setTask (task : SynthesisTask) : ((r.setTask t task).tasks t).pc = task.pc := by
  simp only [setTask, Function.update_self]

@[simp] theorem pc_goto (pc : SynthesisPc) : ((r.goto t pc).tasks t).pc = pc := pc_setTask _

theorem enabledTask_burst (hpc : (r.tasks t).pc.isBurst = true) : ∃ attempt, (r.tasks t).pc = .burst attempt := by
  cases h : (r.tasks t).pc with
  | burst attempt => exact ⟨attempt, rfl⟩
  | _ =>
    rw [h] at hpc
    cases hpc

theorem enabledTask_verdict (hpc : (r.tasks t).pc.isVerdict = true) :
    ∃ recovered, (r.tasks t).pc = .verdict recovered := by
  cases h : (r.tasks t).pc with
  | verdict recovered => exact ⟨recovered, rfl⟩
  | _ =>
    rw [h] at hpc
    cases hpc

theorem Tracked.work_stepTask (h : r.Tracked) {a : SynthesisAction} (hen : r.enabledTask t a) :
    ((r.stepTask t a).tasks t).pc.work < (r.tasks t).pc.work := by
  cases a with
  | synthesized result =>
    have hpc : (r.tasks t).pc = .synthesize := hen
    simp only [PocketTtsRuntime.stepTask, synthesized, pc_setTask, hpc]
    split <;> simp [SynthesisPc.work]
  | insertCache =>
    have hpc : (r.tasks t).pc = .insertCache := hen
    have hsound := h.sound t
    unfold SynthesisTask.Sound at hsound
    rw [hpc] at hsound
    obtain ⟨⟨pcm, hresult⟩, _⟩ := hsound
    simp only [PocketTtsRuntime.stepTask, PocketTtsRuntime.insertCache, hresult, pc_goto, hpc]
    simp [SynthesisPc.work]
  | markHealthy =>
    have hpc : (r.tasks t).pc = .markHealthy := hen
    simp only [PocketTtsRuntime.stepTask, markHealthy, pc_goto, hpc]
    simp [SynthesisPc.work]
  | handleFailure now =>
    have hpc : (r.tasks t).pc = .handleFailure := hen
    have hstart : ((r.startRecovery t).tasks t).pc.work < (r.tasks t).pc.work := by
      simp [startRecovery, hpc, SynthesisPc.work, postFailureRetryAttempts]
    have hskip : ((r.goto t .send).tasks t).pc.work < (r.tasks t).pc.work := by
      simp [hpc, SynthesisPc.work]
    simp only [PocketTtsRuntime.stepTask, PocketTtsRuntime.handleFailure]
    split
    · exact hstart
    · exact hskip
    · split
      · exact hstart
      · exact hskip
  | healthCheck ok =>
    obtain ⟨attempt, hpc⟩ := enabledTask_burst hen
    have hverdict : ∀ recovered,
        ((r.goto t (.verdict recovered)).tasks t).pc.work < (r.tasks t).pc.work := by
      intro recovered
      simp only [pc_goto, hpc, SynthesisPc.work]
      omega
    simp only [PocketTtsRuntime.stepTask, PocketTtsRuntime.healthCheck, hpc]
    split
    · simpa only [hpc] using hverdict true
    · split
      · rename_i hlt
        simp only [pc_goto, SynthesisPc.work]
        omega
      · simpa only [hpc] using hverdict false
  | verdict now =>
    obtain ⟨recovered, hpc⟩ := enabledTask_verdict hen
    simp only [PocketTtsRuntime.stepTask, PocketTtsRuntime.verdict, hpc, pc_goto]
    simp [SynthesisPc.work]
  | send =>
    have hpc : (r.tasks t).pc = .send := hen
    obtain ⟨result, hresult⟩ := h.result hpc rfl (by rintro ⟨⟩)
    simp only [PocketTtsRuntime.stepTask, PocketTtsRuntime.send, hresult, pc_setTask, hpc]
    simp [SynthesisPc.work]
  | remove =>
    have hpc : (r.tasks t).pc = .remove := hen.1
    simp only [PocketTtsRuntime.stepTask, PocketTtsRuntime.remove, pc_setTask, hpc]
    simp [SynthesisPc.work]

/-! ### Runs -/

theorem Moves.orderly {pc : PhrasePc} (h : r.Moves r' i pc) (horderly : r.Orderly) (hlt : i < r.nextCall) :
    r'.Orderly := by
  refine ⟨fun j hj => ?_, fun j hlock => ?_⟩
  · rw [h.nextCall] at hj
    rw [h.calls, Function.update_of_ne (by omega)]
    exact horderly.fresh j hj
  · by_cases hj : j = i
    · subst j
      rw [h.calls, Function.update_self]
      exact h.holder hlock
    · rw [h.calls, Function.update_of_ne hj]
      exact horderly.holder j (h.others j hj hlock)

theorem Orderly.next (h : r.Orderly) (htracked : r.Tracked) {a : TtsAction} (hen : r.enabled a) :
    (r.next a).Orderly := by
  cases a with
  | synthesizePhrase phrase =>
    have hne : ∀ j, (r.calls j).pc ≠ .uncalled → j ≠ r.nextCall := by
      rintro j hj rfl
      exact hj (h.fresh _ (Nat.le_refl _))
    refine ⟨fun j hj => ?_, fun j hlock => ?_⟩
    · have hlt : r.nextCall < j := hj
      simp only [PocketTtsRuntime.next, synthesizePhrase, Function.update_of_ne (Nat.ne_of_gt hlt)]
      exact h.fresh j (Nat.le_of_lt hlt)
    · obtain ⟨t, ht⟩ := h.holder j hlock
      have hj : j ≠ r.nextCall := by
        apply hne
        intro hpc
        rw [hpc] at ht
        cases ht
      simp only [PocketTtsRuntime.next, synthesizePhrase, Function.update_of_ne hj]
      exact ⟨t, ht⟩
  | call i a =>
    obtain ⟨pc, hmoves, _⟩ := htracked.stepCall_moves h hen
    exact hmoves.orderly h (h.lt_nextCall hen)
  | task t a =>
    have hframe := taskFrame_stepTask (r := r) (t := t) a
    refine ⟨fun j hj => ?_, fun j hlock => ?_⟩
    · simp only [PocketTtsRuntime.next] at hj ⊢
      rw [hframe.nextCall] at hj
      rw [hframe.calls]
      exact h.fresh j hj
    · simp only [PocketTtsRuntime.next] at hlock ⊢
      rw [(stepTask_keeps a).1] at hlock
      rw [hframe.calls]
      exact h.holder j hlock

theorem reaches_orderly {ok : PocketTtsRuntime → TtsAction → Prop} (hs : ttsRuntime.Reaches ok r) :
    r.Orderly := by
  apply hs.invariant (I := Orderly)
  · rintro r ⟨voice, sampleRate, rfl⟩
    exact orderly_new voice sampleRate
  · intro r a hs h hen _
    exact h.next (reaches_tracked hs) hen

theorem Tracked.lt_nextTask (h : r.Tracked) {a : SynthesisAction} (hen : r.enabledTask t a) :
    t < r.nextTask := by
  by_contra hge
  have hlt := h.work_stepTask hen
  rw [h.fresh t (Nat.le_of_not_lt hge)] at hlt
  exact Nat.not_lt_zero _ hlt

theorem Moves.callWork {pc : PhrasePc} (h : r.Moves r' i pc) (hlt : i < r.nextCall) :
    r'.callWork + (r.calls i).pc.work = r.callWork + pc.work := by
  have hchange := sum_range_change (f := fun j => (r.calls j).pc.work) (g := fun j => (r'.calls j).pc.work)
    hlt fun j hj => by simp only [h.calls, Function.update_of_ne hj]
  simp only [PocketTtsRuntime.callWork, h.nextCall]
  rw [hchange]
  simp only [h.calls, Function.update_self]

/-- Every step without a new call takes from the work there is. -/
theorem work_next (htracked : r.Tracked) (horderly : r.Orderly) {a : TtsAction} (hen : r.enabled a)
    (hno : TtsAction.noNewCall r a) : (r.next a).work < r.work := by
  cases a with
  | synthesizePhrase phrase => exact hno.elim
  | call i a =>
    obtain ⟨pc, hmoves, hwork⟩ := htracked.stepCall_moves horderly hen
    have hcalls := hmoves.callWork (horderly.lt_nextCall hen)
    simp only [PocketTtsRuntime.next, work]
    rcases hwork with ⟨⟨htasks, hnext⟩, hlt⟩ | ⟨hspawns, hpc, hborrow⟩
    · have hsame : (r.stepCall i a).taskWork = r.taskWork := by
        rw [taskWork, taskWork, htasks, hnext]
      omega
    · have hadd : (r.stepCall i a).taskWork = r.taskWork + 9 := by
        rw [taskWork, hspawns.nextTask, sum_range_succ_change (f := fun t => (r.tasks t).pc.work),
          hspawns.spawned]
        · rfl
        · intro t ht
          rw [hspawns.others t (Nat.ne_of_lt ht)]
      rw [hpc, hborrow] at hcalls
      have hlaunch : PhrasePc.launch.work = 12 := rfl
      omega
  | task t a =>
    have hframe := taskFrame_stepTask (r := r) (t := t) a
    have hlt := htracked.work_stepTask hen
    have hcalls : (r.stepTask t a).callWork = r.callWork := by
      rw [callWork, callWork, hframe.calls, hframe.nextCall]
    have htasks := sum_range_change (f := fun t => (r.tasks t).pc.work)
      (g := fun t' => ((r.stepTask t a).tasks t').pc.work) (htracked.lt_nextTask hen)
      fun t' ht' => by simp only [hframe.tasks t' ht']
    simp only [PocketTtsRuntime.next, work]
    rw [taskWork, (stepTask_keeps a).2, hcalls, taskWork]
    omega

/-! ### Somebody can always go on -/

/-- Until it has sent its result, a task waits for no lock that a call may hold. -/
theorem enabledTask_of_unsent (hspawned : (r.tasks t).pc ≠ .unspawned) (hsent : (r.tasks t).pc.sent = false) :
    ∃ a, r.enabledTask t a := by
  cases hpc : (r.tasks t).pc with
  | unspawned => exact absurd hpc hspawned
  | synthesize => exact ⟨.synthesized (.ok []), hpc⟩
  | insertCache => exact ⟨.insertCache, hpc⟩
  | markHealthy => exact ⟨.markHealthy, hpc⟩
  | handleFailure => exact ⟨.handleFailure 0, hpc⟩
  | burst attempt => exact ⟨.healthCheck true, by simp only [enabledTask, hpc]; rfl⟩
  | verdict recovered => exact ⟨.verdict 0, by simp only [enabledTask, hpc]; rfl⟩
  | send => exact ⟨.send, hpc⟩
  | remove | done =>
    rw [hpc] at hsent
    cases hsent

/-- A call that waits can be told of the result, or the task it waits for can go on. -/
theorem Tracked.proceeds_of_waitsOn (h : r.Tracked) (hwaits : (r.calls i).pc.waitsOn = some t) :
    ∃ a, r.enabled a ∧ TtsAction.proceeds r a := by
  by_cases hsent : (r.tasks t).pc.sent = true
  · refine ⟨.call i (wakeUp (r.calls i).pc), (h.canReturn hwaits hsent).1, ?_⟩
    cases (r.calls i).pc <;> trivial
  · have hspawned : (r.tasks t).pc ≠ .unspawned := by
      have hcall := h.waits i
      unfold Waits at hcall
      cases hpc : (r.calls i).pc with
      | borrow t' =>
        rw [hpc] at hwaits hcall
        cases hwaits
        exact hcall.1
      | changed t' seen =>
        rw [hpc] at hwaits hcall
        cases hwaits
        exact hcall.1.1
      | _ =>
        rw [hpc] at hwaits
        cases hwaits
    obtain ⟨a, ha⟩ := enabledTask_of_unsent hspawned (Bool.eq_false_of_not_eq_true hsent)
    exact ⟨.task t a, ha, trivial⟩

theorem Tracked.proceeds_or_unlocked (h : r.Tracked) (horderly : r.Orderly) :
    r.inFlightLock = none ∨ ∃ a, r.enabled a ∧ TtsAction.proceeds r a := by
  cases hlock : r.inFlightLock with
  | none => exact .inl rfl
  | some i =>
    obtain ⟨t, ht⟩ := horderly.holder i hlock
    exact .inr (h.proceeds_of_waitsOn ht)

/-- **No deadlock.** -/
theorem proceeds_of_work (h : r.Tracked) (horderly : r.Orderly) (hwork : r.work ≠ 0) :
    ∃ a, r.enabled a ∧ TtsAction.proceeds r a := by
  rcases h.proceeds_or_unlocked horderly with hlock | hproceeds
  · by_cases htasks : r.taskWork = 0
    · have hcalls : r.callWork ≠ 0 := by
        rw [work, htasks] at hwork
        exact hwork
      obtain ⟨i, _, hi⟩ := exists_of_sum_range_ne_zero hcalls
      cases hpc : (r.calls i).pc with
      | checkCache => exact ⟨.call i .checkCache, hpc, trivial⟩
      | checkInFlight => exact ⟨.call i .checkInFlight, ⟨hpc, hlock⟩, trivial⟩
      | assertAvailable => exact ⟨.call i (.assertAvailable 0), hpc, trivial⟩
      | launch => exact ⟨.call i .launch, ⟨hpc, hlock⟩, trivial⟩
      | borrow t => exact h.proceeds_of_waitsOn (i := i) (by rw [hpc]; rfl)
      | changed t seen => exact h.proceeds_of_waitsOn (i := i) (by rw [hpc]; rfl)
      | _ =>
        rw [hpc] at hi
        exact absurd rfl hi
    · obtain ⟨t, _, ht⟩ := exists_of_sum_range_ne_zero htasks
      by_cases hsent : (r.tasks t).pc.sent = true
      · cases hpc : (r.tasks t).pc with
        | remove => exact ⟨.task t .remove, ⟨hpc, hlock⟩, trivial⟩
        | done =>
          rw [hpc] at ht
          exact absurd rfl ht
        | _ =>
          rw [hpc] at hsent
          cases hsent
      · obtain ⟨a, ha⟩ := enabledTask_of_unsent (t := t) (fun hpc => ht (by rw [hpc]; rfl))
          (Bool.eq_false_of_not_eq_true hsent)
        exact ⟨.task t a, ha, trivial⟩
  · exact hproceeds

theorem settled_of_work (h : r.Tracked) (horderly : r.Orderly) (hrecovers : r.Recovers) (hwork : r.work = 0) :
    r.Settled := by
  obtain ⟨hcallWork, htaskWork⟩ := Nat.add_eq_zero_iff.1 hwork
  have hcalls : ∀ i, (r.calls i).pc.work = 0 := by
    intro i
    by_cases hi : i < r.nextCall
    · exact eq_zero_of_sum_range hcallWork hi
    · rw [horderly.fresh i (Nat.le_of_not_lt hi)]
      rfl
  have htasks : ∀ t, (r.tasks t).pc = .unspawned ∨ (r.tasks t).pc = .done := by
    intro t
    by_cases ht : t < r.nextTask
    · have hzero := eq_zero_of_sum_range htaskWork ht
      cases hpc : (r.tasks t).pc with
      | unspawned => exact .inl rfl
      | done => exact .inr rfl
      | _ =>
        rw [hpc] at hzero
        simp [SynthesisPc.work] at hzero
    · exact .inl (h.fresh t (Nat.le_of_not_lt ht))
  refine ⟨hcalls, htasks, fun key => ?_, ?_, fun havailable => ?_⟩
  · cases hentry : r.inFlight.lookup key with
    | none => rfl
    | some t =>
      obtain ⟨_, hpc⟩ := h.entry key t hentry
      rcases htasks t with hunspawned | hdone
      · rw [hunspawned] at hpc
        cases hpc
      · rw [hdone] at hpc
        cases hpc
  · cases hlock : r.inFlightLock with
    | none => rfl
    | some i =>
      obtain ⟨t, ht⟩ := horderly.holder i hlock
      have hzero := hcalls i
      cases hpc : (r.calls i).pc with
      | borrow t => rw [hpc] at hzero; cases hzero
      | changed t seen => rw [hpc] at hzero; cases hzero
      | _ =>
        rw [hpc] at ht
        cases ht
  · have hpc := hrecovers havailable
    rcases htasks r.recoveringTask with hunspawned | hdone
    · rw [hunspawned] at hpc
      cases hpc
    · rw [hdone] at hpc
      cases hpc

theorem callWork_le (r : PocketTtsRuntime) : r.callWork ≤ r.nextCall * 15 := by
  refine sum_range_le (fun i => ?_) _
  cases (r.calls i).pc <;> simp [PhrasePc.work]

theorem taskWork_le (r : PocketTtsRuntime) : r.taskWork ≤ r.nextTask * 9 := by
  refine sum_range_le (fun t => ?_) _
  cases (r.tasks t).pc with
  | burst attempt =>
    simp only [SynthesisPc.work, postFailureRetryAttempts]
    omega
  | _ => simp [SynthesisPc.work]

theorem decreases_work :
    ttsRuntime.Decreases TtsAction.noNewCall (fun r => r.Tracked ∧ r.Orderly) work where
  keeps _ _ h hen _ := ⟨h.1.next hen, h.2.next h.1 hen⟩
  lt _ _ h hen hno := work_next h.1 h.2 hen hno

end PocketTtsRuntime

/-- Once no more callers come in, the runtime takes at most fifteen steps for each call there has been and nine
for each task, in whatever order and with whatever outcomes. Where nothing but a cancellation could still
happen, every call has returned, every task has ended, nothing is in flight and nobody has the lock; and the
runtime can always get there without a cancellation. -/
theorem callers_answered {r r' : PocketTtsRuntime} {n : Nat} (hs : ttsRuntime.Reachable r)
    (hsteps : ttsRuntime.Steps TtsAction.noNewCall r n r') :
    n ≤ r.nextCall * 15 + r.nextTask * 9 ∧ (ttsRuntime.Stuck TtsAction.proceeds r' → r'.Settled) ∧
      ∃ m r'', ttsRuntime.Steps TtsAction.proceeds r' m r'' ∧ r''.Settled := by
  have hI : r.Tracked ∧ r.Orderly := ⟨PocketTtsRuntime.reaches_tracked hs, PocketTtsRuntime.reaches_orderly hs⟩
  have hs' : ttsRuntime.Reachable r' := hs.trans hsteps.reaches.reachable
  have hI' := hsteps.invariant PocketTtsRuntime.decreases_work hI
  refine ⟨?_, fun hstuck => ?_, ?_⟩
  · have hbound := hsteps.add_le PocketTtsRuntime.decreases_work hI
    have hcalls := r.callWork_le
    have htasks := r.taskWork_le
    have hwork : r.work = r.callWork + r.taskWork := rfl
    omega
  · by_cases hwork : r'.work = 0
    · exact PocketTtsRuntime.settled_of_work hI'.1 hI'.2 (PocketTtsRuntime.reaches_recovers hs') hwork
    · obtain ⟨a, hen, hproceeds⟩ := PocketTtsRuntime.proceeds_of_work hI'.1 hI'.2 hwork
      exact absurd hproceeds (hstuck a hen)
  · have hnoNew : ∀ r a, TtsAction.proceeds r a → TtsAction.noNewCall r a := by
      rintro _ (phrase | ⟨i, a⟩ | ⟨t, a⟩) hproceeds
      · exact hproceeds
      · trivial
      · trivial
    have hdecreases := PocketTtsRuntime.decreases_work.mono hnoNew
    obtain ⟨m, r'', hsteps', hdone⟩ := hdecreases.exists_steps
      (fun _ h hwork => PocketTtsRuntime.proceeds_of_work h.1 h.2 hwork) hI'
    have hI'' := hsteps'.invariant hdecreases hI'
    have hs'' : ttsRuntime.Reachable r'' := hs'.trans hsteps'.reaches.reachable
    exact ⟨m, r'', hsteps', PocketTtsRuntime.settled_of_work hI''.1 hI''.2
      (PocketTtsRuntime.reaches_recovers hs'') hdone⟩

/-- Two callers of one phrase, the second of which waits with the lock in its hands, and a synthesis that fails:
the retry burst comes first, then the second caller returns and drops the lock, and the task can end. -/
theorem callers_answered_holder : ∃ r r', ttsRuntime.Reachable r ∧ r.inFlightLock = some 1 ∧
    ttsRuntime.Steps TtsAction.noNewCall r 9 r' ∧ 9 ≤ r.nextCall * 15 + r.nextTask * 9 ∧
      ∃ m r'', ttsRuntime.Steps TtsAction.proceeds r' m r'' ∧ r''.Settled := by
  obtain ⟨r, hr, hP⟩ := System.exists_reaches_of_run ttsRuntime System.anyStep
    (s := .new "eponine" 48000) ⟨_, _, rfl⟩
    [.synthesizePhrase "welcome", .synthesizePhrase "welcome", .call 0 .checkCache, .call 1 .checkCache,
      .call 0 .checkInFlight, .call 0 (.assertAvailable 0), .call 0 .launch, .call 1 .checkInFlight,
      .call 1 .borrow]
    (fun r => r.inFlightLock == some 1 && (ttsRuntime.run TtsAction.noNewCall r
      [.task 0 (.synthesized (.error "pocket-tts returned non-OK status 500")), .task 0 (.handleFailure 7),
        .task 0 (.healthCheck false), .task 0 (.healthCheck true), .task 0 (.verdict 9), .task 0 .send,
        .call 1 .changed, .task 0 .remove, .call 0 .borrow]).isSome)
    (by decide)
  obtain ⟨hlock, hrun⟩ := Bool.and_eq_true_iff.1 hP
  obtain ⟨r', hr'⟩ := Option.isSome_iff_exists.1 hrun
  have hsteps : ttsRuntime.Steps TtsAction.noNewCall r 9 r' := System.Steps.refl.run hr'
  obtain ⟨hbound, _, hsettles⟩ := callers_answered hr hsteps
  exact ⟨r, r', hr, eq_of_beq hlock, hsteps, hbound, hsettles⟩

end MumbleSip
