import MumbleSip.Audio.Repeat
import MumbleSip.Audio.Settling

/-!
# What callers are answered

The cache holds for a key the samples of the last synthesis of that key that has stored any, so whoever asks
for a phrase, and gets samples, gets those of a synthesis of that phrase. Between a failed recovery and the end
of the cooldown the callers that are past the check of the availability launch what they launch, and nobody
else does.
-/

namespace MumbleSip

open Transition

/-- A task here has stored its samples, if it has any. -/
def SynthesisPc.stored : SynthesisPc → Bool
  | .markHealthy | .send | .remove | .done => true
  | _ => false

/-- On its way through `handle_runtime_failure`. -/
def SynthesisPc.failing : SynthesisPc → Bool
  | .handleFailure | .burst _ | .verdict _ => true
  | _ => false

/-- The task has put these samples into the cache. -/
def SynthesisTask.Stored (task : SynthesisTask) (pcm : Pcm) : Prop :=
  task.pc.stored = true ∧ task.result = some (.ok pcm)

/-- The task has an error to tell. -/
def SynthesisTask.Failed (task : SynthesisTask) : Prop := ∃ text, task.result = some (.error text)

theorem CacheState.fst_get (cache : CacheState) (key : String) :
    (cache.get key).1 = cache.values.lookup key := by
  unfold get
  cases cache.values.lookup key <;> rfl

theorem CacheState.lookup_evict {cache : CacheState} {key : String} {pcm : Pcm}
    (h : cache.evict.values.lookup key = some pcm) : cache.values.lookup key = some pcm := by
  unfold evict at h
  split at h
  · split at h
    · exact FiniteMap.lookup_of_erase h
    · exact h
  · exact h

/-- What is in the cache after an insertion was inserted or there before. -/
theorem CacheState.lookup_insert {cache : CacheState} {key key' : String} {pcm pcm' : Pcm}
    (h : (cache.insert key pcm).values.lookup key' = some pcm') :
    key' = key ∧ pcm' = pcm ∨ key' ≠ key ∧ cache.values.lookup key' = some pcm' := by
  by_cases hkey : key' = key
  · refine .inl ⟨hkey, ?_⟩
    unfold insert at h
    split at h <;>
    · rw [FiniteMap.lookup_insert, if_pos hkey] at h
      exact (Option.some.inj h).symm
  · refine .inr ⟨hkey, ?_⟩
    unfold insert at h
    split at h
    · rwa [FiniteMap.lookup_insert, if_neg hkey] at h
    · rw [FiniteMap.lookup_insert, if_neg hkey] at h
      exact lookup_evict h

namespace PocketTtsRuntime

variable {r r' : PocketTtsRuntime} {i t : Nat} {key : String} {pcm : Pcm}

/-- The task is the last of its key that has stored samples. -/
def LastStored (r : PocketTtsRuntime) (key : String) (t : Nat) (pcm : Pcm) : Prop :=
  (r.tasks t).cacheKey = key ∧ (r.tasks t).Stored pcm ∧
    ∀ t' pcm', (r.tasks t').cacheKey = key → (r.tasks t').Stored pcm' → t' ≤ t

/-- What the cache and the calls have, they have from the tasks. -/
structure Synthesized (r : PocketTtsRuntime) : Prop where
  failing : ∀ t, (r.tasks t).pc.failing = true → (r.tasks t).Failed
  latest : ∀ t t', (r.tasks t).pc.inFlight = true → (r.tasks t').pc ≠ .unspawned →
    (r.tasks t').cacheKey = (r.tasks t).cacheKey → t' ≤ t
  cached : ∀ key pcm, r.cache.values.lookup key = some pcm → ∃ t, r.LastStored key t pcm
  hits : ∀ i pcm, (r.calls i).pc = .hit pcm →
    ∃ t, (r.tasks t).cacheKey = (r.calls i).cacheKey ∧ (r.tasks t).Stored pcm

theorem synthesized_new (voice : String) (sampleRate : UInt32) : (new voice sampleRate).Synthesized where
  failing _ h := by cases h
  latest _ _ h := by cases h
  cached _ _ h := by cases h
  hits _ _ h := by cases h

/-- A step of a task leaves the cache alone, or stores the samples of the task. -/
structure Stores (r r' : PocketTtsRuntime) (t : Nat) : Prop where
  cacheKey : (r'.tasks t).cacheKey = (r.tasks t).cacheKey
  failing : (r'.tasks t).pc.failing = true → (r'.tasks t).Failed
  cache : (r'.cache = r.cache ∧ ∀ pcm, (r'.tasks t).Stored pcm ↔ (r.tasks t).Stored pcm) ∨
    ((r.tasks t).pc = .insertCache ∧ ∃ pcm, (r'.tasks t).Stored pcm ∧
      r'.cache = r.cache.insert (r.tasks t).cacheKey pcm)

theorem not_stored_of_failed {task : SynthesisTask} (h : task.Failed) : ¬task.Stored pcm := by
  rintro ⟨_, hresult⟩
  obtain ⟨text, htext⟩ := h
  rw [htext] at hresult
  cases hresult

theorem stores_setTask (hcache : r'.cache = r.cache) {task : SynthesisTask}
    (hkey : task.cacheKey = (r.tasks t).cacheKey) (hresult : task.result = (r.tasks t).result)
    (hfailed : task.pc.failing = true → (r.tasks t).Failed)
    (hstored : task.pc.stored = (r.tasks t).pc.stored ∨ (r.tasks t).Failed) :
    r.Stores (r'.setTask t task) t := by
  have hself : (r'.setTask t task).tasks t = task := Function.update_self _ _ _
  refine ⟨?_, ?_, .inl ⟨hcache, fun pcm => ?_⟩⟩
  · rw [hself, hkey]
  · rw [hself, SynthesisTask.Failed, hresult]
    exact hfailed
  · rw [hself]
    rcases hstored with hsame | hfailed
    · rw [SynthesisTask.Stored, SynthesisTask.Stored, hsame, hresult]
    · have hfailed' : task.Failed := by
        rw [SynthesisTask.Failed, hresult]
        exact hfailed
      exact ⟨fun h => absurd h (not_stored_of_failed hfailed'), fun h => absurd h (not_stored_of_failed hfailed)⟩

theorem stores_goto (hcache : r'.cache = r.cache) (htasks : r'.tasks = r.tasks) {pc : SynthesisPc}
    (hfailed : pc.failing = true → (r.tasks t).Failed)
    (hstored : pc.stored = (r.tasks t).pc.stored ∨ (r.tasks t).Failed) : r.Stores (r'.goto t pc) t := by
  apply stores_setTask hcache
  · rw [htasks]
  · rw [htasks]
  · exact hfailed
  · exact hstored

theorem Stores.rfl (hfailed : (r.tasks t).pc.failing = true → (r.tasks t).Failed) : r.Stores r t :=
  ⟨Eq.refl _, hfailed, .inl ⟨Eq.refl _, fun _ => Iff.rfl⟩⟩

theorem Synthesized.stores_stepTask (h : r.Synthesized) (htracked : r.Tracked) {a : SynthesisAction}
    (hen : r.enabledTask t a) : r.Stores (r.stepTask t a) t := by
  have hfailing := h.failing t
  have hno : ∀ {pc : SynthesisPc}, pc.failing = false → pc.failing = true → (r.tasks t).Failed := by
    intro pc hnot hpc
    rw [hnot] at hpc
    cases hpc
  cases a with
  | synthesized result =>
    have hpc : (r.tasks t).pc = .synthesize := hen
    have hself : (r.stepTask t (.synthesized result)).tasks t = { r.tasks t with
        result := some result
        pc := if result.isOk then .insertCache else .handleFailure } := Function.update_self _ _ _
    cases result with
    | ok pcm =>
      refine ⟨by rw [hself], fun hfail => ?_, .inl ⟨rfl, fun pcm' => ?_⟩⟩
      · rw [hself] at hfail
        cases hfail
      · rw [hself, SynthesisTask.Stored, SynthesisTask.Stored, hpc]
        exact ⟨fun h => absurd h.1 Bool.false_ne_true, fun h => absurd h.1 Bool.false_ne_true⟩
    | error text =>
      refine ⟨by rw [hself], fun _ => ?_, .inl ⟨rfl, fun pcm' => ?_⟩⟩
      · rw [hself]
        exact ⟨text, rfl⟩
      · rw [hself, SynthesisTask.Stored, SynthesisTask.Stored, hpc]
        exact ⟨fun h => absurd h.1 Bool.false_ne_true, fun h => absurd h.1 Bool.false_ne_true⟩
  | insertCache =>
    have hpc : (r.tasks t).pc = .insertCache := hen
    have hsound := htracked.sound t
    unfold SynthesisTask.Sound at hsound
    rw [hpc] at hsound
    obtain ⟨⟨pcm, hresult⟩, _⟩ := hsound
    have hstep : r.insertCache t
        = goto { r with cache := r.cache.insert (r.tasks t).cacheKey pcm } t .markHealthy := by
      simp only [PocketTtsRuntime.insertCache, hresult]
    have hself : (r.insertCache t).tasks t = { r.tasks t with pc := .markHealthy } := by
      rw [hstep]
      exact Function.update_self _ _ _
    refine ⟨?_, ?_, .inr ⟨hpc, pcm, ?_, ?_⟩⟩ <;> simp only [PocketTtsRuntime.stepTask]
    · rw [hself]
    · rw [hself]
      exact fun h => absurd h Bool.false_ne_true
    · rw [hself]
      exact ⟨rfl, hresult⟩
    · rw [hstep]
      rfl
  | markHealthy =>
    have hpc : (r.tasks t).pc = .markHealthy := hen
    simp only [PocketTtsRuntime.stepTask, markHealthy]
    exact stores_goto (by rfl) (by rfl) (hno (by rfl)) (.inl (by rw [hpc]; rfl))
  | handleFailure now =>
    have hpc : (r.tasks t).pc = .handleFailure := hen
    have hfailed := hfailing (by rw [hpc]; rfl)
    have hstart : r.Stores (r.startRecovery t) t := by
      unfold startRecovery
      exact stores_goto (by rfl) (by rfl) (fun _ => hfailed) (.inr hfailed)
    have hskip : r.Stores (r.goto t .send) t := stores_goto rfl rfl (fun _ => hfailed) (.inr hfailed)
    simp only [PocketTtsRuntime.stepTask, PocketTtsRuntime.handleFailure]
    split
    · exact hstart
    · exact hskip
    · split
      · exact hstart
      · exact hskip
  | healthCheck ok =>
    obtain ⟨attempt, hpc⟩ := enabledTask_burst hen
    have hfailed := hfailing (by rw [hpc]; rfl)
    have hgoto : ∀ pc, r.Stores (r.goto t pc) t := fun pc =>
      stores_goto rfl rfl (fun _ => hfailed) (.inr hfailed)
    simp only [PocketTtsRuntime.stepTask, PocketTtsRuntime.healthCheck, hpc]
    split
    · exact hgoto _
    · split <;> exact hgoto _
  | verdict now =>
    obtain ⟨recovered, hpc⟩ := enabledTask_verdict hen
    have hfailed := hfailing (by rw [hpc]; rfl)
    simp only [PocketTtsRuntime.stepTask, PocketTtsRuntime.verdict, hpc]
    exact stores_goto (by rfl) (by rfl) (fun _ => hfailed) (.inr hfailed)
  | send =>
    have hpc : (r.tasks t).pc = .send := hen
    simp only [PocketTtsRuntime.stepTask, PocketTtsRuntime.send]
    split
    · exact stores_setTask (by rfl) (by rfl) (by rfl) (hno (by rfl)) (.inl (by rw [hpc]; rfl))
    · exact .rfl hfailing
  | remove =>
    have hpc : (r.tasks t).pc = .remove := hen.1
    simp only [PocketTtsRuntime.stepTask, PocketTtsRuntime.remove]
    exact stores_setTask (by rfl) (by rfl) (by rfl) (hno (by rfl)) (.inl (by rw [hpc]; rfl))

theorem Stored.spawned {task : SynthesisTask} (h : task.Stored pcm) : task.pc ≠ .unspawned := by
  intro hpc
  rw [SynthesisTask.Stored, hpc] at h
  exact Bool.false_ne_true h.1

theorem Synthesized.mono (h : r.Synthesized) (hcache : r'.cache.values = r.cache.values)
    (hfailing : ∀ t, (r'.tasks t).pc.failing = true → (r'.tasks t).Failed)
    (hlatest : ∀ t t', (r'.tasks t).pc.inFlight = true → (r'.tasks t').pc ≠ .unspawned →
      (r'.tasks t').cacheKey = (r'.tasks t).cacheKey → t' ≤ t)
    (hstored : ∀ t pcm, (r'.tasks t).Stored pcm ↔ (r.tasks t).Stored pcm)
    (hkey : ∀ t pcm, (r.tasks t).Stored pcm → (r'.tasks t).cacheKey = (r.tasks t).cacheKey)
    (hhits : ∀ i pcm, (r'.calls i).pc = .hit pcm →
      ∃ t, (r.tasks t).cacheKey = (r'.calls i).cacheKey ∧ (r.tasks t).Stored pcm) : r'.Synthesized := by
  refine ⟨hfailing, hlatest, fun key pcm hlookup => ?_, fun i pcm hpc => ?_⟩
  · rw [hcache] at hlookup
    obtain ⟨t, ht, hpcm, hlast⟩ := h.cached key pcm hlookup
    refine ⟨t, (hkey t pcm hpcm).trans ht, (hstored t pcm).2 hpcm, fun t' pcm' ht' hpcm' => ?_⟩
    have hpcm'' := (hstored t' pcm').1 hpcm'
    exact hlast t' pcm' ((hkey t' pcm' hpcm'').symm.trans ht') hpcm''
  · obtain ⟨t, ht, hpcm⟩ := hhits i pcm hpc
    exact ⟨t, (hkey t pcm hpcm).trans ht, (hstored t pcm).2 hpcm⟩

theorem stepCall_keeps (a : PhraseAction) : (r.stepCall i a).cache.values = r.cache.values ∧
    ((∀ now, a ≠ .assertAvailable now) → (r.stepCall i a).availability = r.availability) := by
  have hclone : ∀ t seen, (r.cloneResult i t seen).cache.values = r.cache.values ∧
      (r.cloneResult i t seen).availability = r.availability := by
    intro t seen
    unfold cloneResult
    split <;> exact ⟨rfl, rfl⟩
  cases a with
  | checkCache => exact ⟨r.cache.values_get _, fun _ => rfl⟩
  | checkInFlight =>
    simp only [stepCall, checkInFlight]
    split <;> exact ⟨rfl, fun _ => rfl⟩
  | assertAvailable now =>
    refine ⟨?_, fun hne => absurd rfl (hne now)⟩
    simp only [stepCall, assertAvailable]
    split
    · rfl
    · rfl
    · split <;> rfl
  | launch =>
    simp only [stepCall, launch]
    split <;> exact ⟨rfl, fun _ => rfl⟩
  | borrow =>
    simp only [stepCall, borrow]
    split
    · exact ⟨(hclone _ _).1, fun _ => (hclone _ _).2⟩
    · exact ⟨rfl, fun _ => rfl⟩
  | changed =>
    simp only [stepCall, changed]
    split
    · split
      · exact ⟨(hclone _ _).1, fun _ => (hclone _ _).2⟩
      · exact ⟨rfl, fun _ => rfl⟩
      · exact ⟨rfl, fun _ => rfl⟩
    · exact ⟨rfl, fun _ => rfl⟩
  | cancel => exact ⟨rfl, fun _ => rfl⟩

@[simp] theorem pc_setCall (pc : PhrasePc) : ((r.setCall i pc).calls i).pc = pc := by
  simp only [setCall, Function.update_self]

/-- Where a step takes a call. -/
def Leads (r : PocketTtsRuntime) (i : Nat) (pc : PhrasePc) : PhraseAction → Prop
  | .checkCache => (∃ pcm, pc = .hit pcm ∧ r.cache.values.lookup (r.calls i).cacheKey = some pcm) ∨
      pc = .checkInFlight
  | .checkInFlight => (∃ t, pc = .borrow t) ∨ pc = .assertAvailable
  | .assertAvailable now => (∃ error, pc = .refused error) ∨ pc = .launch ∧
      (r.availability = .healthy ∨ ∃ deadline, r.availability = .cooldown deadline ∧ deadline ≤ now)
  | .launch => ∃ t, pc = .borrow t
  | .borrow | .changed => (∃ t seen, pc = .changed t seen) ∨ ∃ t result, pc = .answered t result
  | .cancel => pc = .cancelled

theorem leads_stepCall {a : PhraseAction} (hen : r.enabledCall i a) :
    r.Leads i ((r.stepCall i a).calls i).pc a := by
  have hclone : ∀ t seen, (∃ t' seen', ((r.cloneResult i t seen).calls i).pc = .changed t' seen') ∨
      ∃ t' result, ((r.cloneResult i t seen).calls i).pc = .answered t' result := by
    intro t seen
    unfold cloneResult
    split
    · exact .inl ⟨t, seen, pc_setCall _⟩
    · exact .inr ⟨t, _, pc_setCall _⟩
  cases a with
  | checkCache =>
    simp only [Leads, stepCall, checkCache, pc_setCall, CacheState.fst_get]
    split
    · rename_i pcm hlookup
      exact .inl ⟨pcm, rfl, hlookup⟩
    · exact .inr rfl
  | checkInFlight =>
    simp only [Leads, stepCall, checkInFlight]
    split
    · exact .inl ⟨_, pc_setCall _⟩
    · exact .inr (pc_setCall _)
  | assertAvailable now =>
    simp only [Leads, stepCall, assertAvailable]
    split
    · rename_i havailable
      exact .inr ⟨pc_setCall _, .inl havailable⟩
    · exact .inl ⟨_, pc_setCall _⟩
    · rename_i deadline havailable
      split
      · rename_i hle
        exact .inr ⟨pc_setCall _, .inr ⟨deadline, havailable, hle⟩⟩
      · exact .inl ⟨_, pc_setCall _⟩
  | launch =>
    simp only [Leads, stepCall, launch]
    split <;> exact ⟨_, pc_setCall _⟩
  | borrow =>
    simp only [Leads, stepCall, borrow]
    split
    · exact hclone _ _
    · rename_i hnot
      cases hpc : (r.calls i).pc with
      | borrow t => exact absurd hpc (hnot t)
      | _ =>
        simp only [enabledCall, hpc] at hen
        cases hen
  | changed =>
    simp only [Leads, stepCall, changed]
    cases hpc : (r.calls i).pc with
    | changed t seen =>
      simp only [enabledCall, hpc, hasChanged] at hen
      dsimp only
      split
      · exact hclone _ _
      · exact .inr ⟨t, _, pc_setCall _⟩
      · rename_i hnone
        rw [hnone] at hen
        cases hen
    | _ =>
      simp only [enabledCall, hpc, hasChanged] at hen
      cases hen
  | cancel => exact pc_setCall _

/-- Only the look into the cache makes a hit. -/
theorem stepCall_hit {a : PhraseAction} (hen : r.enabledCall i a)
    (hhit : ((r.stepCall i a).calls i).pc = .hit pcm) :
    r.cache.values.lookup (r.calls i).cacheKey = some pcm := by
  have hleads := leads_stepCall hen
  rw [hhit] at hleads
  cases a with
  | checkCache =>
    rcases hleads with ⟨_, hpc, hlookup⟩ | hpc
    · cases hpc
      exact hlookup
    · cases hpc
  | _ => simp [Leads] at hleads

theorem stepCall_launch {a : PhraseAction} (hen : r.enabledCall i a)
    (hlaunch : ((r.stepCall i a).calls i).pc = .launch) : ∃ now, a = .assertAvailable now ∧
      (r.availability = .healthy ∨ ∃ deadline, r.availability = .cooldown deadline ∧ deadline ≤ now) := by
  have hleads := leads_stepCall hen
  rw [hlaunch] at hleads
  cases a with
  | assertAvailable now =>
    refine ⟨now, rfl, ?_⟩
    simpa [Leads] using hleads
  | _ => simp [Leads] at hleads

/-- A call is where it was, or has just found samples in the cache. -/
theorem Synthesized.hits_stepCall (h : r.Synthesized) {a : PhraseAction} (hen : r.enabledCall i a)
    (hkeys : ∀ j, ((r.stepCall i a).calls j).cacheKey = (r.calls j).cacheKey) (j : Nat) (pcm : Pcm)
    (hhit : ((r.stepCall i a).calls j).pc = .hit pcm) (hothers : ∀ j, j ≠ i →
      (r.stepCall i a).calls j = r.calls j) :
    ∃ t, (r.tasks t).cacheKey = ((r.stepCall i a).calls j).cacheKey ∧ (r.tasks t).Stored pcm := by
  rw [hkeys]
  by_cases hj : j = i
  · subst j
    obtain ⟨t, ht, hpcm, _⟩ := h.cached _ pcm (stepCall_hit hen hhit)
    exact ⟨t, ht, hpcm⟩
  · rw [hothers j hj] at hhit
    exact h.hits j pcm hhit

theorem Synthesized.stepCall (h : r.Synthesized) (htracked : r.Tracked) (horderly : r.Orderly)
    {a : PhraseAction} (hen : r.enabledCall i a) : (r.stepCall i a).Synthesized := by
  obtain ⟨pc, hmoves, htasks⟩ := htracked.stepCall_moves horderly hen
  have hothers : ∀ j, j ≠ i → (r.stepCall i a).calls j = r.calls j := by
    intro j hj
    rw [hmoves.calls, Function.update_of_ne hj]
  have hkeys : ∀ j, ((r.stepCall i a).calls j).cacheKey = (r.calls j).cacheKey := by
    intro j
    by_cases hj : j = i
    · subst j
      rw [hmoves.calls, Function.update_self]
    · rw [hothers j hj]
  have hhits := fun j pcm hhit => h.hits_stepCall hen hkeys j pcm hhit hothers
  rcases htasks with ⟨⟨hsame, _⟩, _⟩ | ⟨hspawns, _⟩
  · refine h.mono (stepCall_keeps a).1 ?_ ?_ ?_ ?_ hhits
    · rw [hsame]
      exact h.failing
    · rw [hsame]
      exact h.latest
    · rw [hsame]
      exact fun _ _ => Iff.rfl
    · rw [hsame]
      exact fun _ _ _ => rfl
  · have hfresh := htracked.fresh r.nextTask (Nat.le_refl _)
    have hold : ∀ t, (r.tasks t).pc ≠ .unspawned → (r.stepCall i a).tasks t = r.tasks t := by
      intro t ht
      apply hspawns.others
      rintro rfl
      exact ht hfresh
    have hcases : ∀ t, t = r.nextTask ∨ (r.stepCall i a).tasks t = r.tasks t := by
      intro t
      by_cases ht : t = r.nextTask
      · exact .inl ht
      · exact .inr (hspawns.others t ht)
    have hle : ∀ t, ((r.stepCall i a).tasks t).pc ≠ .unspawned → t ≤ r.nextTask := by
      intro t ht
      by_contra hgt
      rw [hspawns.others t (by omega), htracked.fresh t (by omega)] at ht
      exact ht rfl
    refine h.mono (stepCall_keeps a).1 (fun t ht => ?_) (fun t t' ht ht' hkey => ?_) (fun t pcm => ?_)
      (fun t pcm hpcm => by rw [hold t (Stored.spawned hpcm)]) hhits
    · rcases hcases t with rfl | heq
      · rw [hspawns.spawned] at ht
        cases ht
      · rw [heq] at ht ⊢
        exact h.failing t ht
    · rcases hcases t with rfl | heq
      · exact hle t' ht'
      · rw [heq] at ht hkey
        rcases hcases t' with rfl | heq'
        · -- the entry of the task in flight is in the way of the new one
          rw [hspawns.spawned] at hkey
          have hentry := htracked.tracked t ht
          rw [← hkey, hspawns.none] at hentry
          cases hentry
        · rw [heq'] at ht' hkey
          exact h.latest t t' ht ht' hkey
    · rcases hcases t with rfl | heq
      · rw [hspawns.spawned, SynthesisTask.Stored, SynthesisTask.Stored, hfresh]
        exact ⟨fun h => absurd h.1 Bool.false_ne_true, fun h => absurd h.1 Bool.false_ne_true⟩
      · rw [heq]

theorem Synthesized.stepTask (h : r.Synthesized) (htracked : r.Tracked) {a : SynthesisAction}
    (hen : r.enabledTask t a) : (r.stepTask t a).Synthesized := by
  have hframe := taskFrame_stepTask (r := r) (t := t) a
  have hstores := h.stores_stepTask htracked hen
  have hinFlight := inFlight_of_enabledTask hen
  have hspawned := inFlight_ne_unspawned hinFlight
  have hold : ∀ u, (r.stepTask t a).tasks u = r.tasks u ∨ u = t := by
    intro u
    by_cases hu : u = t
    · exact .inr hu
    · exact .inl (hframe.tasks u hu)
  have hkey : ∀ u, ((r.stepTask t a).tasks u).cacheKey = (r.tasks u).cacheKey := by
    intro u
    rcases hold u with heq | rfl
    · rw [heq]
    · exact hstores.cacheKey
  have hfailing : ∀ u, ((r.stepTask t a).tasks u).pc.failing = true →
      ((r.stepTask t a).tasks u).Failed := by
    intro u hu
    rcases hold u with heq | rfl
    · rw [heq] at hu ⊢
      exact h.failing u hu
    · exact hstores.failing hu
  have hlatest : ∀ u u', ((r.stepTask t a).tasks u).pc.inFlight = true →
      ((r.stepTask t a).tasks u').pc ≠ .unspawned →
        ((r.stepTask t a).tasks u').cacheKey = ((r.stepTask t a).tasks u).cacheKey → u' ≤ u := by
    intro u u' hu hu' hsame
    rw [hkey, hkey] at hsame
    apply h.latest u u' _ _ hsame
    · rcases hold u with heq | rfl
      · rwa [heq] at hu
      · exact hinFlight
    · rcases hold u' with heq | rfl
      · rwa [heq] at hu'
      · exact hspawned
  rcases hstores.cache with ⟨hcache, hstored⟩ | ⟨hpc, pcm, hpcm, hcache⟩
  · refine h.mono (by rw [hcache]) hfailing hlatest (fun u pcm => ?_) (fun u _ _ => hkey u) fun i pcm hhit => ?_
    · rcases hold u with heq | rfl
      · rw [heq]
      · exact hstored pcm
    · rw [hframe.calls] at hhit ⊢
      exact h.hits i pcm hhit
  · have hmono : ∀ u pcm, (r.tasks u).Stored pcm → ((r.stepTask t a).tasks u).Stored pcm := by
      intro u pcm' hu
      rcases hold u with heq | rfl
      · rwa [heq]
      · rw [SynthesisTask.Stored, hpc] at hu
        exact absurd hu.1 Bool.false_ne_true
    refine ⟨hfailing, hlatest, fun key pcm' hlookup => ?_, fun i pcm' hhit => ?_⟩
    · rw [hcache] at hlookup
      rcases CacheState.lookup_insert hlookup with ⟨rfl, rfl⟩ | ⟨hne, hlookup⟩
      · -- the task is in flight, so it is the last of its key
        refine ⟨t, hkey t, hpcm, fun u pcm'' hu hstored => ?_⟩
        rw [hkey] at hu
        rcases hold u with heq | rfl
        · rw [heq] at hstored
          exact h.latest t u hinFlight (Stored.spawned hstored) hu
        · exact Nat.le_refl u
      · obtain ⟨u, hu, hstored, hlast⟩ := h.cached key pcm' hlookup
        refine ⟨u, (hkey u).trans hu, hmono u pcm' hstored, fun u' pcm'' hu' hstored' => ?_⟩
        rw [hkey] at hu'
        rcases hold u' with heq | rfl
        · rw [heq] at hstored'
          exact hlast u' pcm'' hu' hstored'
        · exact absurd hu'.symm hne
    · rw [hframe.calls] at hhit ⊢
      obtain ⟨u, hu, hstored⟩ := h.hits i pcm' hhit
      exact ⟨u, (hkey u).trans hu, hmono u pcm' hstored⟩

theorem Synthesized.next (h : r.Synthesized) (htracked : r.Tracked) (horderly : r.Orderly) {a : TtsAction}
    (hen : r.enabled a) : (r.next a).Synthesized := by
  cases a with
  | synthesizePhrase phrase =>
    refine ⟨h.failing, h.latest, h.cached, fun i pcm hhit => ?_⟩
    by_cases hi : i = r.nextCall
    · simp only [PocketTtsRuntime.next, synthesizePhrase, hi, Function.update_self] at hhit
      cases hhit
    · simp only [PocketTtsRuntime.next, synthesizePhrase, Function.update_of_ne hi] at hhit ⊢
      exact h.hits i pcm hhit
  | call i a => exact h.stepCall htracked horderly hen
  | task t a => exact h.stepTask htracked hen

theorem reaches_synthesized {ok : PocketTtsRuntime → TtsAction → Prop} (hs : ttsRuntime.Reaches ok r) :
    r.Synthesized := by
  apply hs.invariant (I := Synthesized)
  · rintro r ⟨voice, sampleRate, rfl⟩
    exact synthesized_new voice sampleRate
  · intro r a hs h hen _
    exact h.next (reaches_tracked hs) (reaches_orderly hs) hen

theorem cacheKey_injective {phrase phrase' : String} (h : r.cacheKey phrase = r.cacheKey phrase') :
    phrase = phrase' := by
  apply String.toList_injective
  have hlists := congrArg String.toList h
  simp only [cacheKey, String.toList_append, List.append_assoc] at hlists
  exact List.append_cancel_left (List.append_cancel_left (List.append_cancel_left (List.append_cancel_left hlists)))

end PocketTtsRuntime

/-- The samples a call has returned. -/
def PhrasePc.samples : PhrasePc → Option Pcm
  | .hit pcm | .answered _ (.ok pcm) => some pcm
  | _ => none

/-- The cache has for a key the samples of the last synthesis of the key that has stored any, and the samples
that a caller returns for a phrase are those of a synthesis of that phrase and of no other. -/
theorem answered_by_own_synthesis {r : PocketTtsRuntime} (hs : ttsRuntime.Reachable r) :
    (∀ key pcm, r.cache.values.lookup key = some pcm → ∃ t, r.LastStored key t pcm) ∧
    ∀ i phrase pcm, (r.calls i).cacheKey = r.cacheKey phrase → (r.calls i).pc.samples = some pcm →
      ∃ t, (r.tasks t).result = some (.ok pcm) ∧
        ∀ phrase', (r.tasks t).cacheKey = r.cacheKey phrase' ↔ phrase' = phrase := by
  have h := PocketTtsRuntime.reaches_synthesized hs
  have hown : ∀ t phrase, (r.tasks t).cacheKey = r.cacheKey phrase →
      ∀ phrase', (r.tasks t).cacheKey = r.cacheKey phrase' ↔ phrase' = phrase := by
    intro t phrase ht phrase'
    rw [ht]
    exact ⟨fun heq => (PocketTtsRuntime.cacheKey_injective heq).symm, fun heq => by rw [heq]⟩
  refine ⟨h.cached, fun i phrase pcm hkey hsamples => ?_⟩
  cases hpc : (r.calls i).pc with
  | hit pcm' =>
    rw [hpc] at hsamples
    cases hsamples
    obtain ⟨t, ht, hstored⟩ := h.hits i _ hpc
    exact ⟨t, hstored.2, hown t phrase (ht.trans hkey)⟩
  | answered t result =>
    have hwaits := (PocketTtsRuntime.reaches_tracked hs).waits i
    unfold PocketTtsRuntime.Waits at hwaits
    rw [hpc] at hwaits hsamples
    obtain ⟨⟨_, ht⟩, hresult⟩ := hwaits
    cases result with
    | ok pcm' =>
      cases hsamples
      exact ⟨t, hresult, hown t phrase (ht.trans hkey)⟩
    | error text => cases hsamples
  | _ =>
    rw [hpc] at hsamples
    cases hsamples

/-- A phrase is synthesized twice, since the first caller had missed the cache before the first synthesis had
ended; the third caller is given the samples of the second synthesis. -/
theorem answered_by_own_synthesis_again : ∃ r, ttsRuntime.Reachable r ∧
    (r.calls 2).pc.samples = some [3, 4] ∧
      ∃ t, (r.tasks t).result = some (.ok [3, 4]) ∧
        ∀ phrase', (r.tasks t).cacheKey = r.cacheKey phrase' ↔ phrase' = "welcome" := by
  obtain ⟨r, hr, hP⟩ := System.exists_reaches_of_run ttsRuntime System.anyStep
    (s := .new "eponine" 48000) ⟨_, _, rfl⟩
    [.synthesizePhrase "welcome", .call 0 .checkCache, .call 0 .checkInFlight, .call 0 (.assertAvailable 0),
      .synthesizePhrase "welcome", .call 1 .checkCache, .call 1 .checkInFlight, .call 1 (.assertAvailable 1),
      .call 1 .launch, .task 0 (.synthesized (.ok [1, 2])), .task 0 .insertCache, .task 0 .markHealthy,
      .task 0 .send, .task 0 .remove, .call 0 .launch, .task 1 (.synthesized (.ok [3, 4])),
      .task 1 .insertCache, .synthesizePhrase "welcome", .call 2 .checkCache]
    (fun r => (r.calls 2).cacheKey == r.cacheKey "welcome" && (r.calls 2).pc.samples == some [3, 4])
    (by decide)
  obtain ⟨hkey, hsamples⟩ := Bool.and_eq_true_iff.1 hP
  exact ⟨r, hr, eq_of_beq hsamples,
    (answered_by_own_synthesis hr).2 2 "welcome" [3, 4] (eq_of_beq hkey) (eq_of_beq hsamples)⟩

/-! ### The cooldown -/

namespace PocketTtsRuntime

variable {r r' : PocketTtsRuntime} {i t : Nat} {deadline : Nat}

/-- The clock is before the deadline, and no task has the runtime healthy again or ends a recovery. -/
def beforeDeadline (deadline : Nat) (_ : PocketTtsRuntime) : TtsAction → Prop
  | .call _ (.assertAvailable now) | .task _ (.handleFailure now) => now < deadline
  | .task _ .markHealthy | .task _ (.verdict _) => False
  | _ => True

instance (r : PocketTtsRuntime) : ∀ a : TtsAction, Decidable (beforeDeadline deadline r a)
  | .call _ (.assertAvailable now) | .task _ (.handleFailure now) => inferInstanceAs (Decidable (now < deadline))
  | .task _ .markHealthy | .task _ (.verdict _) => inferInstanceAs (Decidable False)
  | .synthesizePhrase _ | .call _ .checkCache | .call _ .checkInFlight | .call _ .launch | .call _ .borrow
  | .call _ .changed | .call _ .cancel | .task _ (.synthesized _) | .task _ .insertCache
  | .task _ (.healthCheck _) | .task _ .send | .task _ .remove => inferInstanceAs (Decidable True)

/-- How many calls are between the check of the availability and the second look at `in_flight`. -/
def launching (r : PocketTtsRuntime) : Nat :=
  ∑ i ∈ Finset.range r.nextCall, if (r.calls i).pc = .launch then 1 else 0

/-- The cooldown lasts, and what has been launched since `r` was about to be launched there. -/
structure Cools (deadline : Nat) (r r' : PocketTtsRuntime) : Prop where
  availability : r'.availability = .cooldown deadline
  launched : r'.nextTask + r'.launching ≤ r.nextTask + r.launching
  launching : ∀ i, (r'.calls i).pc = .launch → (r.calls i).pc = .launch

theorem Cools.refl (h : r.availability = .cooldown deadline) : Cools deadline r r :=
  ⟨h, Nat.le_refl _, fun _ hpc => hpc⟩

theorem Moves.launching {pc : PhrasePc} (h : r.Moves r' i pc) (hlt : i < r.nextCall) (hne : pc ≠ .launch) :
    r'.launching + (if (r.calls i).pc = .launch then 1 else 0) = r.launching := by
  have hchange := sum_range_change (f := fun j => if (r.calls j).pc = .launch then 1 else 0)
    (g := fun j => if (r'.calls j).pc = .launch then 1 else 0) hlt
    fun j hj => by simp only [h.calls, Function.update_of_ne hj]
  simp only [PocketTtsRuntime.launching, h.nextCall]
  rw [hchange, h.calls, Function.update_self]
  dsimp only
  rw [if_neg hne, Nat.add_zero]

theorem Cools.stepCall (h : Cools deadline r r') (htracked : r'.Tracked) (horderly : r'.Orderly)
    {a : PhraseAction} (hen : r'.enabledCall i a) (hok : beforeDeadline deadline r' (.call i a)) :
    Cools deadline r (r'.stepCall i a) := by
  have havailability : (r'.stepCall i a).availability = .cooldown deadline := by
    cases a with
    | assertAvailable now =>
      have hlt : ¬deadline ≤ now := Nat.not_le_of_lt hok
      simp only [PocketTtsRuntime.stepCall, assertAvailable, h.availability, if_neg hlt]
      exact h.availability
    | _ => exact ((stepCall_keeps _).2 fun _ heq => by cases heq).trans h.availability
  have hnot : ((r'.stepCall i a).calls i).pc ≠ .launch := by
    intro hlaunch
    obtain ⟨now, rfl, hhealthy | ⟨deadline', hcooldown, hle⟩⟩ := stepCall_launch hen hlaunch
    · rw [h.availability] at hhealthy
      cases hhealthy
    · rw [h.availability] at hcooldown
      cases hcooldown
      exact absurd hle (Nat.not_le_of_lt hok)
  obtain ⟨pc, hmoves, htasks⟩ := htracked.stepCall_moves horderly hen
  rw [hmoves.calls, Function.update_self] at hnot
  have hlaunching := hmoves.launching (horderly.lt_nextCall hen) hnot
  have hle := h.launched
  refine ⟨havailability, ?_, fun j hpc => h.launching j ?_⟩
  · rcases htasks with ⟨⟨_, hnext⟩, _⟩ | ⟨hspawns, hpc, _⟩
    · omega
    · rw [hspawns.nextTask]
      rw [if_pos hpc] at hlaunching
      omega
  · by_cases hj : j = i
    · subst j
      rw [hmoves.calls, Function.update_self] at hpc
      exact absurd hpc hnot
    · rwa [hmoves.calls, Function.update_of_ne hj] at hpc

theorem Cools.stepTask (h : Cools deadline r r') {a : SynthesisAction} (hen : r'.enabledTask t a)
    (hok : beforeDeadline deadline r' (.task t a)) : Cools deadline r (r'.stepTask t a) := by
  have hframe := taskFrame_stepTask (r := r') (t := t) a
  have hcalls : (r'.stepTask t a).launching = r'.launching := by
    rw [PocketTtsRuntime.launching, hframe.nextCall, hframe.calls, PocketTtsRuntime.launching]
  refine ⟨?_, ?_, fun i hpc => h.launching i (by rwa [hframe.calls] at hpc)⟩
  · rcases stepTask_cases hen with ⟨rfl, _⟩ | ⟨_, hpc, hrecovering, _⟩ | ⟨hverdict, _, _⟩ | ⟨hsame, _, _⟩
    · exact hok.elim
    · -- before the deadline a failure starts no recovery
      cases a with
      | handleFailure now =>
        have hlt : ¬deadline ≤ now := Nat.not_le_of_lt hok
        simp only [PocketTtsRuntime.stepTask, PocketTtsRuntime.handleFailure, h.availability, if_neg hlt]
        exact h.availability
      | _ => simp [enabledTask, hpc, SynthesisPc.isBurst, SynthesisPc.isVerdict] at hen
    · cases a with
      | verdict now => exact hok.elim
      | _ =>
        obtain ⟨recovered, hpc⟩ := enabledTask_verdict hverdict
        simp [enabledTask, hpc, SynthesisPc.isBurst] at hen
    · rw [hsame, h.availability]
  · rw [(stepTask_keeps a).2, hcalls]
    exact h.launched

theorem Cools.next (h : Cools deadline r r') (htracked : r'.Tracked) (horderly : r'.Orderly) {a : TtsAction}
    (hen : r'.enabled a) (hok : beforeDeadline deadline r' a) : Cools deadline r (r'.next a) := by
  cases a with
  | synthesizePhrase phrase =>
    have hsum : (r'.synthesizePhrase phrase).launching = r'.launching + 0 := by
      rw [PocketTtsRuntime.launching, PocketTtsRuntime.launching]
      refine (sum_range_succ_change fun j hj => ?_).trans (congrArg _ ?_)
      · simp only [synthesizePhrase, Function.update_of_ne (Nat.ne_of_lt hj)]
      · simp only [synthesizePhrase, Function.update_self]
        exact if_neg fun hpc => by cases hpc
    refine ⟨h.availability, ?_, fun i hpc => h.launching i ?_⟩
    · simp only [PocketTtsRuntime.next, hsum]
      exact h.launched
    · by_cases hi : i = r'.nextCall
      · simp only [PocketTtsRuntime.next, synthesizePhrase, hi, Function.update_self] at hpc
        cases hpc
      · simpa only [PocketTtsRuntime.next, synthesizePhrase, Function.update_of_ne hi] using hpc
  | call i a => exact h.stepCall htracked horderly hen hok
  | task t a => exact h.stepTask hen hok

end PocketTtsRuntime

/-- While the clock is before the deadline of a cooldown, and no synthesis that was launched earlier succeeds and
no recovery ends, the cooldown lasts, and no call gets past the check of the availability: every task spawned in
the meantime is one of a call that was past it at the start. -/
theorem cooldown_launches_nothing {r r' : PocketTtsRuntime} {deadline : Nat} (hs : ttsRuntime.Reachable r)
    (hcooldown : r.availability = .cooldown deadline)
    (hs' : (ttsRuntime.startingAt r).Reaches (PocketTtsRuntime.beforeDeadline deadline) r') :
    r'.availability = .cooldown deadline ∧ r'.nextTask + r'.launching ≤ r.nextTask + r.launching ∧
      ∀ i, (r'.calls i).pc = .launch → (r.calls i).pc = .launch := by
  have htracked := PocketTtsRuntime.reaches_tracked hs
  have horderly := PocketTtsRuntime.reaches_orderly hs
  have hcools : r'.Tracked ∧ r'.Orderly ∧ PocketTtsRuntime.Cools deadline r r' := by
    apply hs'.stable (P := fun r' => r'.Tracked ∧ r'.Orderly ∧ PocketTtsRuntime.Cools deadline r r')
    · exact ⟨htracked, horderly, .refl hcooldown⟩
    · rintro r' a ⟨htracked', horderly', hcools⟩ hen hok
      exact ⟨htracked'.next hen, horderly'.next htracked' hen, hcools.next htracked' horderly' hen hok⟩
  exact ⟨hcools.2.2.availability, hcools.2.2.launched, hcools.2.2.launching⟩

/-- A call that is past the check when the recovery fails launches its synthesis in the cooldown, and the next
one is refused. -/
theorem cooldown_launches_nothing_late : ∃ r r' : PocketTtsRuntime, ttsRuntime.Reachable r ∧ r.nextTask = 1 ∧
    (r'.calls 2).pc = .refused "pocket-tts cooldown is active after runtime failures" ∧ r'.nextTask = 2 ∧
      r'.availability = .cooldown postFailureCooldown ∧
        r'.nextTask + r'.launching ≤ r.nextTask + r.launching := by
  obtain ⟨r, hr, hP⟩ := System.exists_reaches_of_run ttsRuntime System.anyStep
    (s := .new "eponine" 48000) ⟨_, _, rfl⟩
    [.synthesizePhrase "welcome", .synthesizePhrase "goodbye", .call 0 .checkCache, .call 0 .checkInFlight,
      .call 0 (.assertAvailable 0), .call 0 .launch, .call 1 .checkCache, .call 1 .checkInFlight,
      .call 1 (.assertAvailable 0), .task 0 (.synthesized (.error "pocket-tts returned non-OK status 500")),
      .task 0 (.handleFailure 0), .task 0 (.healthCheck false), .task 0 (.healthCheck false),
      .task 0 (.healthCheck false), .task 0 (.healthCheck false), .task 0 (.verdict 0)]
    (fun r => r.nextTask == 1 && r.availability == .cooldown postFailureCooldown &&
      (ttsRuntime.run (PocketTtsRuntime.beforeDeadline postFailureCooldown) r
        [.call 1 .launch, .synthesizePhrase "welcome", .call 2 .checkCache, .task 0 .send, .task 0 .remove,
          .call 2 .checkInFlight, .call 2 (.assertAvailable 5)]).any fun r' => r'.nextTask == 2 &&
            (r'.calls 2).pc == .refused "pocket-tts cooldown is active after runtime failures")
    (by decide)
  obtain ⟨hstart, hany⟩ := Bool.and_eq_true_iff.1 hP
  obtain ⟨htask, hcooldown⟩ := Bool.and_eq_true_iff.1 hstart
  obtain ⟨hsome, hP'⟩ := (Option.any_eq_true_iff_get _ _).1 hany
  obtain ⟨htask', hrefused⟩ := Bool.and_eq_true_iff.1 hP'
  have hsteps := System.Steps.refl.run (Option.some_get hsome).symm
  obtain ⟨havailability, hlaunched, _⟩ := cooldown_launches_nothing hr (eq_of_beq hcooldown) hsteps.reaches
  exact ⟨r, _, hr, eq_of_beq htask, eq_of_beq hrefused, eq_of_beq htask', havailability, hlaunched⟩

end MumbleSip
