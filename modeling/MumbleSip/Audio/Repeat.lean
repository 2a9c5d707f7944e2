import MumbleSip.Audio.Recovery

/-!
# Repeated requests

`synthesize_phrase` does not look at the cache again after it has missed. As long as the entry of a key stays
in `in_flight` its second look finds the task; when a task removes the entry of a key that is cached, a call
that had missed the cache before launches the synthesis once more.
-/

namespace MumbleSip

open Transition

namespace PocketTtsRuntime

variable {r : PocketTtsRuntime} {i t : Nat}

/-- The next step of the call launches a synthesis. -/
def Launches (r : PocketTtsRuntime) (i : Nat) : Prop :=
  r.enabledCall i .launch ∧ r.inFlight.lookup (r.calls i).cacheKey = none

/-- No task removes the entry of a cached key from under a call that has missed the cache. -/
def repeatSafe (r : PocketTtsRuntime) : TtsAction → Bool
  | .task t .remove => r.cache.Cached (r.tasks t).cacheKey → ∀ i < r.nextCall,
      (r.calls i).cacheKey = (r.tasks t).cacheKey → (r.calls i).pc.missed = false
  | _ => true

/-- A call that has missed the cache and not looked at `in_flight` for the second time will find the entry if
the key has been cached since. -/
structure Covered (r : PocketTtsRuntime) : Prop where
  uncalled : ∀ i, r.nextCall ≤ i → (r.calls i).pc = .uncalled
  covered : ∀ i, (r.calls i).pc.missed = true → r.cache.Cached (r.calls i).cacheKey →
    (r.inFlight.lookup (r.calls i).cacheKey).isSome = true

theorem Covered.congr {r' : PocketTtsRuntime} (h : r.Covered) (hcalls : r'.calls = r.calls)
    (hnext : r'.nextCall = r.nextCall) (hinFlight : r'.inFlight = r.inFlight)
    (hcache : ∀ key, r'.cache.Cached key → r.cache.Cached key ∨ (r.inFlight.lookup key).isSome = true) :
    r'.Covered := by
  refine ⟨?_, ?_⟩
  · rw [hcalls, hnext]
    exact h.uncalled
  · rw [hcalls, hinFlight]
    intro i hpc hcached
    exact (hcache _ hcached).elim (h.covered i hpc) id

theorem Covered.setCall (h : r.Covered) {pc : PhrasePc} (hcalled : (r.calls i).pc ≠ .uncalled)
    (hpc : pc.missed = true → (r.calls i).pc.missed = true ∨ ¬r.cache.Cached (r.calls i).cacheKey) :
    (r.setCall i pc).Covered := by
  refine ⟨fun j hj => ?_, fun j hmissed hcached => ?_⟩
  · have hne : j ≠ i := by
      rintro rfl
      exact hcalled (h.uncalled j hj)
    simp only [PocketTtsRuntime.setCall, Function.update_of_ne hne]
    exact h.uncalled j hj
  · by_cases hne : j = i
    · subst j
      simp only [PocketTtsRuntime.setCall, Function.update_self] at hmissed hcached
      rcases hpc hmissed with hold | hnot
      · show (r.inFlight.lookup (Function.update r.calls i _ i).cacheKey).isSome = true
        rw [Function.update_self]
        exact h.covered i hold hcached
      · exact absurd hcached hnot
    · simp only [PocketTtsRuntime.setCall, Function.update_of_ne hne] at hmissed hcached
      show (r.inFlight.lookup (Function.update r.calls i _ j).cacheKey).isSome = true
      rw [Function.update_of_ne hne]
      exact h.covered j hmissed hcached

theorem Covered.unlock (h : r.Covered) : (r.unlock i).Covered := h.congr rfl rfl rfl fun _ => .inl

theorem Covered.cloneResult (h : r.Covered) (hcalled : (r.calls i).pc ≠ .uncalled) {seen : Nat} :
    (r.cloneResult i t seen).Covered := by
  unfold PocketTtsRuntime.cloneResult
  split
  · exact h.setCall hcalled nofun
  · exact h.unlock.setCall hcalled nofun

theorem Covered.launch (h : r.Covered) (hpc : (r.calls i).pc = .launch) : (r.launch i).Covered := by
  have hcalled : (r.calls i).pc ≠ .uncalled := by
    rw [hpc]
    nofun
  unfold PocketTtsRuntime.launch
  split
  · exact h.setCall hcalled nofun
  · have hentry : Covered { r with
        inFlight := r.inFlight.insert (r.calls i).cacheKey r.nextTask
        tasks := Function.update r.tasks r.nextTask
          ⟨(r.calls i).cacheKey, .synthesize, none, .channel .pending⟩
        nextTask := r.nextTask + 1 } := by
      refine ⟨h.uncalled, fun j hmissed hcached => ?_⟩
      show ((r.inFlight.insert _ _).lookup (r.calls j).cacheKey).isSome = true
      rw [FiniteMap.lookup_insert]
      split
      · rfl
      · exact h.covered j hmissed hcached
    exact hentry.setCall hcalled nofun

theorem Covered.stepCall (h : r.Covered) {a : PhraseAction} (hen : r.enabledCall i a) :
    (r.stepCall i a).Covered := by
  cases a with
  | checkCache =>
    have hpc : (r.calls i).pc = .checkCache := hen
    have hcache : Covered { r with cache := (r.cache.get (r.calls i).cacheKey).2 } :=
      h.congr rfl rfl rfl fun key hcached => .inl ((CacheState.cached_get _ _ _).1 hcached)
    apply hcache.setCall
    · show (r.calls i).pc ≠ .uncalled
      rw [hpc]
      intro h
      cases h
    · split
      · intro h
        cases h
      · rename_i hmiss
        intro _
        right
        show ¬(r.cache.get (r.calls i).cacheKey).2.Cached _
        rw [CacheState.cached_get]
        exact CacheState.get_eq_none.1 hmiss
  | checkInFlight =>
    have hpc : (r.calls i).pc = .checkInFlight := hen.1
    have hcalled : (r.calls i).pc ≠ .uncalled := by
      rw [hpc]
      intro h
      cases h
    simp only [PocketTtsRuntime.stepCall, checkInFlight]
    split
    · exact Covered.setCall (r := { r with inFlightLock := some i }) (h.congr rfl rfl rfl fun _ => .inl)
        hcalled (fun h => by cases h)
    · refine h.setCall hcalled fun _ => .inl ?_
      rw [hpc]
      rfl
  | assertAvailable now =>
    have hpc : (r.calls i).pc = .assertAvailable := hen
    have hcalled : (r.calls i).pc ≠ .uncalled := by
      rw [hpc]
      intro h
      cases h
    have hmissed : (r.calls i).pc.missed = true := by
      rw [hpc]
      rfl
    simp only [PocketTtsRuntime.stepCall, assertAvailable]
    split
    · exact h.setCall hcalled fun _ => .inl hmissed
    · exact h.setCall hcalled (fun h => by cases h)
    · split
      · exact Covered.setCall (r := { r with availability := .healthy })
          (h.congr rfl rfl rfl fun _ => .inl) hcalled fun _ => .inl hmissed
      · exact h.setCall hcalled (fun h => by cases h)
  | launch => exact h.launch hen.1
  | borrow =>
    simp only [PocketTtsRuntime.stepCall, PocketTtsRuntime.borrow]
    split
    · rename_i t hpc
      exact h.cloneResult (by rw [hpc]; exact fun h => by cases h)
    · exact h
  | changed =>
    simp only [PocketTtsRuntime.stepCall, PocketTtsRuntime.changed]
    split
    · rename_i t seen hpc
      have hcalled : (r.calls i).pc ≠ .uncalled := by
        rw [hpc]
        intro h
        cases h
      split
      · exact h.cloneResult hcalled
      · exact h.unlock.setCall hcalled (fun h => by cases h)
      · exact h
    · exact h
  | cancel =>
    refine h.unlock.setCall ?_ (fun h => by cases h)
    intro hpc
    rw [enabledCall, show (r.calls i).pc = .uncalled from hpc] at hen
    cases hen

theorem inFlight_of_enabledTask {a : SynthesisAction} (hen : r.enabledTask t a) :
    (r.tasks t).pc.inFlight = true := by
  cases a with
  | synthesized | insertCache | markHealthy | handleFailure | send =>
    simp only [enabledTask] at hen
    rw [hen]
    rfl
  | healthCheck | verdict =>
    simp only [enabledTask] at hen
    cases hpc : (r.tasks t).pc with
    | unspawned | done =>
      rw [hpc] at hen
      cases hen
    | _ => rfl
  | remove =>
    rw [hen.1]
    rfl

/-- What has been cached by a step of a task is its own key. -/
theorem cached_stepTask {a : SynthesisAction} {key : String} (hcached : (r.stepTask t a).cache.Cached key) :
    r.cache.Cached key ∨ key = (r.tasks t).cacheKey := by
  by_cases ha : a = .insertCache
  · subst a
    simp only [stepTask, insertCache] at hcached
    split at hcached
    · by_cases hkey : key = (r.tasks t).cacheKey
      · exact .inr hkey
      · exact .inl (CacheState.cached_insert hkey hcached)
    · exact .inl hcached
  · rw [(taskFrame_stepTask a).cache ha] at hcached
    exact .inl hcached

theorem Covered.remove (h : r.Covered) (hsafe : r.repeatSafe (.task t .remove) = true) :
    (r.remove t).Covered := by
  refine ⟨h.uncalled, fun i hmissed hcached => ?_⟩
  have hsafe := of_decide_eq_true hsafe
  show ((r.inFlight.erase (r.tasks t).cacheKey).lookup (r.calls i).cacheKey).isSome = true
  rw [FiniteMap.lookup_erase]
  split
  · rename_i hkey
    have hlt : i < r.nextCall := by
      by_contra hle
      have hpc : (r.calls i).pc.missed = true := hmissed
      rw [h.uncalled i (Nat.le_of_not_lt hle)] at hpc
      cases hpc
    have hnot := hsafe (hkey ▸ hcached) i hlt hkey
    rw [show (r.calls i).pc.missed = true from hmissed] at hnot
    cases hnot
  · exact h.covered i hmissed hcached

theorem Covered.next (h : r.Covered) (htracked : r.Tracked) {a : TtsAction} (hen : r.enabled a)
    (hsafe : r.repeatSafe a = true) : (r.next a).Covered := by
  cases a with
  | synthesizePhrase phrase =>
    refine ⟨fun i hi => ?_, fun i hmissed hcached => ?_⟩
    · have hlt : r.nextCall < i := hi
      simp only [PocketTtsRuntime.next, synthesizePhrase, Function.update_of_ne (Nat.ne_of_gt hlt)]
      exact h.uncalled i (Nat.le_of_lt hlt)
    · by_cases hne : i = r.nextCall
      · simp only [PocketTtsRuntime.next, synthesizePhrase, hne, Function.update_self] at hmissed
        cases hmissed
      · simp only [PocketTtsRuntime.next, synthesizePhrase, Function.update_of_ne hne] at hmissed hcached
        show (r.inFlight.lookup (Function.update r.calls r.nextCall _ i).cacheKey).isSome = true
        rw [Function.update_of_ne hne]
        exact h.covered i hmissed hcached
  | call i a => exact h.stepCall hen
  | task t a =>
    by_cases ha : a = .remove
    · subst a
      exact h.remove hsafe
    · have hframe := taskFrame_stepTask (r := r) (t := t) a
      apply h.congr hframe.calls hframe.nextCall (hframe.inFlight ha)
      intro key hcached
      apply (cached_stepTask hcached).imp_right
      intro hself
      rw [hself, htracked.tracked t (inFlight_of_enabledTask hen)]
      rfl

/-! ### From an entry removed too early to a second request -/

/-- The call will launch the synthesis of a cached key unless the runtime refuses it. -/
structure Repeating (r : PocketTtsRuntime) (i : Nat) : Prop where
  missed : (r.calls i).pc.missed = true
  unlocked : r.inFlightLock = none
  absent : r.inFlight.lookup (r.calls i).cacheKey = none
  cached : r.cache.Cached (r.calls i).cacheKey

theorem Repeating.congr {r' : PocketTtsRuntime} (h : r.Repeating i) (hcalls : r'.calls = r.calls)
    (hlock : r'.inFlightLock = r.inFlightLock) (hinFlight : r'.inFlight = r.inFlight)
    (hcache : r'.cache = r.cache) : r'.Repeating i := by
  refine ⟨?_, ?_, ?_, ?_⟩
  · rw [hcalls]
    exact h.missed
  · rw [hlock]
    exact h.unlocked
  · rw [hinFlight, hcalls]
    exact h.absent
  · rw [hcache, hcalls]
    exact h.cached

theorem Repeating.setCall (h : r.Repeating i) {pc : PhrasePc} (hpc : pc.missed = true) :
    (r.setCall i pc).Repeating i := by
  have hself : (r.setCall i pc).calls i = { r.calls i with pc := pc } := Function.update_self _ _ _
  refine ⟨?_, h.unlocked, ?_, ?_⟩
  · rw [hself]
    exact hpc
  · rw [hself]
    exact h.absent
  · rw [hself]
    exact h.cached

/-- Some run from here launches the synthesis of the cached key. -/
def CanRepeat (r : PocketTtsRuntime) (i : Nat) : Prop :=
  ∃ r', (ttsRuntime.startingAt r).Reachable r' ∧ r'.Launches i ∧ r'.cache.Cached (r'.calls i).cacheKey

theorem CanRepeat.of_next {a : TtsAction} (hen : r.enabled a) (h : (r.next a).CanRepeat i) :
    r.CanRepeat i := by
  obtain ⟨r', hr', hlaunches⟩ := h
  refine ⟨r', ?_, hlaunches⟩
  exact System.Reaches.trans (T := ttsRuntime.startingAt r)
    (.step (.init rfl) hen trivial) hr'

theorem Repeating.canRepeat_launch (h : r.Repeating i) (hpc : (r.calls i).pc = .launch) :
    r.CanRepeat i :=
  ⟨r, .init rfl, ⟨⟨hpc, h.unlocked⟩, h.absent⟩, h.cached⟩

theorem Repeating.canRepeat_assertAvailable (h : r.Repeating i) (hpc : (r.calls i).pc = .assertAvailable)
    (havailable : r.availability ≠ .recovering) : r.CanRepeat i := by
  have hself : ∀ r' : PocketTtsRuntime, ((r'.setCall i .launch).calls i).pc = .launch := by
    intro r'
    simp only [PocketTtsRuntime.setCall, Function.update_self]
  cases hcase : r.availability with
  | healthy =>
    apply CanRepeat.of_next (a := .call i (.assertAvailable 0)) hpc
    simp only [PocketTtsRuntime.next, stepCall, assertAvailable, hcase]
    exact (h.setCall rfl).canRepeat_launch (hself _)
  | recovering => exact absurd hcase havailable
  | cooldown deadline =>
    apply CanRepeat.of_next (a := .call i (.assertAvailable deadline)) hpc
    simp only [PocketTtsRuntime.next, stepCall, assertAvailable, hcase, if_pos (Nat.le_refl deadline)]
    have hhealthy : Repeating { r with availability := .healthy } i := h.congr rfl rfl rfl rfl
    exact (hhealthy.setCall rfl).canRepeat_launch (hself _)

theorem Repeating.canRepeat_available (h : r.Repeating i) (havailable : r.availability ≠ .recovering) :
    r.CanRepeat i := by
  have hmissed := h.missed
  cases hpc : (r.calls i).pc with
  | checkInFlight =>
    refine CanRepeat.of_next (a := .call i .checkInFlight) ⟨hpc, h.unlocked⟩ ?_
    simp only [PocketTtsRuntime.next, stepCall, checkInFlight, h.absent]
    refine (h.setCall rfl).canRepeat_assertAvailable ?_ havailable
    simp only [PocketTtsRuntime.setCall, Function.update_self]
  | assertAvailable => exact h.canRepeat_assertAvailable hpc havailable
  | launch => exact h.canRepeat_launch hpc
  | _ =>
    rw [hpc] at hmissed
    cases hmissed

theorem Repeating.canRepeat_verdict (h : r.Repeating i) {recovered : Bool}
    (hpc : (r.tasks t).pc = .verdict recovered) : r.CanRepeat i := by
  apply CanRepeat.of_next (a := .task t (.verdict 0))
  · simp only [enabled, enabledTask, hpc]
    rfl
  · simp only [PocketTtsRuntime.next, stepTask, verdict, hpc]
    apply Repeating.canRepeat_available
    · exact h.congr rfl rfl rfl rfl
    · show (if recovered then _ else _) ≠ RuntimeAvailability.recovering
      split <;> exact fun h => by cases h

/-- Whatever the runtime is doing, the call gets to its launch. -/
theorem Repeating.canRepeat (h : r.Repeating i) (hrecovers : r.Recovers) : r.CanRepeat i := by
  by_cases havailable : r.availability = .recovering
  · have hrecovering := hrecovers havailable
    cases hpc : (r.tasks r.recoveringTask).pc with
    | burst attempt =>
      apply CanRepeat.of_next (a := .task r.recoveringTask (.healthCheck true))
      · simp only [enabled, enabledTask, hpc]
        rfl
      · simp only [PocketTtsRuntime.next, stepTask, healthCheck, hpc, if_pos]
        have hverdict : ((r.goto r.recoveringTask (.verdict true)).tasks r.recoveringTask).pc
            = .verdict true := by
          simp only [goto, setTask, Function.update_self]
        have hgoto : (r.goto r.recoveringTask (.verdict true)).Repeating i := h.congr rfl rfl rfl rfl
        exact hgoto.canRepeat_verdict hverdict
    | verdict recovered => exact h.canRepeat_verdict hpc
    | _ =>
      rw [hpc] at hrecovering
      cases hrecovering
  · exact h.canRepeat_available havailable

end PocketTtsRuntime

/-- The steps of a run in which no task removes the entry of a cached key from under a call that has missed
the cache. -/
def removesUnobserved (r : PocketTtsRuntime) (a : TtsAction) : Prop := r.repeatSafe a = true

instance (r : PocketTtsRuntime) (a : TtsAction) : Decidable (removesUnobserved r a) :=
  inferInstanceAs (Decidable (_ = _))

/-- No synthesis of a cached key is launched. When a task removes the entry of a cached key from under a call
that has missed the cache, that call can go on to launch one. -/
theorem cached_not_requested {r : PocketTtsRuntime} (hs : ttsRuntime.Reaches removesUnobserved r) :
    (∀ i, r.Launches i → ¬r.cache.Cached (r.calls i).cacheKey) ∧
    ∀ t, r.enabled (.task t .remove) → ¬removesUnobserved r (.task t .remove) →
      ∃ i r', (ttsRuntime.startingAt (r.next (.task t .remove))).Reachable r' ∧ r'.Launches i ∧
        r'.cache.Cached (r'.calls i).cacheKey := by
  have htracked := PocketTtsRuntime.reaches_tracked hs
  have hcovered : r.Covered := by
    apply hs.invariant (I := PocketTtsRuntime.Covered)
    · rintro r ⟨voice, sampleRate, rfl⟩
      exact ⟨fun _ _ => rfl, fun _ hmissed => by cases hmissed⟩
    · intro r a hs h hen hsafe
      exact h.next (PocketTtsRuntime.reaches_tracked hs) hen hsafe
  refine ⟨fun i hlaunches hcached => ?_, fun t hen hbroken => ?_⟩
  · have hmissed : (r.calls i).pc.missed = true := by
      rw [show (r.calls i).pc = .launch from hlaunches.1.1]
      rfl
    have hentry := hcovered.covered i hmissed hcached
    rw [hlaunches.2] at hentry
    cases hentry
  · simp only [removesUnobserved, PocketTtsRuntime.repeatSafe, decide_eq_true_eq, not_forall] at hbroken
    obtain ⟨hcached, i, _, hkey, hmissed⟩ := hbroken
    have hrepeating : (r.next (.task t .remove)).Repeating i := by
      refine ⟨Bool.eq_true_of_not_eq_false hmissed, hen.2, ?_, ?_⟩
      · show (r.inFlight.erase (r.tasks t).cacheKey).lookup (r.calls i).cacheKey = none
        rw [FiniteMap.lookup_erase, if_pos hkey]
      · show r.cache.Cached (r.calls i).cacheKey
        rw [hkey]
        exact hcached
    have hrecovers := (PocketTtsRuntime.reaches_recovers hs).next htracked hen
    exact ⟨i, hrepeating.canRepeat hrecovers⟩

/-- The first caller of a phrase, up to the end of its synthesis. -/
def synthesizeOnce : List TtsAction :=
  [.call 0 .checkInFlight, .call 0 (.assertAvailable 0), .call 0 .launch,
    .task 0 (.synthesized (.ok [10, 20, 30, 40])), .task 0 .insertCache, .task 0 .markHealthy, .task 0 .send,
    .task 0 .remove]

/-- A second caller of the phrase, once it is cached, and a caller of another phrase. -/
theorem cached_not_requested_hit : ∃ r, ttsRuntime.Reaches removesUnobserved r ∧
    r.cache.Cached (r.cacheKey "dedupe phrase") ∧ (r.calls 1).pc = .hit [10, 20, 30, 40] ∧
    r.Launches 2 ∧ ¬r.cache.Cached (r.calls 2).cacheKey := by
  obtain ⟨r, hr, hP⟩ := System.exists_reaches_of_run ttsRuntime removesUnobserved
    (s := .new "eponine" 48000) ⟨_, _, rfl⟩
    ([.synthesizePhrase "dedupe phrase", .call 0 .checkCache] ++ synthesizeOnce ++
      [.synthesizePhrase "dedupe phrase", .call 1 .checkCache, .synthesizePhrase "another phrase",
        .call 2 .checkCache, .call 2 .checkInFlight, .call 2 (.assertAvailable 0)])
    (fun r => r.cache.Cached (r.cacheKey "dedupe phrase") ∧ (r.calls 1).pc = .hit [10, 20, 30, 40] ∧
      (r.calls 2).pc = .launch ∧ r.inFlightLock = none ∧ r.inFlight.lookup (r.calls 2).cacheKey = none)
    (by decide)
  obtain ⟨hcached, hhit, hpc, hlock, habsent⟩ := of_decide_eq_true hP
  have hlaunches : r.Launches 2 := ⟨⟨hpc, hlock⟩, habsent⟩
  exact ⟨r, hr, hcached, hhit, hlaunches, (cached_not_requested hr).1 2 hlaunches⟩

/-- A second caller misses the cache before the first one's synthesis ends, looks at `in_flight` after, and
launches the synthesis of a phrase that is cached. -/
theorem cached_requested : ¬∀ r, ttsRuntime.Reachable r →
    ∀ i, r.Launches i → ¬r.cache.Cached (r.calls i).cacheKey := by
  intro hclaim
  obtain ⟨r, hr, hP⟩ := System.exists_reaches_of_run ttsRuntime System.anyStep
    (s := .new "eponine" 48000) ⟨_, _, rfl⟩
    ([.synthesizePhrase "dedupe phrase", .synthesizePhrase "dedupe phrase", .call 0 .checkCache,
      .call 1 .checkCache] ++ synthesizeOnce ++ [.call 1 .checkInFlight, .call 1 (.assertAvailable 0)])
    (fun r => (r.calls 1).pc = .launch ∧ r.inFlightLock = none ∧
      r.inFlight.lookup (r.calls 1).cacheKey = none ∧ r.cache.Cached (r.calls 1).cacheKey)
    (by decide)
  obtain ⟨hpc, hlock, habsent, hcached⟩ := of_decide_eq_true hP
  exact hclaim r hr 1 ⟨⟨hpc, hlock⟩, habsent⟩ hcached

end MumbleSip
