import MumbleSip.Audio.Tts

/-!
# In-flight exclusivity

A key has an entry in `in_flight` from the launch of its synthesis until the task removes it, so the entry
names the only task of the key that has not. Whoever waits on a channel waits on a task of its key, and has
seen no version of it: once the result has been sent, the next thing the waiter does is return it.
-/

namespace MumbleSip

open Transition

/-- The result and the channel of a task, from where the task is. -/
def SynthesisTask.Sound (task : SynthesisTask) : Prop :=
  match task.pc with
  | .unspawned => True
  | .synthesize => task.result = none ∧ task.channel = .channel .pending
  | .insertCache => (∃ pcm, task.result = some (.ok pcm)) ∧ task.channel = .channel .pending
  | .markHealthy | .handleFailure | .burst _ | .verdict _ | .send =>
    (∃ result, task.result = some result) ∧ task.channel = .channel .pending
  | .remove => ∃ result, task.result = some result ∧
      task.channel = (Watch.channel .pending).send (.ready result)
  | .done => ∃ result, task.result = some result ∧
      task.channel = ((Watch.channel .pending).send (.ready result)).close

/-- The task has sent its result. -/
def SynthesisPc.sent : SynthesisPc → Bool
  | .remove | .done => true
  | _ => false

/-- A receiver that has seen nothing of a channel whose task has sent its result is told so. -/
theorem SynthesisTask.Sound.sent {task : SynthesisTask} (h : task.Sound) (hsent : task.pc.sent = true) :
    ∃ result, task.result = some result ∧ task.channel.value = .ready result ∧
      task.channel.changed 0 = some (.version 1) := by
  unfold Sound at h
  cases hpc : task.pc with
  | remove =>
    rw [hpc] at h
    obtain ⟨result, hresult, hchannel⟩ := h
    rw [hchannel]
    exact ⟨result, hresult, rfl, Watch.changed_send (Nat.zero_le _) _⟩
  | done =>
    rw [hpc] at h
    obtain ⟨result, hresult, hchannel⟩ := h
    rw [hchannel]
    exact ⟨result, hresult, rfl, Watch.changed_close (Watch.changed_send (Nat.zero_le _) _)⟩
  | _ =>
    rw [hpc] at hsent
    cases hsent

theorem SynthesisTask.Sound.unsent {task : SynthesisTask} (h : task.Sound) (hsent : task.pc.sent = false)
    (hspawned : task.pc ≠ .unspawned) : task.channel = .channel .pending := by
  unfold Sound at h
  cases hpc : task.pc with
  | unspawned => exact absurd hpc hspawned
  | remove | done =>
    rw [hpc] at hsent
    cases hsent
  | _ =>
    rw [hpc] at h
    exact h.2

namespace PocketTtsRuntime

variable {r r' : PocketTtsRuntime} {i t : Nat} {pc : PhrasePc} {task : SynthesisTask}

/-- A task of the key has been spawned under this number. -/
def Spawned (r : PocketTtsRuntime) (key : String) (t : Nat) : Prop :=
  (r.tasks t).pc ≠ .unspawned ∧ (r.tasks t).cacheKey = key

/-- What a call knows of the task it waits on, or has waited on. -/
def Waits (r : PocketTtsRuntime) (call : PhraseCall) : Prop :=
  match call.pc with
  | .borrow t => r.Spawned call.cacheKey t
  | .changed t seen => r.Spawned call.cacheKey t ∧ seen = 0
  | .answered t result => r.Spawned call.cacheKey t ∧ (r.tasks t).result = some result
  | _ => True

structure Tracked (r : PocketTtsRuntime) : Prop where
  fresh : ∀ t, r.nextTask ≤ t → (r.tasks t).pc = .unspawned
  sound : ∀ t, (r.tasks t).Sound
  entry : ∀ key t, r.inFlight.lookup key = some t →
    (r.tasks t).cacheKey = key ∧ (r.tasks t).pc.inFlight = true
  tracked : ∀ t, (r.tasks t).pc.inFlight = true → r.inFlight.lookup (r.tasks t).cacheKey = some t
  waits : ∀ i, r.Waits (r.calls i)

theorem tracked_new (voice : String) (sampleRate : UInt32) : (new voice sampleRate).Tracked where
  fresh _ _ := rfl
  sound _ := trivial
  entry key t h := by cases h
  tracked t h := by cases h
  waits _ := trivial

theorem Tracked.congr (h : r.Tracked) (hcalls : r'.calls = r.calls) (htasks : r'.tasks = r.tasks)
    (hnext : r'.nextTask = r.nextTask) (hinFlight : r'.inFlight = r.inFlight) : r'.Tracked := by
  refine ⟨?_, ?_, ?_, ?_, ?_⟩
  · rw [hnext, htasks]
    exact h.fresh
  · rw [htasks]
    exact h.sound
  · rw [hinFlight, htasks]
    exact h.entry
  · rw [hinFlight, htasks]
    exact h.tracked
  · rw [hcalls]
    intro i
    have hwaits := h.waits i
    unfold Waits Spawned at hwaits ⊢
    rw [htasks]
    exact hwaits

theorem Tracked.cache (h : r.Tracked) (cache : CacheState) : Tracked { r with cache := cache } :=
  h.congr rfl rfl rfl rfl

theorem Tracked.availability (h : r.Tracked) (availability : RuntimeAvailability) (recoveringTask : Nat) :
    Tracked { r with availability := availability, recoveringTask := recoveringTask } :=
  h.congr rfl rfl rfl rfl

theorem Tracked.inFlightLock (h : r.Tracked) (lock : Option Nat) :
    Tracked { r with inFlightLock := lock } :=
  h.congr rfl rfl rfl rfl

theorem Tracked.setCall (h : r.Tracked) (hwaits : r.Waits ⟨(r.calls i).cacheKey, pc⟩) :
    (r.setCall i pc).Tracked := by
  refine ⟨h.fresh, h.sound, h.entry, h.tracked, fun j => ?_⟩
  by_cases hj : j = i
  · subst j
    simp only [PocketTtsRuntime.setCall, Function.update_self]
    exact hwaits
  · simp only [PocketTtsRuntime.setCall, Function.update_of_ne hj]
    exact h.waits j

/-- A task that has been spawned keeps its key and its result. -/
def Keeps (r r' : PocketTtsRuntime) : Prop :=
  ∀ t, (r.tasks t).pc ≠ .unspawned → (r'.tasks t).pc ≠ .unspawned ∧
    (r'.tasks t).cacheKey = (r.tasks t).cacheKey ∧
      ∀ result, (r.tasks t).result = some result → (r'.tasks t).result = some result

theorem Waits.keeps {call : PhraseCall} (h : r.Waits call) (hkeeps : r.Keeps r') : r'.Waits call := by
  have hspawned : ∀ t, r.Spawned call.cacheKey t → r'.Spawned call.cacheKey t := by
    intro t ht
    obtain ⟨hpc, hkey, _⟩ := hkeeps t ht.1
    exact ⟨hpc, hkey.trans ht.2⟩
  unfold Waits at h ⊢
  split
  · rename_i t hpc
    rw [hpc] at h
    exact hspawned t h
  · rename_i t seen hpc
    rw [hpc] at h
    exact ⟨hspawned t h.1, h.2⟩
  · rename_i t result hpc
    rw [hpc] at h
    exact ⟨hspawned t h.1, (hkeeps t h.1.1).2.2 result h.2⟩
  · trivial

theorem inFlight_ne_unspawned {pc : SynthesisPc} (h : pc.inFlight = true) : pc ≠ .unspawned := by
  rintro rfl
  cases h

theorem Tracked.setTask (h : r.Tracked) (hpc : (r.tasks t).pc.inFlight = true)
    (hkey : task.cacheKey = (r.tasks t).cacheKey) (hpc' : task.pc.inFlight = true) (hsound : task.Sound)
    (hresult : ∀ result, (r.tasks t).result = some result → task.result = some result) :
    (r.setTask t task).Tracked := by
  have hself : (r.setTask t task).tasks t = task := Function.update_self _ _ _
  have hother : ∀ t', t' ≠ t → (r.setTask t task).tasks t' = r.tasks t' := fun t' ht' =>
    Function.update_of_ne ht' _ _
  have hkeeps : r.Keeps (r.setTask t task) := by
    intro t' hspawned
    by_cases ht' : t' = t
    · subst t'
      rw [hself]
      exact ⟨inFlight_ne_unspawned hpc', hkey, hresult⟩
    · rw [hother t' ht']
      exact ⟨hspawned, rfl, fun _ hres => hres⟩
  refine ⟨fun t' ht' => ?_, fun t' => ?_, fun key t' hentry => ?_, fun t' ht' => ?_,
    fun i => (h.waits i).keeps hkeeps⟩
  · by_cases heq : t' = t
    · rw [heq] at ht'
      exact absurd (h.fresh t ht') (inFlight_ne_unspawned hpc)
    · rw [hother t' heq]
      exact h.fresh t' ht'
  · by_cases heq : t' = t
    · rw [heq, hself]
      exact hsound
    · rw [hother t' heq]
      exact h.sound t'
  · by_cases heq : t' = t
    · rw [heq] at hentry ⊢
      rw [hself]
      exact ⟨hkey.trans (h.entry key t hentry).1, hpc'⟩
    · rw [hother t' heq]
      exact h.entry key t' hentry
  · by_cases heq : t' = t
    · rw [heq, hself, hkey]
      exact h.tracked t hpc
    · rw [hother t' heq] at ht' ⊢
      exact h.tracked t' ht'

theorem Tracked.goto (h : r.Tracked) {pc : SynthesisPc} (hpc : (r.tasks t).pc.inFlight = true)
    (hpc' : pc.inFlight = true) (hsound : SynthesisTask.Sound { r.tasks t with pc := pc }) :
    (r.goto t pc).Tracked :=
  h.setTask hpc rfl hpc' hsound fun _ hres => hres

/-! ### The calls -/

/-- The second look at `in_flight` finds no entry, so no task of the key is in flight. -/
theorem Tracked.launch (h : r.Tracked) : (r.launch i).Tracked := by
  unfold PocketTtsRuntime.launch
  split
  · rename_i t hentry
    obtain ⟨hkey, hpc⟩ := h.entry _ t hentry
    exact h.setCall ⟨inFlight_ne_unspawned hpc, hkey⟩
  · rename_i hnone
    have hfresh := h.fresh r.nextTask (Nat.le_refl _)
    have hne : ∀ t, (r.tasks t).pc ≠ .unspawned → t ≠ r.nextTask := by
      rintro t ht rfl
      exact ht hfresh
    refine Tracked.setCall ⟨fun t ht => ?_, fun t => ?_, fun key t hentry => ?_, fun t ht => ?_,
      fun j => (h.waits j).keeps fun t ht => ?_⟩ ?_
    · have hlt : r.nextTask < t := ht
      simp only [Function.update_of_ne (Nat.ne_of_gt hlt)]
      exact h.fresh t (Nat.le_of_lt hlt)
    · by_cases heq : t = r.nextTask
      · simp only [heq, Function.update_self]
        exact ⟨rfl, rfl⟩
      · simp only [Function.update_of_ne heq]
        exact h.sound t
    · simp only [FiniteMap.lookup_insert] at hentry
      split at hentry
      · rename_i hkey
        rw [← Option.some.inj hentry, hkey]
        simp only [Function.update_self]
        exact ⟨trivial, rfl⟩
      · have hold := h.entry key t hentry
        simp only [Function.update_of_ne (hne t (inFlight_ne_unspawned hold.2))]
        exact hold
    · by_cases heq : t = r.nextTask
      · simp only [heq, Function.update_self, FiniteMap.lookup_insert, if_pos]
      · simp only [Function.update_of_ne heq] at ht
        have hold := h.tracked t ht
        show (r.inFlight.insert _ _).lookup (Function.update r.tasks r.nextTask _ t).cacheKey = some t
        rw [Function.update_of_ne heq, FiniteMap.lookup_insert, if_neg]
        · exact hold
        · intro hkey
          rw [hkey, hnone] at hold
          cases hold
    · simp only [Function.update_of_ne (hne t ht)]
      exact ⟨ht, trivial, fun _ hres => hres⟩
    · refine ⟨?_, ?_⟩ <;> simp only [Function.update_self]
      · nofun

theorem Tracked.unlock (h : r.Tracked) : (r.unlock i).Tracked := h.inFlightLock _

theorem Tracked.sent_of_ready (h : r.Tracked) (hspawned : (r.tasks t).pc ≠ .unspawned) {result : Synthesis}
    (hvalue : (r.tasks t).channel.value = .ready result) : (r.tasks t).pc.sent = true := by
  cases hsent : (r.tasks t).pc.sent with
  | true => rfl
  | false =>
    rw [(h.sound t).unsent hsent hspawned] at hvalue
    cases hvalue

theorem Tracked.cloneResult (h : r.Tracked) (hspawned : r.Spawned (r.calls i).cacheKey t) {seen : Nat}
    (hseen : (r.tasks t).pc.sent = false → seen = 0) : (r.cloneResult i t seen).Tracked := by
  unfold PocketTtsRuntime.cloneResult
  split
  · rename_i hvalue
    refine h.setCall ⟨hspawned, hseen ?_⟩
    by_contra hsent
    obtain ⟨result, _, hready, _⟩ := (h.sound t).sent (Bool.eq_true_of_not_eq_false hsent)
    rw [hvalue] at hready
    cases hready
  · rename_i result hvalue
    obtain ⟨result', hresult, hready, _⟩ := (h.sound t).sent (h.sent_of_ready hspawned.1 hvalue)
    rw [hvalue] at hready
    cases hready
    exact h.unlock.setCall ⟨hspawned, hresult⟩

/-- A waiter is woken by the version its task has sent, and never by the end of the channel. -/
theorem Tracked.changed_eq (h : r.Tracked) (hspawned : (r.tasks t).pc ≠ .unspawned) {change : Watch.Change}
    (hchanged : (r.tasks t).channel.changed 0 = some change) :
    (r.tasks t).pc.sent = true ∧ change = .version 1 := by
  cases hsent : (r.tasks t).pc.sent with
  | true =>
    obtain ⟨_, _, _, hversion⟩ := (h.sound t).sent hsent
    rw [hversion] at hchanged
    exact ⟨rfl, (Option.some.inj hchanged).symm⟩
  | false =>
    rw [(h.sound t).unsent hsent hspawned, Watch.changed_channel] at hchanged
    cases hchanged

theorem Tracked.stepCall (h : r.Tracked) {a : PhraseAction} (hen : r.enabledCall i a) :
    (r.stepCall i a).Tracked := by
  cases a with
  | checkCache =>
    apply (h.cache _).setCall
    split <;> trivial
  | checkInFlight =>
    simp only [PocketTtsRuntime.stepCall, checkInFlight]
    split
    · rename_i t hentry
      obtain ⟨hkey, hpc⟩ := h.entry _ t hentry
      exact (h.inFlightLock _).setCall ⟨inFlight_ne_unspawned hpc, hkey⟩
    · exact h.setCall trivial
  | assertAvailable now =>
    simp only [PocketTtsRuntime.stepCall, assertAvailable]
    split
    · exact h.setCall trivial
    · exact h.setCall trivial
    · split
      · exact (h.availability _ _).setCall trivial
      · exact h.setCall trivial
  | launch => exact h.launch
  | borrow =>
    simp only [PocketTtsRuntime.stepCall, PocketTtsRuntime.borrow]
    split
    · rename_i t hpc
      have hwaits := h.waits i
      unfold Waits at hwaits
      rw [hpc] at hwaits
      exact h.cloneResult hwaits fun _ => rfl
    · exact h
  | changed =>
    simp only [PocketTtsRuntime.stepCall, PocketTtsRuntime.changed]
    split
    · rename_i t seen hpc
      have hwaits := h.waits i
      unfold Waits at hwaits
      rw [hpc] at hwaits
      obtain ⟨hspawned, hseen⟩ := hwaits
      subst seen
      split
      · rename_i version hchanged
        obtain ⟨hsent, _⟩ := h.changed_eq hspawned.1 hchanged
        exact h.cloneResult hspawned fun hnot => by rw [hsent] at hnot; cases hnot
      · rename_i hchanged
        obtain ⟨_, heq⟩ := h.changed_eq hspawned.1 hchanged
        cases heq
      · exact h
    · exact h
  | cancel => exact h.unlock.setCall trivial

/-! ### The tasks -/

/-- The entry a task removes is its own. -/
theorem Tracked.remove (h : r.Tracked) (hpc : (r.tasks t).pc = .remove) : (r.remove t).Tracked := by
  have hin : (r.tasks t).pc.inFlight = true := by rw [hpc]; rfl
  have hself : (r.remove t).tasks t = { r.tasks t with pc := .done, channel := (r.tasks t).channel.close } :=
    Function.update_self _ _ _
  have hother : ∀ t', t' ≠ t → (r.remove t).tasks t' = r.tasks t' := fun t' ht' =>
    Function.update_of_ne ht' _ _
  have hinFlight : ∀ key, (r.remove t).inFlight.lookup key
      = if key = (r.tasks t).cacheKey then none else r.inFlight.lookup key :=
    FiniteMap.lookup_erase _ _
  refine ⟨fun t' ht' => ?_, fun t' => ?_, fun key t' hentry => ?_, fun t' ht' => ?_,
    fun i => (h.waits i).keeps fun t' hspawned => ?_⟩
  · by_cases heq : t' = t
    · rw [heq] at ht'
      exact absurd (h.fresh t ht') (inFlight_ne_unspawned hin)
    · rw [hother t' heq]
      exact h.fresh t' ht'
  · by_cases heq : t' = t
    · have hsound := h.sound t
      unfold SynthesisTask.Sound at hsound
      rw [hpc] at hsound
      obtain ⟨result, hresult, hchannel⟩ := hsound
      rw [heq, hself]
      exact ⟨result, hresult, by rw [hchannel]⟩
    · rw [hother t' heq]
      exact h.sound t'
  · rw [hinFlight] at hentry
    split at hentry
    · cases hentry
    · rename_i hkey
      have hold := h.entry key t' hentry
      rw [hother t']
      · exact hold
      · rintro rfl
        exact hkey hold.1.symm
  · have hne : t' ≠ t := by
      rintro rfl
      rw [hself] at ht'
      cases ht'
    rw [hother t' hne] at ht' ⊢
    have hold := h.tracked t' ht'
    rw [hinFlight, if_neg]
    · exact hold
    · intro hkey
      -- both tasks would be the one of the entry
      rw [hkey, h.tracked t hin] at hold
      exact hne (Option.some.inj hold).symm
  · by_cases heq : t' = t
    · subst t'
      rw [hself]
      exact ⟨nofun, rfl, fun _ hres => hres⟩
    · rw [hother t' heq]
      exact ⟨hspawned, rfl, fun _ hres => hres⟩

theorem Tracked.gotoUnsent (h : r.Tracked) {pc pc' : SynthesisPc} (hpc : (r.tasks t).pc = pc)
    (hunsent : pc.publishing = true) (hsome : ∃ result, (r.tasks t).result = some result)
    (hpc' : pc' = .markHealthy ∨ pc'.recovering = true ∨ pc' = .send) : (r.goto t pc').Tracked := by
  have hin : (r.tasks t).pc.inFlight = true := by
    rw [hpc]
    cases pc <;> first | rfl | cases hunsent
  have hchannel : (r.tasks t).channel = .channel .pending := by
    refine (h.sound t).unsent ?_ (inFlight_ne_unspawned hin)
    rw [hpc]
    cases pc <;> first | rfl | cases hunsent
  apply h.goto hin
  · rcases hpc' with rfl | hpc' | rfl
    · rfl
    · cases pc' <;> first | rfl | cases hpc'
    · rfl
  · rcases hpc' with rfl | hpc' | rfl
    · exact ⟨hsome, hchannel⟩
    · cases pc' <;> first | exact ⟨hsome, hchannel⟩ | cases hpc'
    · exact ⟨hsome, hchannel⟩

theorem Tracked.result (h : r.Tracked) {pc : SynthesisPc} (hpc : (r.tasks t).pc = pc)
    (hpublishing : pc.publishing = true) (hne : pc ≠ .synthesize) :
    ∃ result, (r.tasks t).result = some result := by
  have hsound := h.sound t
  unfold SynthesisTask.Sound at hsound
  rw [hpc] at hsound
  cases pc with
  | synthesize => exact absurd rfl hne
  | unspawned | remove | done => cases hpublishing
  | insertCache =>
    obtain ⟨pcm, hresult⟩ := hsound.1
    exact ⟨_, hresult⟩
  | _ => exact hsound.1

theorem Tracked.stepTask (h : r.Tracked) {a : SynthesisAction} (hen : r.enabledTask t a) :
    (r.stepTask t a).Tracked := by
  cases a with
  | synthesized result =>
    have hpc : (r.tasks t).pc = .synthesize := hen
    have hsound := h.sound t
    unfold SynthesisTask.Sound at hsound
    rw [hpc] at hsound
    obtain ⟨hnone, hchannel⟩ := hsound
    refine h.setTask (by rw [hpc]; rfl) rfl ?_ ?_ fun res hres => ?_
    · cases result <;> rfl
    · cases result with
      | ok pcm => exact ⟨⟨pcm, rfl⟩, hchannel⟩
      | error text => exact ⟨⟨_, rfl⟩, hchannel⟩
    · rw [hnone] at hres
      cases hres
  | insertCache =>
    have hpc : (r.tasks t).pc = .insertCache := hen
    simp only [PocketTtsRuntime.stepTask, PocketTtsRuntime.insertCache]
    split
    · exact (h.cache _).gotoUnsent hpc rfl (h.result hpc rfl nofun) (.inl rfl)
    · exact h
  | markHealthy =>
    have hpc : (r.tasks t).pc = .markHealthy := hen
    exact (h.availability .healthy r.recoveringTask).gotoUnsent hpc rfl (h.result hpc rfl nofun)
      (.inr (.inr rfl))
  | handleFailure now =>
    have hpc : (r.tasks t).pc = .handleFailure := hen
    have hstart : (r.startRecovery t).Tracked :=
      (h.availability .recovering t).gotoUnsent hpc rfl (h.result hpc rfl nofun) (.inr (.inl rfl))
    have hskip : (r.goto t .send).Tracked :=
      h.gotoUnsent hpc rfl (h.result hpc rfl nofun) (.inr (.inr rfl))
    simp only [PocketTtsRuntime.stepTask, PocketTtsRuntime.handleFailure]
    split
    · exact hstart
    · exact hskip
    · split
      · exact hstart
      · exact hskip
  | healthCheck ok =>
    simp only [PocketTtsRuntime.stepTask, PocketTtsRuntime.healthCheck]
    split
    · rename_i attempt hpc
      have hresult := h.result hpc rfl nofun
      split
      · exact h.gotoUnsent hpc rfl hresult (.inr (.inl rfl))
      · split
        · exact h.gotoUnsent hpc rfl hresult (.inr (.inl rfl))
        · exact h.gotoUnsent hpc rfl hresult (.inr (.inl rfl))
    · exact h
  | verdict now =>
    simp only [PocketTtsRuntime.stepTask, PocketTtsRuntime.verdict]
    split
    · rename_i recovered hpc
      exact (h.availability _ _).gotoUnsent hpc rfl (h.result hpc rfl nofun) (.inr (.inr rfl))
    · exact h
  | send =>
    have hpc : (r.tasks t).pc = .send := hen
    have hchannel : (r.tasks t).channel = .channel .pending :=
      (h.sound t).unsent (by rw [hpc]; rfl) (by rw [hpc]; nofun)
    simp only [PocketTtsRuntime.stepTask, PocketTtsRuntime.send]
    split
    · rename_i result hresult
      refine h.setTask (by rw [hpc]; rfl) rfl rfl ⟨result, hresult, ?_⟩ fun _ hres => hres
      dsimp only
      rw [hchannel]
    · exact h
  | remove => exact h.remove hen.1

theorem Tracked.next (h : r.Tracked) {a : TtsAction} (hen : r.enabled a) : (r.next a).Tracked := by
  cases a with
  | synthesizePhrase phrase =>
    refine ⟨h.fresh, h.sound, h.entry, h.tracked, fun i => ?_⟩
    by_cases hi : i = r.nextCall
    · simp only [PocketTtsRuntime.next, synthesizePhrase, hi, Function.update_self]
      trivial
    · simp only [PocketTtsRuntime.next, synthesizePhrase, Function.update_of_ne hi]
      exact h.waits i
  | call i a => exact h.stepCall hen
  | task t a => exact h.stepTask hen

/-- Two tasks of one key that have not removed their entries are one. -/
theorem Tracked.exclusive (h : r.Tracked) {t t' : Nat} (ht : (r.tasks t).pc.inFlight = true)
    (ht' : (r.tasks t').pc.inFlight = true) (hkey : (r.tasks t).cacheKey = (r.tasks t').cacheKey) :
    t = t' := by
  have hentry := h.tracked t ht
  rw [hkey, h.tracked t' ht'] at hentry
  exact (Option.some.inj hentry).symm

/-- The next step of a call that waits on a task which has sent its result. -/
def wakeUp : PhrasePc → PhraseAction
  | .borrow _ => .borrow
  | _ => .changed

/-- The step is there to be taken, and returns the result to the call. -/
def CanReturn (r : PocketTtsRuntime) (i t : Nat) : Prop :=
  r.enabledCall i (wakeUp (r.calls i).pc) ∧ ∃ result, (r.tasks t).result = some result ∧
    ((r.stepCall i (wakeUp (r.calls i).pc)).calls i).pc = .answered t result

theorem Tracked.canReturn (h : r.Tracked) (hwaitsOn : (r.calls i).pc.waitsOn = some t)
    (hsent : (r.tasks t).pc.sent = true) : r.CanReturn i t := by
  obtain ⟨result, hresult, hvalue, hchanged⟩ := (h.sound t).sent hsent
  have hwaits := h.waits i
  unfold Waits at hwaits
  unfold CanReturn
  cases hpc : (r.calls i).pc with
  | borrow t' =>
    have heq : t' = t := by
      rw [hpc] at hwaitsOn
      exact Option.some.inj hwaitsOn
    subst t'
    refine ⟨?_, result, hresult, ?_⟩
    · simp only [wakeUp, enabledCall, hpc]
      rfl
    · simp only [wakeUp, PocketTtsRuntime.stepCall, borrow, hpc, PocketTtsRuntime.cloneResult, hvalue,
        PocketTtsRuntime.setCall, Function.update_self]
  | changed t' seen =>
    have heq : t' = t := by
      rw [hpc] at hwaitsOn
      exact Option.some.inj hwaitsOn
    subst t'
    rw [hpc] at hwaits
    obtain ⟨_, hseen⟩ := hwaits
    subst seen
    refine ⟨?_, result, hresult, ?_⟩
    · simp only [wakeUp, enabledCall, hpc, hasChanged, hchanged]
      rfl
    · simp only [wakeUp, PocketTtsRuntime.stepCall, changed, hpc, hchanged, PocketTtsRuntime.cloneResult,
        hvalue, PocketTtsRuntime.setCall, Function.update_self]
  | _ =>
    rw [hpc] at hwaitsOn
    cases hwaitsOn

theorem reaches_tracked {ok : PocketTtsRuntime → TtsAction → Prop} (hs : ttsRuntime.Reaches ok r) :
    r.Tracked := by
  apply hs.invariant (I := Tracked)
  · rintro r ⟨voice, sampleRate, rfl⟩
    exact tracked_new voice sampleRate
  · intro r a _ h hen _
    exact h.next hen

end PocketTtsRuntime

/-- One synthesis of a key at a time is running or about to publish its result; an entry of `in_flight` names
the task of its key that has not removed it; who has waited on a channel returns the result of a synthesis of
its key; and who still waits when the result has been sent can return it. -/
theorem in_flight_exclusive {r : PocketTtsRuntime} (hs : ttsRuntime.Reachable r) :
    (∀ t t', (r.tasks t).pc.publishing = true → (r.tasks t').pc.publishing = true →
      (r.tasks t).cacheKey = (r.tasks t').cacheKey → t = t') ∧
    (∀ key t, r.inFlight.lookup key = some t →
      (r.tasks t).cacheKey = key ∧ (r.tasks t).pc.inFlight = true) ∧
    (∀ i t result, (r.calls i).pc = .answered t result →
      (r.tasks t).cacheKey = (r.calls i).cacheKey ∧ (r.tasks t).result = some result) ∧
    ∀ i t, (r.calls i).pc.waitsOn = some t → (r.tasks t).cacheKey = (r.calls i).cacheKey ∧
      ((r.tasks t).pc.sent = true → r.CanReturn i t) := by
  have h := PocketTtsRuntime.reaches_tracked hs
  have hpublishing : ∀ t, (r.tasks t).pc.publishing = true → (r.tasks t).pc.inFlight = true := by
    intro t ht
    cases hpc : (r.tasks t).pc <;> first | rfl | (rw [hpc] at ht; cases ht)
  refine ⟨fun t t' ht ht' hkey => h.exclusive (hpublishing t ht) (hpublishing t' ht') hkey, h.entry,
    fun i t result hpc => ?_, fun i t hwaitsOn => ⟨?_, h.canReturn hwaitsOn⟩⟩
  · have hwaits := h.waits i
    unfold PocketTtsRuntime.Waits at hwaits
    rw [hpc] at hwaits
    exact ⟨hwaits.1.2, hwaits.2⟩
  · have hwaits := h.waits i
    unfold PocketTtsRuntime.Waits at hwaits
    cases hpc : (r.calls i).pc with
    | borrow t' =>
      rw [hpc] at hwaitsOn hwaits
      cases hwaitsOn
      exact hwaits.2
    | changed t' seen =>
      rw [hpc] at hwaitsOn hwaits
      cases hwaitsOn
      exact hwaits.1.2
    | _ =>
      rw [hpc] at hwaitsOn
      cases hwaitsOn

/-- Two callers of one phrase: the second waits with the lock on `in_flight` in its hands, and the result has
been sent. -/
theorem in_flight_exclusive_shared : ∃ r, ttsRuntime.Reachable r ∧
    (r.calls 0).pc.waitsOn = some 0 ∧ r.CanReturn 0 0 ∧ r.inFlightLock = some 1 ∧ r.CanReturn 1 0 := by
  obtain ⟨r, hr, hP⟩ := System.exists_reaches_of_run ttsRuntime System.anyStep
    (s := .new "eponine" 48000) ⟨_, _, rfl⟩
    [.synthesizePhrase "dedupe phrase", .synthesizePhrase "dedupe phrase", .call 0 .checkCache,
      .call 1 .checkCache, .call 0 .checkInFlight, .call 0 (.assertAvailable 0), .call 0 .launch,
      .call 1 .checkInFlight, .call 1 .borrow, .task 0 (.synthesized (.ok [10, 20, 30, 40])),
      .task 0 .insertCache, .task 0 .markHealthy, .task 0 .send]
    (fun r => (r.calls 0).pc.waitsOn = some 0 ∧ (r.calls 1).pc.waitsOn = some 0 ∧
      r.inFlightLock = some 1 ∧ (r.tasks 0).pc.sent = true)
    (by decide)
  obtain ⟨hfirst, hsecond, hlock, hsent⟩ := of_decide_eq_true hP
  have hexclusive := in_flight_exclusive hr
  exact ⟨r, hr, hfirst, (hexclusive.2.2.2 0 0 hfirst).2 hsent, hlock,
    (hexclusive.2.2.2 1 0 hsecond).2 hsent⟩

end MumbleSip
