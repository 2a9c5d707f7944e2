import MumbleSip.Lib.Progress
import MumbleSip.Session.Release

/-!
# The bridge comes to rest

Without new calls, hangups and media callbacks from pjsua, every run of the bridge is bounded: a step of a setup
task, of the main loop, of a teardown, a callback, a completion or a deferred thread takes something from what is
left to do. Whoever is left when nobody can take a step waits for the media of a call whose cancel token has not
been cancelled.
-/

namespace MumbleSip

open Transition

/-! ### What is left to do -/

/-- The steps a setup task may have left, its teardown among them. -/
def SetupPc.rank : SetupPc → Nat
  | .unspawned => 23
  | .checkLimit => 22
  | .lookup => 21
  | .registerPort => 20
  | .registerReady => 19
  | .drawGeneration => 18
  | .registerPending => 17
  | .answer => 16
  | .awaitMedia => 15
  | .intro => 14
  | .connect => 13
  | .removePending => 12
  | .checkCancel | .abortSetup => 11
  | .teardown => 2
  | .insertSession | .unregisterReady => 1
  | .rejected | .returned => 0

/-- A removal is worth three: its completion, and the two steps of the callback. -/
def Stage.rank : Stage → Nat
  | .idle | .done => 0
  | .unregisterPort => 8
  | .takeActive _ => 7
  | .registerCleanup _ => 6
  | .removePort _ => 5
  | .takeCleanup _ | .defer => 2
  | .destroyPort => 1

def CallbackPc.rank : CallbackPc → Nat
  | .takePort => 6
  | .getConfPort => 5
  | .createPool => 4
  | .addPort => 3
  | .publish => 2
  | .notify | .putBack => 1
  | .done => 0

def ConfOp.rank : ConfOp → Nat
  | .take _ _ => 2
  | .destroy _ => 1
  | .skipped _ | .done => 0

/-- The call whose `Disconnected` event the main loop is handling. -/
def MainPc.call : MainPc → Option Call
  | .idle => none
  | .cancelPending k | .teardown k => some k

def MainPc.rank : MainPc → Nat
  | .idle => 0
  | .cancelPending _ | .teardown _ => 1

theorem Stage.rank_le (stage : Stage) : stage.rank ≤ 8 := by cases stage <;> exact Nat.le_of_ble_eq_true rfl

theorem SetupPc.rank_le (pc : SetupPc) : pc.rank ≤ 23 := by cases pc <;> decide

namespace Media

variable (m : Media)

def callbackWork : Nat := ∑ j ∈ Finset.range m.nextCallback, (m.callbacks j).pc.rank

def confOpWork : Nat := ∑ i ∈ Finset.range m.nextConfOp, (m.confOps i).rank

def deferredWork : Nat := ∑ i ∈ Finset.range m.nextDeferred, (m.deferred i).toList.length

/-- What pjsip, the bridge and the deferred threads have left to do. -/
def background : Nat := m.callbackWork + 3 * m.removing.length + m.confOpWork + m.deferredWork

end Media

namespace State

variable (s : State)

/-- The main loop has the `Disconnected` event of the call to come. -/
def toHandle (k : Call) : Nat := if s.mgr.handled k || s.mgr.main.call == some k then 0 else 10

def callWork (k : Call) : Nat :=
  (s.mgr.setups k).pc.rank + (s.media.jobs (.setup k)).stage.rank + s.toHandle k

def mainWork : Nat := s.mgr.main.rank + (s.media.jobs .main).stage.rank

def work : Nat := ∑ k ∈ Finset.range s.mgr.nextCall, s.callWork k + s.mainWork + s.media.background

/-- Everything but what pjsua reports: a call, its end, or its media. A removal completes once. -/
def own : Action → Prop
  | .manager (.newCall _) | .manager (.endCall _) | .media (.mediaState _) => False
  | .media (.portRemoved conf _) => conf ∈ s.media.removing
  | _ => True

instance : (a : Action) → Decidable (s.own a)
  | .manager (.newCall _) | .manager (.endCall _) | .media (.mediaState _) => instDecidableFalse
  | .media (.portRemoved _ _) => inferInstanceAs (Decidable (_ ∈ _))
  | .manager (.incomingCall _) | .manager (.disconnected _) | .manager (.cancelPending _)
  | .manager (.sessionTornDown _) | .manager (.setup _ _) => instDecidableTrue
  | .media (.job _ _) | .media (.takePort _) | .media (.getConfPort _ _) | .media (.createPool _ _)
  | .media (.addPort _ _) | .media (.publish _) | .media (.notify _) | .media (.putBack _)
  | .media (.confOp _) | .media (.deferred _) => instDecidableTrue

/-- A call has its setup, a teardown and its `Disconnected` event; the main loop has a teardown; a callback, a
removal, a completion and a deferred thread have themselves. -/
def workBound : Nat :=
  41 * s.mgr.nextCall + 9 + 6 * s.media.nextCallback + 3 * s.media.removing.length + 2 * s.media.nextConfOp
    + s.media.nextDeferred

end State

/-! ### A step of the media side -/

namespace Media

variable {m m' : Media} {a : Actor} {ok : Bool}

theorem background_spawnDeferred (m : Media) (cleanup : Cleanup) :
    (m.spawnDeferred cleanup).background = m.background + 1 := by
  have hdeferred : (m.spawnDeferred cleanup).deferredWork = m.deferredWork + 1 := by
    have hsum := sum_range_succ_change (f := fun i => (m.deferred i).toList.length)
      (g := fun i => ((m.spawnDeferred cleanup).deferred i).toList.length) (n := m.nextDeferred) fun i hi => by
        simp only [spawnDeferred, Function.update_of_ne hi.ne]
    refine hsum.trans ?_
    simp only [spawnDeferred, Function.update_self, Option.toList_some, List.length_singleton]
    rfl
  rw [background, hdeferred]
  rfl

theorem work_setStage {m₁ : Media} {c n : Nat} (hbackground : m₁.background ≤ m.background + c) {stage : Stage}
    (hlt : c + stage.rank < n) : (m₁.setStage a stage).background + ((m₁.setStage a stage).jobs a).stage.rank
      < m.background + n := by
  have hstage : ((m₁.setStage a stage).jobs a).stage = stage := by
    simp only [setStage, Function.update_self]
  rw [hstage]
  show m₁.background + _ < _
  omega

theorem rank_afterLookup (job : Job) (wasPending : Bool) (active : Option ActiveMedia) :
    (job.afterLookup wasPending active).rank ≤ 6 := by
  unfold Job.afterLookup
  cases wasPending <;> cases active <;> cases job.skipUnknown <;> exact Nat.le_of_ble_eq_true rfl

/-- A teardown does one thing after the other, and leaves at most a removal or a deferred thread behind. -/
theorem work_stepJob (hresting : (m.jobs a).stage.resting = false) :
    (m.stepJob a ok).background + ((m.stepJob a ok).jobs a).stage.rank
      < m.background + (m.jobs a).stage.rank := by
  cases hstage : (m.jobs a).stage with
  | idle | done =>
    rw [hstage] at hresting
    cases hresting
  | unregisterPort =>
    simp only [stepJob, hstage]
    exact work_setStage (c := 0) (Nat.le_refl _) (Nat.le_refl 8)
  | takeActive wasPending =>
    simp only [stepJob, hstage]
    have hle := rank_afterLookup (m.jobs a) wasPending (m.takeActiveMedia (m.jobs a).callId).1
    refine work_setStage (c := 0) (Nat.le_refl _) ?_
    show 0 + _ < 7
    omega
  | destroyPort =>
    simp only [stepJob, hstage]
    exact work_setStage (c := 0) (Nat.le_refl _) (Nat.le_refl 1)
  | registerCleanup active =>
    simp only [stepJob, hstage]
    exact work_setStage (c := 0) (Nat.le_refl _) (Nat.le_refl 6)
  | removePort conf =>
    simp only [stepJob, hstage]
    cases ok with
    | false =>
      rw [if_neg Bool.false_ne_true]
      exact work_setStage (c := 0) (Nat.le_refl _) (by decide : 0 + 2 < 5)
    | true =>
      rw [if_pos rfl]
      refine work_setStage (c := 3) ?_ (by decide : 3 + 0 < 5)
      show m.callbackWork + 3 * (conf :: m.removing).length + m.confOpWork + m.deferredWork ≤ _
      rw [List.length_cons, background]
      omega
  | takeCleanup conf =>
    simp only [stepJob, hstage, takePendingCleanup]
    cases m.pendingCleanup.lookup conf with
    | some cleanup =>
      refine work_setStage (c := 1) ?_ (by decide : 1 + 0 < 2)
      exact Nat.le_of_eq (background_spawnDeferred _ cleanup)
    | none => exact work_setStage (c := 0) (Nat.le_refl _) (by decide : 0 + 0 < 2)
  | defer =>
    simp only [stepJob, hstage]
    exact work_setStage (c := 1) (Nat.le_of_eq (background_spawnDeferred _ _)) (by decide : 1 + 0 < 2)

theorem background_callback {j : Nat} {pc : CallbackPc} (hnum : m.Numbered) (hpc : (m.callbacks j).pc = pc)
    {callback : MediaCallback} (hlt : callback.pc.rank < pc.rank)
    (hcallbacks : m'.callbacks = Function.update m.callbacks j callback) (hnext : m'.nextCallback = m.nextCallback)
    (hremoving : m'.removing = m.removing) (hconfOp : m'.confOpWork = m.confOpWork)
    (hdeferred : m'.deferredWork = m.deferredWork) : m'.background < m.background := by
  have hj : j < m.nextCallback := by
    apply hnum.lt_nextCallback
    rintro hdone
    rw [← hpc, hdone] at hlt
    exact Nat.not_lt_zero _ hlt
  have hsum : m'.callbackWork < m.callbackWork := by
    rw [callbackWork, hcallbacks, hnext]
    refine sum_range_lt hj (fun i hi => ?_) ?_
    · rw [Function.update_of_ne hi]
    · rw [Function.update_self, hpc]
      exact hlt
  rw [background, background, hremoving, hconfOp, hdeferred]
  omega

theorem background_setConfOp {i : Nat} (hi : i < m.nextConfOp) {op : ConfOp} (hlt : op.rank < (m.confOps i).rank) :
    (m.setConfOp i op).background < m.background := by
  have hsum : (m.setConfOp i op).confOpWork < m.confOpWork := by
    refine sum_range_lt hi (fun j hj => ?_) ?_
    · simp only [setConfOp, Function.update_of_ne hj]
    · simp only [setConfOp, Function.update_self]
      exact hlt
  show m.callbackWork + 3 * m.removing.length + (m.setConfOp i op).confOpWork + m.deferredWork < _
  rw [background]
  omega

theorem background_stepConfOp (hnum : m.Numbered) {i : Nat} (hrunning : (m.confOps i).running = true) :
    (m.stepConfOp i).background < m.background := by
  have hi : i < m.nextConfOp := by
    by_contra hle
    rw [hnum.confOp i (Nat.le_of_not_lt hle)] at hrunning
    cases hrunning
  cases hop : m.confOps i with
  | take conf ok =>
    simp only [stepConfOp, hop, takePendingCleanup]
    cases m.pendingCleanup.lookup conf with
    | some cleanup =>
      refine background_setConfOp (m := { m with pendingCleanup := m.pendingCleanup.erase conf }) hi ?_
      show _ < (m.confOps i).rank
      rw [hop]
      cases ok <;> exact Nat.le_of_ble_eq_true rfl
    | none =>
      refine background_setConfOp (m := { m with pendingCleanup := m.pendingCleanup.erase conf }) hi ?_
      show _ < (m.confOps i).rank
      rw [hop]
      exact Nat.zero_lt_succ 1
  | destroy cleanup =>
    simp only [stepConfOp, hop]
    refine background_setConfOp (m := (m.destroyCustomPort cleanup.port).poolRelease cleanup.pool) hi ?_
    show _ < (m.confOps i).rank
    rw [hop]
    exact Nat.zero_lt_one
  | skipped cleanup | done =>
    rw [hop] at hrunning
    cases hrunning

theorem background_runDeferred (hnum : m.Numbered) {i : Nat} (hsome : (m.deferred i).isSome = true) :
    (m.runDeferred i).background < m.background := by
  have hi : i < m.nextDeferred := by
    by_contra hle
    rw [hnum.deferred i (Nat.le_of_not_lt hle)] at hsome
    cases hsome
  obtain ⟨cleanup, hcleanup⟩ := Option.isSome_iff_exists.1 hsome
  have hsum : (m.runDeferred i).deferredWork < m.deferredWork := by
    simp only [runDeferred, hcleanup]
    refine sum_range_lt hi (fun j hj => ?_) ?_
    · simp only [Function.update_of_ne hj]
    · simp only [Function.update_self, hcleanup]
      exact Nat.zero_lt_one
  have hsame : (m.runDeferred i).callbackWork + 3 * (m.runDeferred i).removing.length + (m.runDeferred i).confOpWork
      = m.callbackWork + 3 * m.removing.length + m.confOpWork := by
    simp only [runDeferred, hcleanup]
    rfl
  rw [background, background, hsame]
  omega

theorem background_portRemoved {conf : ConfPortId} (hmem : conf ∈ m.removing) (ok : Bool) :
    (m.portRemoved conf ok).background < m.background := by
  have hlength : (m.removing.erase conf).length + 1 = m.removing.length := List.length_erase_add_one hmem
  have hconfOps : (m.portRemoved conf ok).confOpWork = m.confOpWork + 2 := by
    have hsum := sum_range_succ_change (f := fun i => (m.confOps i).rank)
      (g := fun i => ((m.portRemoved conf ok).confOps i).rank) (n := m.nextConfOp) fun i hi => by
        simp only [portRemoved, Function.update_of_ne hi.ne]
    refine hsum.trans ?_
    simp only [portRemoved, Function.update_self]
    rfl
  show m.callbackWork + 3 * (m.removing.erase conf).length + (m.portRemoved conf ok).confOpWork + m.deferredWork < _
  rw [hconfOps, background]
  omega

theorem background_next (hnum : m.Numbered) {b : MediaAction} (hen : m.enabled b) (hjob : ∀ a ok, b ≠ .job a ok)
    (hstate : ∀ callId, b ≠ .mediaState callId)
    (hremoving : ∀ conf ok, b = .portRemoved conf ok → conf ∈ m.removing) :
    (m.next b).background < m.background := by
  cases b with
  | job a ok => exact absurd rfl (hjob a ok)
  | mediaState callId => exact absurd rfl (hstate callId)
  | takePort j =>
    simp only [Media.next, takePort, unregisterPendingPort]
    cases m.pendingPorts.lookup (m.callbacks j).callId with
    | some port => exact background_callback hnum hen (by decide : CallbackPc.getConfPort.rank < _) rfl rfl rfl rfl rfl
    | none => exact background_callback hnum hen (by decide : CallbackPc.done.rank < _) rfl rfl rfl rfl rfl
  | getConfPort j ok =>
    cases ok with
    | false => exact background_callback hnum hen (by decide : CallbackPc.putBack.rank < _) rfl rfl rfl rfl rfl
    | true => exact background_callback hnum hen (by decide : CallbackPc.createPool.rank < _) rfl rfl rfl rfl rfl
  | createPool j ok =>
    cases ok with
    | false => exact background_callback hnum hen (by decide : CallbackPc.putBack.rank < _) rfl rfl rfl rfl rfl
    | true => exact background_callback hnum hen (by decide : CallbackPc.addPort.rank < _) rfl rfl rfl rfl rfl
  | addPort j portId =>
    cases portId with
    | some conf => exact background_callback hnum hen.1 (by decide : CallbackPc.publish.rank < _) rfl rfl rfl rfl rfl
    | none => exact background_callback hnum hen.1 (by decide : CallbackPc.putBack.rank < _) rfl rfl rfl rfl rfl
  | publish j => exact background_callback hnum hen (by decide : CallbackPc.notify.rank < _) rfl rfl rfl rfl rfl
  | notify j => exact background_callback hnum hen (by decide : CallbackPc.done.rank < _) rfl rfl rfl rfl rfl
  | putBack j => exact background_callback hnum hen (by decide : CallbackPc.done.rank < _) rfl rfl rfl rfl rfl
  | portRemoved conf ok => exact background_portRemoved (hremoving conf ok rfl) ok
  | confOp i => exact background_stepConfOp hnum hen
  | deferred i => exact background_runDeferred hnum hen

end Media

/-! ### A step of the manager -/

namespace State

variable {s s' : State} {k : Call}

/-- The work of one call is the only one that becomes less. -/
theorem work_lt_of_call (hk : k < s.mgr.nextCall) (hnext : s'.mgr.nextCall = s.mgr.nextCall)
    (hcalls : ∀ k', k' ≠ k → s'.callWork k' = s.callWork k')
    (hlt : s'.callWork k + s'.mainWork + s'.media.background < s.callWork k + s.mainWork + s.media.background) :
    s'.work < s.work := by
  have hsum := sum_range_change hk hcalls
  rw [work, work, hnext]
  omega

theorem callWork_congr (hpc : (s'.mgr.setups k).pc = (s.mgr.setups k).pc)
    (hjob : s'.media.jobs (.setup k) = s.media.jobs (.setup k)) (hhandled : s'.mgr.handled k = s.mgr.handled k)
    (hmain : s'.mgr.main.call = some k ↔ s.mgr.main.call = some k) : s'.callWork k = s.callWork k := by
  have hcall : (s'.mgr.main.call == some k) = (s.mgr.main.call == some k) := by
    rw [Bool.eq_iff_iff, beq_iff_eq, beq_iff_eq]
    exact hmain
  rw [callWork, hpc, hjob, toHandle, hhandled, hcall]
  rfl

theorem background_mediaAfter (a : ManagerAction) : (s.mediaAfter a).background = s.media.background := by
  rcases s.mediaAfter_cases a with ⟨r, job, heq, _⟩ | ⟨_, _, _, heq⟩ <;> rw [heq] <;> rfl

theorem work_media (hrest : s.Resting) (howned : s.mgr.Owned) (hnum : s.media.Numbered) {b : MediaAction}
    (hen : s.media.enabled b) (hown : s.own (.media b)) : (s.next (.media b)).work < s.work := by
  by_cases hjob : ∃ a ok, b = .job a ok
  · obtain ⟨a, ok, rfl⟩ := hjob
    have hrunning : (s.media.jobs a).stage.resting = false := by
      obtain ⟨hidle, hdone⟩ := hen
      revert hidle hdone
      cases (s.media.jobs a).stage <;> simp [Stage.resting]
    have hless : (s.media.stepJob a ok).background + ((s.media.stepJob a ok).jobs a).stage.rank
        < s.media.background + (s.media.jobs a).stage.rank := Media.work_stepJob hrunning
    obtain ⟨stage, hjobs⟩ := (s.media.jobFrame_stepJob a ok).jobs
    cases a with
    | setup k =>
      have hpc : (s.mgr.setups k).pc = .teardown := by
        by_contra hpc
        rw [hrest.setup k hpc] at hrunning
        cases hrunning
      have hk : k < s.mgr.nextCall := howned.lt_nextCall (by rw [hpc]; decide)
      refine work_lt_of_call hk rfl (fun k' hne => ?_) ?_
      · refine callWork_congr (by rfl) ?_ (by rfl) (by rfl)
        show (s.media.stepJob (.setup k) ok).jobs (.setup k') = _
        rw [hjobs]
        exact Function.update_of_ne (fun heq => hne (Actor.setup.inj heq)) _ _
      · have hmain : (s.media.stepJob (.setup k) ok).jobs .main = s.media.jobs .main := by
          rw [hjobs]
          exact Function.update_of_ne Actor.noConfusion _ _
        show _ + ((s.media.stepJob (.setup k) ok).jobs (.setup k)).stage.rank + _
          + (_ + ((s.media.stepJob (.setup k) ok).jobs .main).stage.rank)
          + (s.media.stepJob (.setup k) ok).background < _
        rw [hmain, callWork, mainWork]
        show (s.mgr.setups k).pc.rank + _ + s.toHandle k + (s.mgr.main.rank + _) + _ < _
        omega
    | main =>
      have hcalls : ∀ k, (s.next (.media (.job .main ok))).callWork k = s.callWork k := by
        intro k
        refine callWork_congr (by rfl) ?_ (by rfl) (by rfl)
        show (s.media.stepJob .main ok).jobs (.setup k) = _
        rw [hjobs]
        exact Function.update_of_ne Actor.noConfusion _ _
      rw [work, work, Finset.sum_congr rfl fun k _ => hcalls k, mainWork, mainWork]
      show _ + (s.mgr.main.rank + ((s.media.stepJob .main ok).jobs .main).stage.rank)
        + (s.media.stepJob .main ok).background < _
      show ∑ k ∈ Finset.range s.mgr.nextCall, s.callWork k + _ + _ < _
      omega
  · have hless : (s.media.next b).background < s.media.background := by
      apply Media.background_next hnum hen
      · intro a ok hb
        exact hjob ⟨a, ok, hb⟩
      · rintro callId rfl
        exact hown
      · rintro conf ok rfl
        exact hown
    have hjobs : ∀ r, (s.media.next b).jobs r = s.media.jobs r := fun r =>
      Media.jobs_next_of_ne fun ok hok => hjob ⟨r, ok, hok⟩
    have hcalls : ∀ k, (s.next (.media b)).callWork k = s.callWork k := fun k =>
      callWork_congr (by rfl) (hjobs (.setup k)) (by rfl) (by rfl)
    have hmain : (s.next (.media b)).mainWork = s.mainWork := by
      show s.mgr.main.rank + ((s.media.next b).jobs .main).stage.rank = _
      rw [hjobs]
      rfl
    rw [work, work, Finset.sum_congr rfl fun k _ => hcalls k, hmain]
    show ∑ k ∈ Finset.range s.mgr.nextCall, s.callWork k + _ + (s.media.next b).background < _
    omega

/-- A step of a setup task takes more from its rank than a teardown that it starts has. -/
theorem rank_stepSetup {a : SetupAction} (hen : s.enabled (.manager (.setup k a))) :
    (s.mgr.stepSetup k a).pc.rank + ((s.mediaAfter (.setup k a)).jobs (.setup k)).stage.rank
      < (s.mgr.setups k).pc.rank + (s.media.jobs (.setup k)).stage.rank := by
  have hpc : (s.mgr.setups k).pc = a.pc := hen.1.1
  have hgo : ∀ pc : SetupPc, pc.rank < a.pc.rank →
      pc.rank + (s.media.jobs (.setup k)).stage.rank < a.pc.rank + (s.media.jobs (.setup k)).stage.rank :=
    fun pc hlt => Nat.add_lt_add_right hlt _
  have hstart : a.pc.rank = 11 → ∀ job,
      SetupPc.teardown.rank + ((s.media.startJob (.setup k) job).jobs (.setup k)).stage.rank
        < a.pc.rank + (s.media.jobs (.setup k)).stage.rank := by
    intro hrank job
    have hle := ((s.media.startJob (.setup k) job).jobs (.setup k)).stage.rank_le
    rw [hrank, SetupPc.rank]
    omega
  rw [hpc]
  cases a with
  | abortSetup => exact hstart rfl _
  | checkCancel =>
    simp only [Manager.stepSetup, mediaAfter]
    split
    · exact hstart rfl _
    · exact hgo .insertSession (by decide)
  | checkLimit =>
    simp only [Manager.stepSetup]
    split
    · exact hgo .rejected (by decide)
    · exact hgo .lookup (by decide)
  | answer ok =>
    cases ok with
    | false => exact hgo .abortSetup (by decide)
    | true => exact hgo .awaitMedia (by decide)
  | mediaReady =>
    simp only [Manager.stepSetup]
    split
    · exact hgo .intro (by decide)
    · exact hgo .connect (by decide)
  | teardownDone =>
    simp only [Manager.stepSetup]
    split
    · exact hgo .unregisterReady (by decide)
    · exact hgo .returned (by decide)
  | _ => exact hgo _ (Nat.le_of_ble_eq_true rfl)

theorem jobs_main_mediaAfter (a : SetupAction) : (s.mediaAfter (.setup k a)).jobs .main = s.media.jobs .main :=
  jobs_mediaAfter_of_ne (by cases a <;> exact fun h => by cases h)

theorem work_setup (howned : s.mgr.Owned) {a : SetupAction}
    (hen : s.enabled (.manager (.setup k a))) : (s.next (.manager (.setup k a))).work < s.work := by
  have hk : k < s.mgr.nextCall := howned.lt_nextCall (Manager.spawned_of_pc hen.1.1)
  refine work_lt_of_call hk rfl (fun k' hne => ?_) ?_
  · refine callWork_congr ?_ ?_ (by rfl) (by rfl)
    · show (Function.update s.mgr.setups k _ k').pc = _
      rw [Function.update_of_ne hne]
    · exact jobs_mediaAfter fun b heq => hne (ManagerAction.setup.inj heq).1.symm
  · have hrank := rank_stepSetup hen
    show (Function.update s.mgr.setups k (s.mgr.stepSetup k a) k).pc.rank
      + ((s.mediaAfter (.setup k a)).jobs (.setup k)).stage.rank + s.toHandle k
      + (s.mgr.main.rank + ((s.mediaAfter (.setup k a)).jobs .main).stage.rank)
      + (s.mediaAfter (.setup k a)).background < _
    rw [Function.update_self, jobs_main_mediaAfter, background_mediaAfter, callWork, mainWork]
    omega

theorem toHandle_of_ne {k' : Call} (hhandled : s'.mgr.handled k' = s.mgr.handled k')
    (hmain : s.mgr.main.call ≠ some k') (hmain' : s'.mgr.main.call ≠ some k') : s'.toHandle k' = s.toHandle k' := by
  rw [toHandle, toHandle, hhandled, beq_false_of_ne hmain, beq_false_of_ne hmain']

theorem work_handled {a : ManagerAction} (hcall : s.mgr.main.call = some k)
    (hsetups : (s.mgr.next a).setups = s.mgr.setups) (hnextCall : (s.mgr.next a).nextCall = s.mgr.nextCall)
    (hhandled : (s.mgr.next a).handled = Function.update s.mgr.handled k true) (hmain : (s.mgr.next a).main = .idle)
    (hmedia : s.mediaAfter a = s.media) : (s.next (.manager a)).work < s.work := by
  have htoHandle : ∀ k', (s.next (.manager a)).toHandle k' = s.toHandle k' := by
    intro k'
    by_cases hk : k' = k
    · subst k'
      have hbefore : s.toHandle k = 0 := if_pos (by rw [hcall, beq_self_eq_true, Bool.or_true])
      have hafter : (s.next (.manager a)).toHandle k = 0 :=
        if_pos (by rw [show (s.next (.manager a)).mgr.handled k = true from by
          show (s.mgr.next a).handled k = true
          rw [hhandled, Function.update_self], Bool.true_or])
      rw [hbefore, hafter]
    · apply toHandle_of_ne
      · show (s.mgr.next a).handled k' = _
        rw [hhandled, Function.update_of_ne hk]
      · rw [hcall]
        exact fun heq => hk (Option.some.inj heq).symm
      · show (s.mgr.next a).main.call ≠ _
        rw [hmain]
        exact fun heq => by cases heq
  have hcalls : ∀ k', (s.next (.manager a)).callWork k' = s.callWork k' := by
    intro k'
    rw [callWork, callWork, htoHandle]
    show ((s.mgr.next a).setups k').pc.rank + ((s.mediaAfter a).jobs (.setup k')).stage.rank + _ = _
    rw [hsetups, hmedia]
  have hrank : s.mgr.main.rank = 1 := by
    cases hpc : s.mgr.main with
    | idle =>
      rw [hpc] at hcall
      cases hcall
    | cancelPending k' => rfl
    | teardown k' => rfl
  have hmainWork : (s.next (.manager a)).mainWork + 1 = s.mainWork := by
    show (s.mgr.next a).main.rank + ((s.mediaAfter a).jobs .main).stage.rank + 1 = _
    rw [hmain, hmedia, mainWork, hrank, MainPc.rank]
    omega
  rw [work, work, Finset.sum_congr rfl fun k' _ => hcalls k']
  show ∑ k' ∈ Finset.range (s.mgr.next a).nextCall, s.callWork k' + _ + (s.mediaAfter a).background < _
  rw [hnextCall, hmedia]
  omega

theorem work_incomingCall (hen : s.enabled (.manager (.incomingCall k))) :
    (s.next (.manager (.incomingCall k))).work < s.work := by
  obtain ⟨⟨_, hk, hpc, _⟩, _⟩ := hen
  refine work_lt_of_call hk rfl (fun k' hne => ?_) ?_
  · refine callWork_congr ?_ (by rfl) (by rfl) (by rfl)
    show (Function.update s.mgr.setups k _ k').pc = _
    rw [Function.update_of_ne hne]
  · show (Function.update s.mgr.setups k _ k).pc.rank + _ + s.toHandle k + s.mainWork + s.media.background < _
    rw [Function.update_self, callWork, hpc]
    show 22 + (s.media.jobs (.setup k)).stage.rank + _ + _ + _ < 23 + _ + _ + _ + _
    omega

theorem work_disconnected (howned : s.mgr.Owned) (hen : s.enabled (.manager (.disconnected k))) :
    (s.next (.manager (.disconnected k))).work < s.work := by
  obtain ⟨⟨hidle, _, hpc, hhandled⟩, _⟩ := hen
  have hcall : (s.next (.manager (.disconnected k))).mgr.main.call = some k := by
    show MainPc.call (if (s.mgr.sessions.lookup (s.mgr.callId k)).isSome then .teardown k else .cancelPending k)
      = some k
    split <;> rfl
  refine work_lt_of_call (howned.lt_nextCall hpc) rfl (fun k' hne => ?_) ?_
  · refine callWork_congr (by rfl) ?_ (by rfl) ?_
    · exact jobs_mediaAfter fun b heq => by cases heq
    · rw [hcall, hidle]
      exact ⟨fun heq => absurd (Option.some.inj heq).symm hne, fun heq => by cases heq⟩
  · have hbefore : s.toHandle k = 10 := if_neg (by rw [hhandled, hidle]; exact Bool.false_ne_true)
    have hafter : (s.next (.manager (.disconnected k))).toHandle k = 0 :=
      if_pos (by rw [hcall, beq_self_eq_true, Bool.or_true])
    have hmain : (s.next (.manager (.disconnected k))).mainWork ≤ 1 + 8 := by
      refine Nat.add_le_add ?_ (Stage.rank_le _)
      show MainPc.rank (if (s.mgr.sessions.lookup (s.mgr.callId k)).isSome then _ else _) ≤ 1
      split <;> exact Nat.le_refl 1
    have hjob : (s.mediaAfter (.disconnected k)).jobs (.setup k) = s.media.jobs (.setup k) :=
      jobs_mediaAfter fun b heq => by cases heq
    rw [callWork, hafter, callWork, hbefore]
    show (s.mgr.setups k).pc.rank + ((s.mediaAfter (.disconnected k)).jobs (.setup k)).stage.rank + 0 + _
      + (s.mediaAfter (.disconnected k)).background < _
    rw [hjob, background_mediaAfter]
    omega

theorem work_manager (howned : s.mgr.Owned) {a : ManagerAction} (hen : s.enabled (.manager a))
    (hown : s.own (.manager a)) : (s.next (.manager a)).work < s.work := by
  cases a with
  | newCall c => exact hown.elim
  | endCall k => exact hown.elim
  | incomingCall k => exact work_incomingCall hen
  | disconnected k => exact work_disconnected howned hen
  | cancelPending k =>
    have hmain : s.mgr.main = .cancelPending k := hen.1
    exact work_handled (by rw [hmain]; rfl) rfl rfl rfl rfl rfl
  | sessionTornDown k =>
    have hmain : s.mgr.main = .teardown k := hen.1
    exact work_handled (by rw [hmain]; rfl) rfl rfl rfl rfl rfl
  | setup k a => exact work_setup howned hen

/-! ### Who cannot take a step -/

/-- Whoever waits for a teardown has started it. -/
structure Started (s : State) : Prop where
  setup : ∀ k, (s.mgr.setups k).pc = .teardown → (s.media.jobs (.setup k)).stage ≠ .idle
  main : ∀ k, s.mgr.main = .teardown k → (s.media.jobs .main).stage ≠ .idle

theorem started_initial (n : Nat) : Started ⟨.initial n, .initial⟩ where
  setup _ h := by cases h
  main _ h := by cases h

theorem stage_stepJob_ne_idle {m : Media} {a r : Actor} (ok : Bool) (hne : (m.jobs r).stage ≠ .idle) :
    ((m.stepJob a ok).jobs r).stage ≠ .idle := by
  by_cases hr : r = a
  · subst r
    revert hne
    cases hstage : (m.jobs a).stage with
    | idle => exact fun hne => absurd rfl hne
    | done => simp [Media.stepJob, hstage]
    | takeActive wasPending =>
      simp only [Media.stepJob, hstage, Media.setStage, Function.update_self, Job.afterLookup]
      intro _
      split
      · decide
      · split
        · exact fun heq => by cases heq
        · split <;> decide
    | removePort conf => cases ok <;> simp [Media.stepJob, hstage, Media.setStage]
    | takeCleanup conf =>
      simp only [Media.stepJob, hstage, Media.takePendingCleanup]
      cases m.pendingCleanup.lookup conf <;> simp [Media.setStage]
    | _ => simp [Media.stepJob, hstage, Media.setStage]
  · obtain ⟨stage, hjobs⟩ := (m.jobFrame_stepJob a ok).jobs
    rw [hjobs, Function.update_of_ne hr]
    exact hne

theorem stage_ne_idle_of_starting {stage : Stage} (h : stage.starting = true) : stage ≠ .idle := by
  rintro rfl
  cases h

theorem started_setup {a : SetupAction} (hteardown : (s.mgr.stepSetup k a).pc = .teardown) :
    ((s.mediaAfter (.setup k a)).jobs (.setup k)).stage ≠ .idle := by
  have hstart : ∀ job : Job, job.stage.starting = true →
      ((s.media.startJob (.setup k) job).jobs (.setup k)).stage ≠ .idle := by
    intro job hstarting
    simp only [Media.startJob, Function.update_self]
    exact stage_ne_idle_of_starting hstarting
  cases a with
  | abortSetup =>
    apply hstart
    unfold cleanupMediaPort
    cases (s.mgr.release k).1 <;> rfl
  | checkCancel =>
    simp only [Manager.stepSetup] at hteardown
    simp only [mediaAfter]
    split
    · apply hstart
      unfold lateCancel
      cases (s.mgr.setups k).owns <;> rfl
    · rename_i hcancelled
      rw [if_neg hcancelled] at hteardown
      cases hteardown
  | checkLimit | mediaReady | teardownDone =>
    simp only [Manager.stepSetup] at hteardown
    split at hteardown <;> cases hteardown
  | answer ok => cases ok <;> cases hteardown
  | _ => cases hteardown

theorem Started.manager (h : s.Started) {a : ManagerAction} : Started (s.next (.manager a)) := by
  refine ⟨fun k hpc => ?_, fun k hmain => ?_⟩
  · show ((s.mediaAfter a).jobs (.setup k)).stage ≠ .idle
    by_cases ha : ∃ b, a = .setup k b
    · obtain ⟨b, rfl⟩ := ha
      have hself : (s.mgr.next (.setup k b)).setups k = s.mgr.stepSetup k b := Function.update_self _ _ _
      exact started_setup (by rw [← hself]; exact hpc)
    · have hnot : ∀ b, a ≠ .setup k b := fun b hb => ha ⟨b, hb⟩
      rw [jobs_mediaAfter hnot]
      apply h.setup k
      cases a with
      | incomingCall k' =>
        have hpc : (Function.update s.mgr.setups k' { s.mgr.setups k' with pc := .checkLimit } k).pc = .teardown := hpc
        rw [Function.update_apply] at hpc
        split at hpc
        · cases hpc
        · exact hpc
      | setup k' b =>
        have hne : k ≠ k' := fun heq => hnot b (heq ▸ rfl)
        have hpc : (Function.update s.mgr.setups k' (s.mgr.stepSetup k' b) k).pc = .teardown := hpc
        rw [Function.update_of_ne hne] at hpc
        exact hpc
      | _ => exact hpc
  · show ((s.mediaAfter a).jobs .main).stage ≠ .idle
    cases a with
    | disconnected k' =>
      have hmain : (if (s.mgr.sessions.lookup (s.mgr.callId k')).isSome then MainPc.teardown k' else .cancelPending k')
        = .teardown k := hmain
      simp only [mediaAfter]
      cases hsession : s.mgr.sessions.lookup (s.mgr.callId k') with
      | none =>
        rw [hsession] at hmain
        cases hmain
      | some session =>
        simp only [Media.startJob, Function.update_self]
        exact stage_ne_idle_of_starting rfl
    | cancelPending k' => cases hmain
    | sessionTornDown k' => cases hmain
    | setup k' b =>
      rw [jobs_main_mediaAfter]
      exact h.main k hmain
    | _ => exact h.main k hmain

theorem Started.media (h : s.Started) (b : MediaAction) : Started (s.next (.media b)) := by
  have hkeep : ∀ r, (s.media.jobs r).stage ≠ .idle → ((s.media.next b).jobs r).stage ≠ .idle := by
    intro r hne
    by_cases hb : ∃ a ok, b = .job a ok
    · obtain ⟨a, ok, rfl⟩ := hb
      exact stage_stepJob_ne_idle ok hne
    · rw [Media.jobs_next_of_ne fun ok hok => hb ⟨r, ok, hok⟩]
      exact hne
  exact ⟨fun k hpc => hkeep _ (h.setup k hpc), fun k hmain => hkeep _ (h.main k hmain)⟩

/-- Calls of one id come one after the other. -/
def InTurn (s : State) : Prop :=
  ∀ k k', k' < k → k < s.mgr.nextCall → s.mgr.callId k' = s.mgr.callId k → s.mgr.ended k' = true

theorem InTurn.next (h : s.InTurn) {a : Action} (hen : s.enabled a) : InTurn (s.next a) := by
  cases a with
  | media b => exact h
  | manager a =>
    cases a with
    | newCall c =>
      have hfree : ∀ k < s.mgr.nextCall, s.mgr.callId k = c → s.mgr.ended k = true := hen.1
      intro k k' hlt hk hid
      have hk : k < s.mgr.nextCall + 1 := hk
      have hid : Function.update s.mgr.callId s.mgr.nextCall c k' = Function.update s.mgr.callId s.mgr.nextCall c k :=
        hid
      show s.mgr.ended k' = true
      have hold : k' < s.mgr.nextCall := Nat.lt_of_lt_of_le hlt (Nat.le_of_lt_succ hk)
      rw [Function.update_of_ne hold.ne] at hid
      by_cases hnew : k = s.mgr.nextCall
      · rw [hnew, Function.update_self] at hid
        exact hfree k' hold hid
      · rw [Function.update_of_ne hnew] at hid
        exact h k k' hlt (Nat.lt_of_le_of_ne (Nat.le_of_lt_succ hk) hnew) hid
    | endCall k₀ =>
      intro k k' hlt hk hid
      show Function.update s.mgr.ended k₀ true k' = true
      rw [Function.update_apply]
      split
      · rfl
      · exact h k k' hlt hk hid
    | _ => exact h

/-- Nobody has anything left to do, but setup tasks that wait for the media of a call that has not been
cancelled. -/
structure Settled (s : State) : Prop where
  main : s.mgr.main = .idle
  handled : ∀ k < s.mgr.nextCall, s.mgr.ended k = true → s.mgr.handled k = true
  spawned : ∀ k < s.mgr.nextCall, (s.mgr.setups k).pc ≠ .unspawned
  setup : ∀ k, (s.mgr.setups k).pc.finished = true ∨
    ((s.mgr.setups k).pc = .awaitMedia ∧ s.mgr.cancelled k = false ∧ s.media.ready k = .waiting)
  job : ∀ a, (s.media.jobs a).stage.resting = true
  callback : ∀ j, (s.media.callbacks j).pc = .done
  removing : s.media.removing = []
  confOp : ∀ i, (s.media.confOps i).running = false
  deferred : ∀ i, s.media.deferred i = none

variable {n : Nat}

theorem media_of_stuck (hstuck : (bridge n).Stuck own s) : (∀ a, (s.media.jobs a).stage.resting = true) ∧
    (∀ j, (s.media.callbacks j).pc = .done) ∧ s.media.removing = [] ∧
    (∀ i, (s.media.confOps i).running = false) ∧ ∀ i, s.media.deferred i = none := by
  have hno : ∀ b, s.media.enabled b → ¬s.own (.media b) := fun b hen => hstuck (.media b) hen
  refine ⟨fun a => ?_, fun j => ?_, ?_, fun i => ?_, fun i => ?_⟩
  · by_contra hrunning
    refine hno (.job a true) ⟨?_, ?_⟩ trivial
    · intro hstage
      exact hrunning (by rw [hstage]; rfl)
    · intro hstage
      exact hrunning (by rw [hstage]; rfl)
  · cases hpc : (s.media.callbacks j).pc with
    | takePort => exact absurd trivial (hno (.takePort j) hpc)
    | getConfPort => exact absurd trivial (hno (.getConfPort j true) hpc)
    | createPool => exact absurd trivial (hno (.createPool j true) hpc)
    | addPort => exact absurd trivial (hno (.addPort j none) ⟨hpc, rfl⟩)
    | publish => exact absurd trivial (hno (.publish j) hpc)
    | notify => exact absurd trivial (hno (.notify j) hpc)
    | putBack => exact absurd trivial (hno (.putBack j) hpc)
    | done => rfl
  · cases hremoving : s.media.removing with
    | nil => rfl
    | cons conf rest =>
      have hmem : conf ∈ s.media.removing := by
        rw [hremoving]
        exact List.mem_cons_self
      exact absurd hmem (hno (.portRemoved conf true) (.inl hmem))
  · apply Bool.eq_false_of_not_eq_true
    intro hrunning
    exact hno (.confOp i) hrunning trivial
  · cases hdeferred : s.media.deferred i with
    | none => rfl
    | some cleanup => exact absurd trivial (hno (.deferred i) (by rw [Media.enabled, hdeferred]; rfl))

/-- A setup task that does not wait for its media can go on, whatever its calls answer. -/
theorem setup_of_stuck (hstuck : (bridge n).Stuck own s) (hstarted : s.Started) (k : Call) :
    (s.mgr.setups k).pc.finished = true ∨
      ((s.mgr.setups k).pc = .awaitMedia ∧ s.mgr.cancelled k = false ∧ s.media.ready k = .waiting) := by
  have hno : ∀ a, (s.mgr.setups k).pc = a.pc → (a.onCancel = true → s.mgr.cancelled k = true) →
      s.mediaGuard (.setup k a) ≠ true := fun a hpc hcancel hguard =>
    hstuck (.manager (.setup k a)) ⟨⟨hpc, hcancel⟩, hguard⟩ trivial
  have hgo : ∀ a, (s.mgr.setups k).pc = a.pc → a.onCancel = false → s.mediaGuard (.setup k a) = true →
      False := fun a hpc hcancel hguard =>
    hno a hpc (fun honCancel => by rw [hcancel] at honCancel; cases honCancel) hguard
  cases hpc : (s.mgr.setups k).pc with
  | unspawned | rejected | returned => exact .inl rfl
  | checkLimit => exact (hgo .checkLimit hpc rfl rfl).elim
  | lookup => exact (hgo (.lookup true) hpc rfl rfl).elim
  | registerPort => exact (hgo .registerPort hpc rfl rfl).elim
  | registerReady => exact (hgo .registerReady hpc rfl rfl).elim
  | drawGeneration => exact (hgo .drawGeneration hpc rfl rfl).elim
  | registerPending => exact (hgo .registerPending hpc rfl rfl).elim
  | answer => exact (hgo (.answer true) hpc rfl rfl).elim
  | awaitMedia =>
    refine .inr ⟨rfl, ?_, ?_⟩
    · apply Bool.eq_false_of_not_eq_true
      intro hcancelled
      exact hno .mediaCancelled hpc (fun _ => hcancelled) rfl
    · cases hready : s.media.ready k with
      | waiting => rfl
      | fired => exact absurd (decide_eq_true hready) (hno .mediaReady hpc fun h => by cases h)
      | dropped => exact absurd (decide_eq_true hready) (hno .mediaDropped hpc fun h => by cases h)
  | intro => exact (hgo .introDone hpc rfl rfl).elim
  | connect => exact (hgo .connected hpc rfl rfl).elim
  | removePending => exact (hgo .removePending hpc rfl rfl).elim
  | checkCancel => exact (hgo .checkCancel hpc rfl rfl).elim
  | insertSession => exact (hgo .insertSession hpc rfl rfl).elim
  | abortSetup => exact (hgo .abortSetup hpc rfl rfl).elim
  | unregisterReady => exact (hgo .unregisterReady hpc rfl rfl).elim
  | teardown =>
    have hdone : (s.media.jobs (.setup k)).stage = .done := by
      have hresting := (media_of_stuck hstuck).1 (.setup k)
      have hidle := hstarted.setup k hpc
      revert hresting hidle
      cases (s.media.jobs (.setup k)).stage <;> simp [Stage.resting]
    exact (hgo .teardownDone hpc rfl (decide_eq_true hdone)).elim

theorem settled_of_stuck (hstuck : (bridge n).Stuck own s) (hstarted : s.Started) (hturn : s.InTurn) :
    s.Settled := by
  obtain ⟨hjob, hcallback, hremoving, hconfOp, hdeferred⟩ := media_of_stuck hstuck
  have hno : ∀ a, s.mgr.enabled a → s.mediaGuard a = true → ¬s.own (.manager a) := fun a hen hguard =>
    hstuck (.manager a) ⟨hen, hguard⟩
  have hmain : s.mgr.main = .idle := by
    cases hpc : s.mgr.main with
    | idle => rfl
    | cancelPending k => exact absurd trivial (hno (.cancelPending k) hpc rfl)
    | teardown k =>
      have hdone : (s.media.jobs .main).stage = .done := by
        have hresting := hjob .main
        have hidle := hstarted.main k hpc
        revert hresting hidle
        cases (s.media.jobs .main).stage <;> simp [Stage.resting]
      exact absurd trivial (hno (.sessionTornDown k) hpc (decide_eq_true hdone))
  have hhandled : ∀ k, (s.mgr.setups k).pc ≠ .unspawned → s.mgr.ended k = true → s.mgr.handled k = true := by
    intro k hspawned hended
    by_contra hnot
    exact hno (.disconnected k) ⟨hmain, hended, hspawned, Bool.eq_false_of_not_eq_true hnot⟩ rfl trivial
  -- the events of one call id are taken in the order of its calls
  have hspawned : ∀ k, k < s.mgr.nextCall → (s.mgr.setups k).pc ≠ .unspawned := by
    intro k
    induction k using Nat.strong_induction_on with
    | h k ih =>
      intro hk hpc
      refine hno (.incomingCall k) ⟨hmain, hk, hpc, fun k' hlt hid => ?_⟩ rfl trivial
      exact hhandled k' (ih k' hlt (Nat.lt_trans hlt hk)) (hturn k k' hlt hk hid)
  exact ⟨hmain, fun k hk hended => hhandled k (hspawned k hk) hended, hspawned, setup_of_stuck hstuck hstarted, hjob,
    hcallback, hremoving, hconfOp, hdeferred⟩

theorem Settled.stuck (h : s.Settled) (howned : s.mgr.Owned) : (bridge n).Stuck own s := by
  have hfinished : ∀ k a, (s.mgr.setups k).pc = a.pc → s.mgr.enabled (.setup k a) →
      s.mediaGuard (.setup k a) = true → False := by
    intro k a hpc hen hguard
    rcases h.setup k with hfinished | ⟨hwait, hcancelled, hready⟩
    · rw [hpc] at hfinished
      cases a <;> cases hfinished
    · rw [hpc] at hwait
      cases a with
      | mediaReady | mediaDropped =>
        have hfired := of_decide_eq_true hguard
        rw [hready] at hfired
        cases hfired
      | mediaCancelled =>
        have hcancel := hen.2 rfl
        rw [hcancelled] at hcancel
        cases hcancel
      | _ => cases hwait
  have hcallback : ∀ j pc, (s.media.callbacks j).pc = pc → pc = .done := fun j pc hpc => hpc ▸ h.callback j
  intro a hen hown
  cases a with
  | manager a =>
    obtain ⟨hen, hguard⟩ := hen
    cases a with
    | newCall c => exact hown
    | endCall k => exact hown
    | incomingCall k => exact h.spawned k hen.2.1 hen.2.2.1
    | disconnected k =>
      obtain ⟨_, hended, hspawned, hhandled⟩ := hen
      rw [h.handled k (howned.lt_nextCall hspawned) hended] at hhandled
      cases hhandled
    | cancelPending k | sessionTornDown k =>
      have hmain := h.main
      rw [hen] at hmain
      cases hmain
    | setup k a => exact hfinished k a hen.1 hen hguard
  | media b =>
    cases b with
    | job a ok =>
      have hjob := h.job a
      obtain ⟨hidle, hdone⟩ := hen
      revert hjob hidle hdone
      cases (s.media.jobs a).stage <;> simp [Stage.resting]
    | mediaState callId => exact hown
    | addPort j portId => cases hcallback j _ hen.1
    | portRemoved conf ok =>
      have hmem : conf ∈ s.media.removing := hown
      rw [h.removing] at hmem
      cases hmem
    | confOp i =>
      have hrunning := h.confOp i
      rw [hen] at hrunning
      cases hrunning
    | deferred i =>
      have hsome : (s.media.deferred i).isSome = true := hen
      rw [h.deferred i] at hsome
      cases hsome
    | takePort j | getConfPort j ok | createPool j ok | publish j | notify j | putBack j =>
      cases hcallback j _ hen

theorem work_le_bound (s : State) : s.work ≤ s.workBound := by
  have hcalls : ∑ k ∈ Finset.range s.mgr.nextCall, s.callWork k ≤ s.mgr.nextCall * 41 := by
    refine sum_range_le (fun k => ?_) _
    have hsetup := (s.mgr.setups k).pc.rank_le
    have hjob := (s.media.jobs (.setup k)).stage.rank_le
    have hhandle : s.toHandle k ≤ 10 := by
      rw [toHandle]
      split <;> decide
    rw [callWork]
    omega
  have hmain : s.mainWork ≤ 9 := by
    have hpc : s.mgr.main.rank ≤ 1 := by cases s.mgr.main <;> exact Nat.le_of_ble_eq_true rfl
    have hjob := (s.media.jobs .main).stage.rank_le
    rw [mainWork]
    omega
  have hcallbacks : s.media.callbackWork ≤ s.media.nextCallback * 6 := by
    refine sum_range_le (fun j => ?_) _
    cases (s.media.callbacks j).pc <;> decide
  have hconfOps : s.media.confOpWork ≤ s.media.nextConfOp * 2 := by
    refine sum_range_le (fun i => ?_) _
    cases s.media.confOps i <;> simp only [ConfOp.rank] <;> omega
  have hdeferred : s.media.deferredWork ≤ s.media.nextDeferred * 1 := by
    refine sum_range_le (fun i => ?_) _
    cases s.media.deferred i <;> simp
  rw [work, workBound, Media.background]
  omega

theorem Settled.quiescent (h : s.Settled) (hended : ∀ k < s.mgr.nextCall, s.mgr.ended k = true)
    (hwaiting : ∀ k, (s.mgr.setups k).pc ≠ .awaitMedia) (hsessions : s.mgr.sessions.keys = []) : s.Quiescent := by
  refine ⟨fun k hk => ⟨h.handled k hk (hended k hk), ?_⟩, h.main, hsessions, fun j _ => h.callback j, h.removing,
    fun i _ => h.confOp i, fun i _ => h.deferred i⟩
  rcases h.setup k with hfinished | ⟨hpc, _⟩
  · exact hfinished
  · exact absurd hpc (hwaiting k)

end State

section Reach

variable {n : Nat} {s s' : State}

theorem reachable_started (hs : (bridge n).Reachable s) : s.Started := by
  refine hs.invariant ?_ fun s a _ h _ _ => ?_
  · intro s hinit
    rw [hinit]
    exact State.started_initial n
  · cases a with
    | manager a => exact h.manager
    | media b => exact h.media b

theorem reachable_inTurn (hs : (bridge n).Reachable s) : s.InTurn := by
  refine hs.invariant ?_ fun s a _ h hen _ => h.next hen
  intro s hinit k k' hlt hk
  rw [hinit] at hk
  exact absurd hk (Nat.not_lt_zero k)

/-- Every step of its own takes something from what the bridge has left to do. -/
theorem decreases_work : (bridge n).Decreases State.own (bridge n).Reachable State.work where
  keeps s a hs hen _ := hs.step hen trivial
  lt s a hs hen hown := by
    have howned := reaches_owned (reachable_manager hs)
    cases a with
    | manager a => exact State.work_manager howned hen hown
    | media b => exact State.work_media (reaches_resting hs) howned (reaches_numbered hs) hen hown

/-- **The bridge comes to rest.** -/
theorem bridge_comes_to_rest {m : Nat} (hs : (bridge n).Reachable s) (hsteps : (bridge n).Steps State.own s m s') :
    m ≤ s.workBound ∧ ((bridge n).Stuck State.own s' ↔ s'.Settled) ∧
    (s'.Settled → (∀ k < s'.mgr.nextCall, s'.mgr.ended k = true) → (∀ k, (s'.mgr.setups k).pc ≠ .awaitMedia) →
      s'.mgr.sessions.keys = [] → s'.Quiescent) := by
  have hs' : (bridge n).Reachable s' := hsteps.invariant decreases_work hs
  refine ⟨?_, ⟨fun hstuck => ?_, fun hsettled => ?_⟩, fun hsettled => hsettled.quiescent⟩
  · have hle := hsteps.add_le decreases_work hs
    have hbound := s.work_le_bound
    omega
  · exact State.settled_of_stuck hstuck (reachable_started hs') (reachable_inTurn hs')
  · exact hsettled.stuck (reaches_owned (reachable_manager hs'))

/-- An established call has hung up: nine steps, and nothing is left to do. -/
theorem bridge_comes_to_rest_hung_up : ∃ s s', (bridge 1).Reachable s ∧ (bridge 1).Steps State.own s 9 s' ∧
    s'.Quiescent ∧ 9 ≤ s.workBound ∧ ((bridge 1).Stuck State.own s' ↔ s'.Settled) := by
  obtain ⟨s, hs, hP⟩ := System.exists_reaches_of_run (bridge 1) (fun _ _ => True) rfl
    (.manager (.newCall 3) :: answerCall 0 ++ attachMedia 3 0 7 ++ establish 0 ++ [.manager (.endCall 0)])
    (fun s : State => (bridge 1).run State.own s
      [.manager (.disconnected 0), .media (.job .main true), .media (.job .main true), .media (.job .main true),
        .media (.job .main true), .manager (.sessionTornDown 0), .media (.portRemoved 7 true), .media (.confOp 0),
        .media (.confOp 0)] |>.any fun s' : State => s'.Quiescent) (by decide)
  obtain ⟨s', hrun, hquiet⟩ := Option.any_eq_true .. |>.1 hP
  have hsteps : (bridge 1).Steps State.own s 9 s' := System.Steps.refl.run hrun
  obtain ⟨hle, hsettled, _⟩ := bridge_comes_to_rest hs hsteps
  exact ⟨s, s', hs, hsteps, of_decide_eq_true hquiet, hle, hsettled⟩

end Reach

end MumbleSip
