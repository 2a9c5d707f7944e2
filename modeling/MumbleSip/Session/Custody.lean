import MumbleSip.Lib.Custody
import MumbleSip.Session.Pending

/-!
# Who frees a port, who releases a pool

A port belongs to its setup task until the task hands it to a session or to a teardown; from there it
goes through `PENDING_CLEANUP` to the completion callback, or to a deferred thread. A pool belongs to the
callback that creates it, then to `ACTIVE_MEDIA`, and from there it travels with the port of the
teardown that takes it. Each is handed over in one step, whatever the call id or the slot is by then used
for, and whoever frees it no longer has it afterwards.
-/

namespace MumbleSip

open Transition Custody

/-! ### Numbering -/

namespace Media

variable {m : Media}

/-- What has no number yet is not running. -/
structure Numbered (m : Media) : Prop where
  callback : ∀ j, m.nextCallback ≤ j → (m.callbacks j).pc = .done
  confOp : ∀ i, m.nextConfOp ≤ i → m.confOps i = .done
  deferred : ∀ i, m.nextDeferred ≤ i → m.deferred i = none

theorem numbered_initial : Numbered initial := ⟨fun _ _ => rfl, fun _ _ => rfl, fun _ _ => rfl⟩

theorem Numbered.lt_nextCallback (h : m.Numbered) {j : Nat} (hpc : (m.callbacks j).pc ≠ .done) :
    j < m.nextCallback := by
  by_contra hle
  exact hpc (h.callback j (Nat.le_of_not_lt hle))

theorem Numbered.setCallback (h : m.Numbered) {j : Nat} (hj : j < m.nextCallback)
    (callback : MediaCallback) : Numbered (m.setCallback j callback) := by
  refine ⟨fun j' hj' => ?_, h.confOp, h.deferred⟩
  have hne : j' ≠ j := (Nat.lt_of_lt_of_le hj hj').ne'
  simp only [Media.setCallback, Function.update_of_ne hne]
  exact h.callback j' hj'

theorem Numbered.spawnDeferred (h : m.Numbered) (cleanup : Cleanup) :
    Numbered (m.spawnDeferred cleanup) := by
  refine ⟨h.callback, h.confOp, fun i hi => ?_⟩
  have hne : i ≠ m.nextDeferred := (Nat.lt_of_succ_le hi).ne'
  simp only [Media.spawnDeferred, Function.update_of_ne hne]
  exact h.deferred i (Nat.le_of_succ_le hi)

/-- What a step of a teardown leaves alone; it goes to another stage and takes its own entries only. -/
structure JobFrame (m m' : Media) (a : Actor) : Prop where
  callbacks : m'.callbacks = m.callbacks
  nextCallback : m'.nextCallback = m.nextCallback
  confOps : m'.confOps = m.confOps
  nextConfOp : m'.nextConfOp = m.nextConfOp
  mediaReadyTx : m'.mediaReadyTx = m.mediaReadyTx
  ready : m'.ready = m.ready
  bridge : m'.bridge = m.bridge
  removing : ∀ conf ∈ m.removing, conf ∈ m'.removing
  pendingPorts : m'.pendingPorts = m.pendingPorts ∨ (m.jobs a).stage = .unregisterPort ∧
    m'.pendingPorts = m.pendingPorts.erase (m.jobs a).callId
  activeMedia : m'.activeMedia = m.activeMedia ∨ (∃ wasPending, (m.jobs a).stage = .takeActive wasPending) ∧
    m'.activeMedia = m.activeMedia.erase (m.jobs a).callId
  jobs : ∃ stage, m'.jobs = Function.update m.jobs a { m.jobs a with stage := stage }

theorem jobFrame_stepJob (m : Media) (a : Actor) (ok : Bool) : m.JobFrame (m.stepJob a ok) a := by
  have hsame : m.jobs = Function.update m.jobs a { m.jobs a with stage := (m.jobs a).stage } :=
    (Function.update_eq_self a m.jobs).symm
  cases hstage : (m.jobs a).stage with
  | idle | done =>
    simp only [Media.stepJob, hstage]
    exact ⟨rfl, rfl, rfl, rfl, rfl, rfl, rfl, fun _ h => h, .inl rfl, .inl rfl, _, hsame⟩
  | unregisterPort =>
    simp only [Media.stepJob, hstage]
    exact ⟨rfl, rfl, rfl, rfl, rfl, rfl, rfl, fun _ h => h, .inr ⟨hstage, rfl⟩, .inl rfl, _, rfl⟩
  | takeActive wasPending =>
    simp only [Media.stepJob, hstage]
    exact ⟨rfl, rfl, rfl, rfl, rfl, rfl, rfl, fun _ h => h, .inl rfl, .inr ⟨⟨wasPending, hstage⟩, rfl⟩, _,
      rfl⟩
  | removePort conf =>
    simp only [Media.stepJob, hstage]
    cases ok
    · exact ⟨rfl, rfl, rfl, rfl, rfl, rfl, rfl, fun _ h => h, .inl rfl, .inl rfl, _, rfl⟩
    · exact ⟨rfl, rfl, rfl, rfl, rfl, rfl, rfl, fun _ h => List.mem_cons_of_mem _ h, .inl rfl, .inl rfl, _,
        rfl⟩
  | takeCleanup conf =>
    simp only [Media.stepJob, hstage, takePendingCleanup]
    cases m.pendingCleanup.lookup conf <;>
      exact ⟨rfl, rfl, rfl, rfl, rfl, rfl, rfl, fun _ h => h, .inl rfl, .inl rfl, _, rfl⟩
  | destroyPort | registerCleanup | defer =>
    simp only [Media.stepJob, hstage]
    exact ⟨rfl, rfl, rfl, rfl, rfl, rfl, rfl, fun _ h => h, .inl rfl, .inl rfl, _, rfl⟩

/-- The completion callbacks and the deferred threads change the cleanups, and free. -/
def Frees (m m' : Media) : Prop :=
  ∃ pendingCleanup confOps deferred destroyed released, m' =
    { m with
      pendingCleanup := pendingCleanup
      confOps := confOps
      deferred := deferred
      destroyed := destroyed
      released := released }

theorem frees_confOp (m : Media) (i : Nat) : m.Frees (m.next (.confOp i)) := by
  simp only [Media.next, stepConfOp]
  cases m.confOps i with
  | take conf ok =>
    simp only [takePendingCleanup]
    cases m.pendingCleanup.lookup conf <;> exact ⟨_, _, _, _, _, rfl⟩
  | _ => exact ⟨_, _, _, _, _, rfl⟩

theorem frees_deferred (m : Media) (i : Nat) : m.Frees (m.next (.deferred i)) := by
  simp only [Media.next, runDeferred]
  cases m.deferred i <;> exact ⟨_, _, _, _, _, rfl⟩

theorem Numbered.stepJob (h : m.Numbered) (a : Actor) (ok : Bool) : Numbered (m.stepJob a ok) := by
  cases hstage : (m.jobs a).stage with
  | idle | done | unregisterPort | takeActive | destroyPort | registerCleanup =>
    simp only [Media.stepJob, hstage]
    exact ⟨h.callback, h.confOp, h.deferred⟩
  | removePort conf =>
    simp only [Media.stepJob, hstage]
    cases ok <;> exact ⟨h.callback, h.confOp, h.deferred⟩
  | takeCleanup conf =>
    simp only [Media.stepJob, hstage, takePendingCleanup]
    cases m.pendingCleanup.lookup conf with
    | none => exact ⟨h.callback, h.confOp, h.deferred⟩
    | some cleanup =>
      have := h.spawnDeferred cleanup
      exact ⟨this.callback, this.confOp, this.deferred⟩
  | defer =>
    have := h.spawnDeferred ⟨(m.jobs a).port, none⟩
    simp only [Media.stepJob, hstage]
    exact ⟨this.callback, this.confOp, this.deferred⟩

theorem Numbered.next (h : m.Numbered) {b : MediaAction} (hen : m.enabled b) : Numbered (m.next b) := by
  have hj : ∀ {j : Nat} {pc : CallbackPc}, (m.callbacks j).pc = pc → pc ≠ .done →
      j < m.nextCallback := fun hpc hne => h.lt_nextCallback (hpc ▸ hne)
  cases b with
  | job a ok => exact h.stepJob a ok
  | mediaState c =>
    refine ⟨fun j hle => ?_, h.confOp, h.deferred⟩
    have hne : j ≠ m.nextCallback := (Nat.lt_of_succ_le hle).ne'
    simp only [Media.next, spawnCallback, Media.setCallback, Function.update_of_ne hne]
    exact h.callback j (Nat.le_of_succ_le hle)
  | takePort j =>
    simp only [Media.next, Media.takePort, unregisterPendingPort]
    cases m.pendingPorts.lookup (m.callbacks j).callId with
    | none =>
      have := h.setCallback (hj hen nofun) { m.callbacks j with pc := .done }
      exact ⟨this.callback, this.confOp, this.deferred⟩
    | some port =>
      have := h.setCallback (hj hen nofun) { m.callbacks j with port := port, pc := .getConfPort }
      exact ⟨this.callback, this.confOp, this.deferred⟩
  | getConfPort j ok => exact h.setCallback (hj hen nofun) _
  | createPool j ok => cases ok <;> exact h.setCallback (hj hen nofun) _
  | addPort j portId =>
    cases portId with
    | none =>
      have := h.setCallback (hj hen.1 nofun) { m.callbacks j with pc := .putBack }
      exact ⟨this.callback, this.confOp, this.deferred⟩
    | some conf =>
      have := h.setCallback (hj hen.1 nofun) { m.callbacks j with portId := conf, pc := .publish }
      exact ⟨this.callback, this.confOp, this.deferred⟩
  | publish j =>
    have := h.setCallback (hj hen nofun) { m.callbacks j with pc := .notify }
    exact ⟨this.callback, this.confOp, this.deferred⟩
  | notify j | putBack j =>
    have := h.setCallback (hj hen nofun) { m.callbacks j with pc := .done }
    exact ⟨this.callback, this.confOp, this.deferred⟩
  | portRemoved conf ok =>
    refine ⟨h.callback, fun i hi => ?_, h.deferred⟩
    have hne : i ≠ m.nextConfOp := (Nat.lt_of_succ_le hi).ne'
    simp only [Media.next, portRemoved, Function.update_of_ne hne]
    exact h.confOp i (Nat.le_of_succ_le hi)
  | confOp i =>
    have hset : ∀ op, ∀ i', m.nextConfOp ≤ i' → Function.update m.confOps i op i' = .done := by
      intro op i' hi'
      have hne : i' ≠ i := by
        intro heq
        subst i'
        have hrun : (m.confOps i).running = true := hen
        rw [h.confOp i hi'] at hrun
        cases hrun
      rw [Function.update_of_ne hne]
      exact h.confOp i' hi'
    simp only [Media.next, stepConfOp]
    cases m.confOps i with
    | skipped | done => exact h
    | take conf ok =>
      simp only [takePendingCleanup]
      cases m.pendingCleanup.lookup conf <;> exact ⟨h.callback, hset _, h.deferred⟩
    | destroy cleanup => exact ⟨h.callback, hset _, h.deferred⟩
  | deferred i =>
    simp only [Media.next, runDeferred]
    cases hd : m.deferred i with
    | none => exact h
    | some cleanup =>
      refine ⟨h.callback, h.confOp, fun i' hi' => ?_⟩
      by_cases heq : i' = i
      · rw [heq]
        exact Function.update_self _ _ _
      · exact (Function.update_of_ne heq _ _).trans (h.deferred i' hi')

end Media

/-! ### What teardowns hand on -/

/-- The places on the way from a teardown to the free. -/
inductive TeardownPlace
  | job (a : Actor)
  | cleanup (conf : ConfPortId)
  | deferred (i : Nat)
  | confOp (i : Nat)
  deriving DecidableEq

/-- The teardown has handed on what it had. -/
def Stage.handedOn : Stage → Bool
  | .idle | .removePort _ | .takeCleanup _ | .done => true
  | _ => false

/-- The cleanup a completion callback has taken and not carried out. -/
def ConfOp.cleanup : ConfOp → Option Cleanup
  | .destroy cleanup | .skipped cleanup => some cleanup
  | _ => none

/-- What is handed on: what a teardown has of it, what a cleanup has of it, and what has been freed, given
the destroyed ports and the released pools. -/
structure Resource (ι : Type) where
  ofJob : Job → Option ι
  ofCleanup : Cleanup → Option ι
  freed : List MediaPort → List Pool → List ι
  ofJob_handedOn : ∀ job, job.stage.handedOn = true → ofJob job = none
  ofJob_takeActive : ∀ job wasPending, job.stage = .unregisterPort →
    ofJob { job with stage := .takeActive wasPending } = ofJob job
  ofJob_registerCleanup : ∀ job active, job.stage = .registerCleanup active →
    ofJob job = ofCleanup ⟨job.port, some active.pool⟩
  ofJob_defer : ∀ job, job.stage = .defer → ofJob job = ofCleanup ⟨job.port, none⟩
  freed_destroyPort : ∀ job ports pools, job.stage = .destroyPort →
    freed (job.port :: ports) pools = (ofJob job).toList ++ freed ports pools
  freed_cleanup : ∀ cleanup ports pools, freed (cleanup.port :: ports) (cleanup.pool.toList ++ pools)
    = (ofCleanup cleanup).toList ++ freed ports pools

namespace Resource

variable {ι : Type} (R : Resource ι) {m : Media} {a : Actor} {ok : Bool}

/-- What is where on the way to the free. -/
def heldAt (m : Media) : TeardownPlace → Option ι
  | .job a => R.ofJob (m.jobs a)
  | .cleanup conf => (m.pendingCleanup.lookup conf).bind R.ofCleanup
  | .deferred i => (m.deferred i).bind R.ofCleanup
  | .confOp i => (m.confOps i).cleanup.bind R.ofCleanup

theorem heldAt_startJob (job : Job) : R.heldAt (m.startJob a job)
    = Function.update (R.heldAt m) (.job a) (R.ofJob job) := by
  refine Function.eq_update_iff.2 ⟨?_, fun r hr => ?_⟩
  · simp only [heldAt, Media.startJob, Function.update_self]
  · cases r with
    | job a' =>
      have hne : a' ≠ a := fun heq => hr (congrArg _ heq)
      simp only [heldAt, Media.startJob, Function.update_of_ne hne]
    | _ => rfl

theorem heldAt_setStage (stage : Stage) : R.heldAt (m.setStage a stage)
    = Function.update (R.heldAt m) (.job a) (R.ofJob { m.jobs a with stage := stage }) :=
  R.heldAt_startJob _

theorem heldAt_registerPendingCleanup (conf : ConfPortId) (cleanup : Cleanup) :
    R.heldAt (m.registerPendingCleanup conf cleanup)
      = Function.update (R.heldAt m) (.cleanup conf) (R.ofCleanup cleanup) := by
  refine Function.eq_update_iff.2 ⟨?_, fun r hr => ?_⟩
  · simp only [heldAt, Media.registerPendingCleanup, FiniteMap.lookup_insert, if_true, Option.bind_some]
  · cases r with
    | cleanup conf' =>
      have hne : conf' ≠ conf := fun heq => hr (congrArg _ heq)
      simp only [heldAt, Media.registerPendingCleanup, FiniteMap.lookup_insert, if_neg hne]
    | _ => rfl

theorem heldAt_takePendingCleanup (conf : ConfPortId) : R.heldAt (m.takePendingCleanup conf).2
    = Function.update (R.heldAt m) (.cleanup conf) none := by
  refine Function.eq_update_iff.2 ⟨?_, fun r hr => ?_⟩
  · simp only [heldAt, Media.takePendingCleanup, FiniteMap.lookup_erase, if_true, Option.bind_none]
  · cases r with
    | cleanup conf' =>
      have hne : conf' ≠ conf := fun heq => hr (congrArg _ heq)
      simp only [heldAt, Media.takePendingCleanup, FiniteMap.lookup_erase, if_neg hne]
    | _ => rfl

theorem heldAt_spawnDeferred (cleanup : Cleanup) : R.heldAt (m.spawnDeferred cleanup)
    = Function.update (R.heldAt m) (.deferred m.nextDeferred) (R.ofCleanup cleanup) := by
  refine Function.eq_update_iff.2 ⟨?_, fun r hr => ?_⟩
  · simp only [heldAt, Media.spawnDeferred, Function.update_self, Option.bind_some]
  · cases r with
    | deferred i =>
      have hne : i ≠ m.nextDeferred := fun heq => hr (congrArg _ heq)
      simp only [heldAt, Media.spawnDeferred, Function.update_of_ne hne]
    | _ => rfl

theorem heldAt_finishDeferred (i : Nat) :
    R.heldAt { m with deferred := Function.update m.deferred i none }
      = Function.update (R.heldAt m) (.deferred i) none := by
  refine Function.eq_update_iff.2 ⟨?_, fun r hr => ?_⟩
  · simp only [heldAt, Function.update_self, Option.bind_none]
  · cases r with
    | deferred i' =>
      have hne : i' ≠ i := fun heq => hr (congrArg _ heq)
      simp only [heldAt, Function.update_of_ne hne]
    | _ => rfl

theorem heldAt_setConfOp (i : Nat) (op : ConfOp) : R.heldAt (m.setConfOp i op)
    = Function.update (R.heldAt m) (.confOp i) (op.cleanup.bind R.ofCleanup) := by
  refine Function.eq_update_iff.2 ⟨?_, fun r hr => ?_⟩
  · simp only [heldAt, Media.setConfOp, Function.update_self]
  · cases r with
    | confOp i' =>
      have hne : i' ≠ i := fun heq => hr (congrArg _ heq)
      simp only [heldAt, Media.setConfOp, Function.update_of_ne hne]
    | _ => rfl

/-! ### Steps on the way to the free -/

/-- What a teardown is about to overwrite in `PENDING_CLEANUP`. -/
def overwritten (m : Media) (a : Actor) : Option ι :=
  match (m.jobs a).stage with
  | .registerCleanup active => R.heldAt m (.cleanup active.confPortId)
  | _ => none

section Steps

variable {α : Type} {f : α → Option ι} {drops : Option ι → Prop}
  {Q : (α ⊕ TeardownPlace → Option ι) → List ι → Prop}

/-- A property of what is where, with `f` for what has not come to a teardown yet. -/
def Holds (Q : (α ⊕ TeardownPlace → Option ι) → List ι → Prop) (f : α → Option ι) (m : Media) : Prop :=
  Q (Sum.elim f (R.heldAt m)) (R.freed m.destroyed m.released)

variable {R}

theorem Holds.setStage_same (h : R.Holds Q f m) {stage : Stage}
    (hsame : R.ofJob { m.jobs a with stage := stage } = R.ofJob (m.jobs a)) :
    R.Holds Q f (m.setStage a stage) := by
  have hself : R.ofJob (m.jobs a) = R.heldAt m (.job a) := rfl
  rw [Holds, heldAt_setStage, hsame, hself, Function.update_eq_self]
  exact h

variable [DecidableEq α]

theorem Holds.lose (h : R.Holds Q f m) (hQ : Custodial drops Q) {r : TeardownPlace}
    (hdrop : drops (R.heldAt m r)) :
    Q (Sum.elim f (Function.update (R.heldAt m) r none)) (R.freed m.destroyed m.released) := by
  rw [← Sum.update_elim_inr]
  exact hQ.lose (.inr r) h hdrop

theorem Holds.move (h : R.Holds Q f m) (hQ : Custodial drops Q) (r : TeardownPlace) {r' : TeardownPlace}
    (hdrop : drops (R.heldAt m r')) :
    Q (Sum.elim f (Function.update (Function.update (R.heldAt m) r none) r' (R.heldAt m r)))
      (R.freed m.destroyed m.released) := by
  rw [← Sum.update_elim_inr, ← Sum.update_elim_inr]
  exact hQ.move (.inr r) (.inr r') h hdrop

theorem Holds.release (h : R.Holds Q f m) (hQ : Custodial drops Q) (r : TeardownPlace) :
    Q (Sum.elim f (Function.update (R.heldAt m) r none))
      ((R.heldAt m r).toList ++ R.freed m.destroyed m.released) := by
  rw [← Sum.update_elim_inr]
  exact hQ.release (.inr r) h

theorem Holds.setStage_handedOn (h : R.Holds Q f m) (hQ : Custodial drops Q) {stage : Stage}
    (hstage : stage.handedOn = true) (hdrop : drops (R.heldAt m (.job a))) :
    R.Holds Q f (m.setStage a stage) := by
  rw [Holds, heldAt_setStage, R.ofJob_handedOn _ hstage]
  exact h.lose hQ hdrop

theorem Holds.deferCleanup (h : R.Holds Q f m) (hQ : Custodial drops Q) (hnum : m.Numbered)
    {conf : ConfPortId} {cleanup : Cleanup} (hcleanup : m.pendingCleanup.lookup conf = some cleanup) :
    R.Holds Q f ((m.takePendingCleanup conf).2.spawnDeferred cleanup) := by
  have hat : R.heldAt m (.cleanup conf) = R.ofCleanup cleanup := by
    rw [heldAt, hcleanup]
    rfl
  have hfresh : R.heldAt m (.deferred m.nextDeferred) = none := by
    rw [heldAt, hnum.deferred _ le_rfl]
    rfl
  have hmove := h.move hQ (.cleanup conf) (hfresh ▸ hQ.empty)
  rw [Holds, heldAt_spawnDeferred, heldAt_takePendingCleanup, ← hat]
  exact hmove

/-- Every step of a teardown but the one that looks at `ACTIVE_MEDIA`. -/
theorem Holds.stepJob (h : R.Holds Q f m) (hQ : Custodial drops Q) (hnum : m.Numbered)
    (htake : ∀ wasPending, (m.jobs a).stage ≠ .takeActive wasPending)
    (hdrop : drops (R.overwritten m a)) : R.Holds Q f (m.stepJob a ok) := by
  have hempty : (m.jobs a).stage.handedOn = true → drops (R.heldAt m (.job a)) := by
    intro hstage
    rw [heldAt, R.ofJob_handedOn _ hstage]
    exact hQ.empty
  cases hstage : (m.jobs a).stage with
  | idle | done => simpa only [Media.stepJob, hstage] using h
  | takeActive wasPending => exact absurd hstage (htake wasPending)
  | unregisterPort =>
    simp only [Media.stepJob, hstage]
    exact Holds.setStage_same (m := (m.unregisterPendingPort _).2) h
      (R.ofJob_takeActive (m.jobs a) _ hstage)
  | destroyPort =>
    have hrelease := h.release hQ (.job a)
    rw [heldAt, ← R.freed_destroyPort _ _ _ hstage] at hrelease
    simp only [Media.stepJob, hstage]
    rw [Holds, heldAt_setStage, R.ofJob_handedOn _ rfl]
    exact hrelease
  | registerCleanup active =>
    have hover : R.overwritten m a = R.heldAt m (.cleanup active.confPortId) := by
      simp only [overwritten, hstage]
    have hmove := h.move hQ (.job a) (hover ▸ hdrop)
    have hne : TeardownPlace.job a ≠ .cleanup active.confPortId := nofun
    rw [heldAt, R.ofJob_registerCleanup _ active hstage, Function.update_comm hne] at hmove
    simp only [Media.stepJob, hstage]
    rw [Holds, heldAt_setStage, R.ofJob_handedOn _ rfl, heldAt_registerPendingCleanup]
    exact hmove
  | removePort conf =>
    have hjob := hempty (by rw [hstage]; rfl)
    simp only [Media.stepJob, hstage]
    split
    · exact Holds.setStage_handedOn (m := { m with removing := conf :: m.removing }) h hQ rfl hjob
    · exact h.setStage_handedOn hQ rfl hjob
  | takeCleanup conf =>
    have hjob := hempty (by rw [hstage]; rfl)
    simp only [Media.stepJob, hstage, Media.takePendingCleanup]
    cases hcleanup : m.pendingCleanup.lookup conf with
    | some cleanup => exact (h.deferCleanup hQ hnum hcleanup).setStage_handedOn hQ rfl hjob
    | none =>
      have hnone : R.heldAt m (.cleanup conf) = none := by
        rw [heldAt, hcleanup]
        rfl
      refine Holds.setStage_handedOn (m := (m.takePendingCleanup conf).2) ?_ hQ rfl hjob
      rw [Holds, heldAt_takePendingCleanup]
      exact h.lose hQ (hnone ▸ hQ.empty)
  | defer =>
    have hfresh : R.heldAt m (.deferred m.nextDeferred) = none := by
      rw [heldAt, hnum.deferred _ le_rfl]
      rfl
    have hmove := h.move hQ (.job a) (hfresh ▸ hQ.empty)
    have hne : TeardownPlace.job a ≠ .deferred m.nextDeferred := nofun
    rw [heldAt, R.ofJob_defer _ hstage, Function.update_comm hne] at hmove
    simp only [Media.stepJob, hstage]
    rw [Holds, heldAt_setStage, R.ofJob_handedOn _ rfl, heldAt_spawnDeferred]
    exact hmove

theorem Holds.portRemoved (h : R.Holds Q f m) (hQ : Custodial drops Q) (hnum : m.Numbered)
    (conf : ConfPortId) : R.Holds Q f (m.portRemoved conf ok) := by
  have hfresh : R.heldAt m (.confOp m.nextConfOp) = none := by
    rw [heldAt, hnum.confOp _ le_rfl]
    rfl
  have hlose := h.lose hQ (hfresh ▸ hQ.empty)
  have hop : (ConfOp.take conf ok).cleanup.bind R.ofCleanup = none := rfl
  rw [← hop, ← heldAt_setConfOp] at hlose
  exact hlose

theorem Holds.stepConfOp (h : R.Holds Q f m) (hQ : Custodial drops Q) (i : Nat) :
    R.Holds Q f (m.stepConfOp i) := by
  cases hop : m.confOps i with
  | skipped | done => simpa only [Media.stepConfOp, hop] using h
  | take conf ok =>
    have hempty : R.heldAt m (.confOp i) = none := by
      rw [heldAt, hop]
      rfl
    simp only [Media.stepConfOp, hop, Media.takePendingCleanup]
    cases hcleanup : m.pendingCleanup.lookup conf with
    | none =>
      have hnone : R.heldAt m (.cleanup conf) = none := by
        rw [heldAt, hcleanup]
        rfl
      show R.Holds Q f ((m.takePendingCleanup conf).2.setConfOp i .done)
      have hlose : R.Holds Q f (m.takePendingCleanup conf).2 := by
        rw [Holds, heldAt_takePendingCleanup]
        exact h.lose hQ (hnone ▸ hQ.empty)
      rw [Holds, heldAt_setConfOp]
      exact hlose.lose hQ (show drops (R.heldAt m (.confOp i)) from hempty ▸ hQ.empty)
    | some cleanup =>
      have hmove := h.move hQ (.cleanup conf) (hempty ▸ hQ.empty)
      have hat : R.heldAt m (.cleanup conf) = R.ofCleanup cleanup := by
        rw [heldAt, hcleanup]
        rfl
      rw [hat, ← heldAt_takePendingCleanup] at hmove
      show R.Holds Q f ((m.takePendingCleanup conf).2.setConfOp i _)
      rw [Holds, heldAt_setConfOp]
      cases ok <;> exact hmove
  | destroy cleanup =>
    have hrelease := h.release hQ (.confOp i)
    rw [heldAt, hop] at hrelease
    simp only [Media.stepConfOp, hop]
    rw [Holds, heldAt_setConfOp]
    show Q _ (R.freed (cleanup.port :: m.destroyed) (cleanup.pool.toList ++ m.released))
    rw [R.freed_cleanup]
    exact hrelease

theorem Holds.runDeferred (h : R.Holds Q f m) (hQ : Custodial drops Q) (i : Nat) :
    R.Holds Q f (m.runDeferred i) := by
  cases hd : m.deferred i with
  | none => simpa only [Media.runDeferred, hd] using h
  | some cleanup =>
    have hrelease := h.release hQ (.deferred i)
    rw [heldAt, hd, ← heldAt_finishDeferred] at hrelease
    simp only [Media.runDeferred, hd]
    show Q _ (R.freed (cleanup.port :: m.destroyed) (cleanup.pool.toList ++ m.released))
    rw [R.freed_cleanup]
    exact hrelease

end Steps

end Resource

/-! ### Ports -/

/-- A teardown keeps its port until it hands it on. -/
def Job.heldPort (job : Job) : Option MediaPort := if job.stage.handedOn then none else some job.port

theorem Job.heldPort_of_stage {job : Job} (h : job.stage.handedOn = false) :
    job.heldPort = some job.port := by
  rw [heldPort, h]
  rfl

def ports : Resource MediaPort where
  ofJob := Job.heldPort
  ofCleanup cleanup := some cleanup.port
  freed ports _ := ports
  ofJob_handedOn job h := by rw [Job.heldPort, h]; rfl
  ofJob_takeActive job wasPending h := by
    have hport : job.heldPort = some job.port := Job.heldPort_of_stage (by rw [h]; rfl)
    rw [hport]
    rfl
  ofJob_registerCleanup job active h := Job.heldPort_of_stage (by rw [h]; rfl)
  ofJob_defer job h := Job.heldPort_of_stage (by rw [h]; rfl)
  freed_destroyPort job ports pools h := by
    rw [Job.heldPort_of_stage (by rw [h]; rfl)]
    rfl
  freed_cleanup _ _ _ := rfl

/-- The media port of a setup task that has not handed it on. -/
def SetupPc.port (k : Call) : SetupPc → Option MediaPort
  | .rejected | .teardown | .unregisterReady | .returned => none
  | _ => some k

/-- The places of a port before a teardown has it. -/
inductive PortPlace
  | setup (k : Call)
  | session (c : CallId)
  deriving DecidableEq

namespace Manager

variable {m : Manager} {media : Media} {k : Call} {b : SetupAction}

def portAt (m : Manager) : PortPlace → Option MediaPort
  | .setup k => (m.setups k).pc.port k
  | .session c => (m.sessions.lookup c).map CallSession.mediaPort

theorem portAt_setup : (m.next (.setup k b)).portAt
    = Function.update (portAt { m with sessions := m.stepSessions k b }) (.setup k)
      ((m.stepSetup k b).pc.port k) := by
  refine Function.eq_update_iff.2 ⟨?_, fun r hr => ?_⟩
  · simp only [portAt, next, Function.update_self]
  · cases r with
    | setup k' =>
      have hne : k' ≠ k := fun heq => hr (congrArg _ heq)
      simp only [portAt, next, Function.update_of_ne hne]
    | session c => rfl

theorem portAt_insertSession : portAt { m with sessions := m.stepSessions k .insertSession }
    = Function.update m.portAt (.session (m.callId k)) (some k) := by
  refine Function.eq_update_iff.2 ⟨?_, fun r hr => ?_⟩
  · simp only [portAt, stepSessions, FiniteMap.lookup_insert, if_true, Option.map_some]
  · cases r with
    | setup k' => rfl
    | session c =>
      have hne : c ≠ m.callId k := fun heq => hr (congrArg _ heq)
      simp only [portAt, stepSessions, FiniteMap.lookup_insert, if_neg hne]

theorem portAt_disconnected : (m.next (.disconnected k)).portAt
    = Function.update m.portAt (.session (m.callId k)) none := by
  refine Function.eq_update_iff.2 ⟨?_, fun r hr => ?_⟩
  · simp only [portAt, next, FiniteMap.lookup_erase, if_true, Option.map_none]
  · cases r with
    | setup k' => rfl
    | session c =>
      have hne : c ≠ m.callId k := fun heq => hr (congrArg _ heq)
      simp only [portAt, next, FiniteMap.lookup_erase, if_neg hne]

theorem portAt_incomingCall (hpc : (m.setups k).pc = .unspawned) :
    (m.next (.incomingCall k)).portAt = m.portAt := by
  funext r
  cases r with
  | setup k' =>
    simp only [portAt, next]
    by_cases heq : k' = k
    · rw [heq, Function.update_self, hpc]
      rfl
    · rw [Function.update_of_ne heq]
  | session c => rfl

theorem stepSetup_port : (m.stepSetup k b).pc.port k = none ∨
    (m.stepSetup k b).pc.port k = b.pc.port k := by
  cases b with
  | checkLimit | checkCancel | teardownDone =>
    simp only [stepSetup]
    split <;> simp [SetupPc.port, SetupAction.pc]
  | answer ok => cases ok <;> exact .inr rfl
  | mediaReady =>
    simp only [stepSetup]
    split <;> exact .inr rfl
  | _ => first | exact .inr rfl | exact .inl rfl

end Manager

namespace State

variable {s : State} {k : Call} {b : SetupAction} {drops : Option MediaPort → Prop}
  {Q : (PortPlace ⊕ TeardownPlace → Option MediaPort) → List MediaPort → Prop}

/-- A property of which port is where, and of which are destroyed. -/
def PortsHold (Q : (PortPlace ⊕ TeardownPlace → Option MediaPort) → List MediaPort → Prop)
    (s : State) : Prop :=
  ports.Holds Q s.mgr.portAt s.media

/-- Every port is in one place, and is destroyed once. -/
def PortsSafe (s : State) : Prop := s.PortsHold Settled

/-- The port that a step leaves with nobody. -/
def dropsPort (s : State) : Action → Option MediaPort
  | .media (.job a _) =>
    match (s.media.jobs a).stage with
    | .takeActive wasPending =>
      if (s.media.jobs a).afterLookup wasPending
          (s.media.activeMedia.lookup (s.media.jobs a).callId) = .done then
        some (s.media.jobs a).port
      else none
    | _ => ports.overwritten s.media a
  | .manager (.setup k .checkLimit) =>
    if (s.mgr.stepSetup k .checkLimit).pc = .rejected then some k else none
  | .manager (.setup k .insertSession) => s.mgr.portAt (.session (s.mgr.callId k))
  | .manager (.setup k .abortSetup) | .manager (.setup k .checkCancel) =>
    ports.heldAt s.media (.job (.setup k))
  | .manager (.disconnected _) => ports.heldAt s.media (.job .main)
  | _ => none

theorem PortsHold.media (h : s.PortsHold Q) (hQ : Custodial drops Q) (hnum : s.media.Numbered)
    {b : MediaAction} (hdrop : drops (s.dropsPort (.media b))) : PortsHold Q (s.next (.media b)) := by
  cases b with
  | job a ok =>
    cases hstage : (s.media.jobs a).stage with
    | takeActive wasPending =>
      have hheld : (s.media.jobs a).heldPort = some (s.media.jobs a).port :=
        Job.heldPort_of_stage (by rw [hstage]; rfl)
      simp only [dropsPort, hstage] at hdrop
      simp only [PortsHold, next, Media.next, Media.stepJob, hstage]
      by_cases hdone : (s.media.jobs a).afterLookup wasPending
          (s.media.activeMedia.lookup (s.media.jobs a).callId) = .done
      · rw [if_pos hdone, ← hheld] at hdrop
        refine Resource.Holds.setStage_handedOn (m := (s.media.takeActiveMedia _).2) h hQ ?_ hdrop
        show Stage.handedOn _ = true
        rw [show (s.media.jobs a).afterLookup wasPending (s.media.takeActiveMedia _).1 = .done from hdone]
        rfl
      · apply Resource.Holds.setStage_same (m := (s.media.takeActiveMedia _).2) h
        refine Eq.trans ?_ hheld.symm
        apply Job.heldPort_of_stage
        show ((s.media.jobs a).afterLookup wasPending _).handedOn = false
        revert hdone
        simp only [Media.takeActiveMedia, Job.afterLookup]
        cases wasPending <;> cases s.media.activeMedia.lookup (s.media.jobs a).callId <;>
          cases (s.media.jobs a).skipUnknown <;> simp [Stage.handedOn]
    | _ =>
      simp only [dropsPort, hstage] at hdrop
      exact Resource.Holds.stepJob h hQ hnum (fun wasPending => by rw [hstage]; exact nofun) hdrop
  | portRemoved conf ok => exact Resource.Holds.portRemoved h hQ hnum conf
  | confOp i => exact Resource.Holds.stepConfOp h hQ i
  | deferred i => exact Resource.Holds.runDeferred h hQ i
  | takePort j =>
    simp only [PortsHold, next, Media.next, Media.takePort, Media.unregisterPendingPort]
    cases s.media.pendingPorts.lookup (s.media.callbacks j).callId <;> exact h
  | createPool j ok => cases ok <;> exact h
  | addPort j portId => cases portId <;> exact h
  | mediaState | getConfPort | publish | notify | putBack => exact h

theorem PortsHold.setup (h : s.PortsHold Q) (hQ : Custodial drops Q)
    (hpc : (s.mgr.setups k).pc = b.pc) (hb : b ≠ .insertSession)
    (hdrop : (s.mgr.stepSetup k b).pc.port k = none → drops (b.pc.port k)) :
    ports.Holds Q (s.mgr.next (.setup k b)).portAt s.media := by
  have hself : b.pc.port k = Sum.elim s.mgr.portAt (ports.heldAt s.media) (.inl (.setup k)) := by
    rw [Sum.elim_inl, Manager.portAt, hpc]
  rw [Resource.Holds, Manager.portAt_setup, Manager.stepSessions_of_ne hb, ← Sum.update_elim_inl]
  by_cases hport : (s.mgr.stepSetup k b).pc.port k = none
  · have hdrop := hdrop hport
    rw [hself] at hdrop
    rw [hport]
    exact hQ.lose _ h hdrop
  · rcases Manager.stepSetup_port (m := s.mgr) (k := k) (b := b) with hnone | hsame
    · exact absurd hnone hport
    · rw [hsame, hself, Function.update_eq_self]
      exact h

theorem PortsHold.startJob (h : s.PortsHold Q) (hQ : Custodial drops Q) (hb : b ≠ .insertSession)
    (hpc : (s.mgr.setups k).pc.port k = some k) (hpc' : (s.mgr.stepSetup k b).pc.port k = none)
    {job : Job} (hjob : job.heldPort = some k) (hdrop : drops (ports.heldAt s.media (.job (.setup k)))) :
    ports.Holds Q (s.mgr.next (.setup k b)).portAt (s.media.startJob (.setup k) job) := by
  have hmove := hQ.move (.inl (.setup k)) (.inr (.job (.setup k))) h hdrop
  rw [Sum.elim_inl, show s.mgr.portAt (.setup k) = some k from hpc, Sum.update_elim_inl,
    Sum.update_elim_inr] at hmove
  rw [Resource.Holds, Resource.heldAt_startJob, Manager.portAt_setup, Manager.stepSessions_of_ne hb, hpc']
  show Q (Sum.elim _ (Function.update _ _ job.heldPort)) _
  rw [hjob]
  exact hmove

theorem PortsHold.manager {a : ManagerAction} (h : s.PortsHold Q) (hQ : Custodial drops Q)
    (hen : s.mgr.enabled a) (hdrop : drops (s.dropsPort (.manager a))) :
    PortsHold Q (s.next (.manager a)) := by
  cases a with
  | newCall | endCall | cancelPending | sessionTornDown => exact h
  | incomingCall k =>
    simp only [PortsHold, next]
    rw [Manager.portAt_incomingCall hen.2.2.1]
    exact h
  | disconnected k =>
    simp only [PortsHold, next, mediaAfter]
    cases hsession : s.mgr.sessions.lookup (s.mgr.callId k) with
    | none =>
      have hnone : s.mgr.portAt (.session (s.mgr.callId k)) = none := by
        rw [Manager.portAt, hsession]
        rfl
      rw [Resource.Holds, Manager.portAt_disconnected, ← Sum.update_elim_inl]
      apply hQ.lose _ h
      rw [Sum.elim_inl, hnone]
      exact hQ.empty
    | some session =>
      have hmove := hQ.move (.inl (.session (s.mgr.callId k))) (.inr (.job .main)) h hdrop
      have hport : s.mgr.portAt (.session (s.mgr.callId k)) = some session.mediaPort := by
        rw [Manager.portAt, hsession]
        rfl
      rw [Sum.elim_inl, hport, Sum.update_elim_inl, Sum.update_elim_inr] at hmove
      rw [Resource.Holds, Resource.heldAt_startJob, Manager.portAt_disconnected]
      exact hmove
  | setup k b =>
    have hpc : (s.mgr.setups k).pc = b.pc := hen.1
    cases b with
    | insertSession =>
      have hmove := hQ.move (.inl (.setup k)) (.inl (.session (s.mgr.callId k))) h hdrop
      have hport : s.mgr.portAt (.setup k) = some k := by
        rw [Manager.portAt, hpc]
        rfl
      have hne : PortPlace.setup k ≠ .session (s.mgr.callId k) := fun h => by cases h
      rw [Sum.elim_inl, hport, Sum.update_elim_inl, Sum.update_elim_inl,
        Function.update_comm hne, ← Manager.portAt_insertSession] at hmove
      simp only [PortsHold, next]
      rw [Resource.Holds, Manager.portAt_setup]
      exact hmove
    | abortSetup =>
      refine h.startJob hQ (b := .abortSetup) (fun h => by cases h) (by rw [hpc]; rfl) rfl ?_ hdrop
      unfold cleanupMediaPort
      cases (s.mgr.release k).1 <;> rfl
    | checkCancel =>
      simp only [PortsHold, next, mediaAfter]
      split
      · rename_i hcancel
        refine h.startJob hQ (b := .checkCancel) (fun h => by cases h) (by rw [hpc]; rfl) ?_ ?_ hdrop
        · simp only [Manager.stepSetup, hcancel, if_true]
          rfl
        · unfold lateCancel
          cases (s.mgr.setups k).owns <;> rfl
      · rename_i hcancel
        apply h.setup hQ hpc (fun h => by cases h)
        intro hport
        simp only [Manager.stepSetup, if_neg hcancel] at hport
        cases hport
    | checkLimit =>
      apply h.setup hQ hpc (fun h => by cases h)
      intro hport
      have hrejected : (s.mgr.stepSetup k .checkLimit).pc = .rejected := by
        revert hport
        simp only [Manager.stepSetup]
        split
        · exact fun _ => rfl
        · intro h
          cases h
      simp only [dropsPort, if_pos hrejected] at hdrop
      exact hdrop
    | teardownDone | unregisterReady => exact h.setup hQ hpc (fun h => by cases h) fun _ => hQ.empty
    | answer ok => cases ok <;> exact h.setup hQ hpc (fun h => by cases h) (fun h => by cases h)
    | mediaReady =>
      apply h.setup hQ hpc (fun h => by cases h)
      intro hport
      simp only [Manager.stepSetup] at hport
      split at hport <;> cases hport
    | _ => exact h.setup hQ hpc (fun h => by cases h) (fun h => by cases h)

end State

/-! ### Pools -/

def Stage.pool : Stage → Option Pool
  | .registerCleanup active => some active.pool
  | _ => none

def pools : Resource Pool where
  ofJob job := job.stage.pool
  ofCleanup := Cleanup.pool
  freed _ pools := pools
  ofJob_handedOn job h := by
    revert h
    cases job.stage <;> first | exact fun _ => rfl | exact nofun
  ofJob_takeActive job wasPending h := by rw [h]; rfl
  ofJob_registerCleanup job active h := by rw [h]; rfl
  ofJob_defer job h := by rw [h]; rfl
  freed_destroyPort job ports pools h := by rw [h]; rfl
  freed_cleanup _ _ _ := rfl

/-- The pool of an invocation of `on_call_media_state` that may still create it, or has not published it. -/
def CallbackPc.pool (j : Nat) : CallbackPc → Option Pool
  | .takePort | .getConfPort | .createPool | .addPort | .publish => some j
  | _ => none

/-- The same where the next invocation is the one with number `next`. -/
def CallbackPc.poolBelow (pc : CallbackPc) (next j : Nat) : Option Pool :=
  if next ≤ j then some j else pc.pool j

theorem CallbackPc.poolBelow_of_lt {pc : CallbackPc} {next j : Nat} (h : j < next) :
    pc.poolBelow next j = pc.pool j := if_neg (Nat.not_le.2 h)

theorem CallbackPc.poolBelow_of_le {pc : CallbackPc} {next j : Nat} (h : next ≤ j) :
    pc.poolBelow next j = some j := if_pos h

/-- The places of a pool before a teardown has it. -/
inductive PoolPlace
  | callback (j : Nat)
  | active (c : CallId)
  deriving DecidableEq

namespace Media

variable {m : Media}

def poolAt (m : Media) : PoolPlace → Option Pool
  | .callback j => (m.callbacks j).pc.poolBelow m.nextCallback j
  | .active c => (m.activeMedia.lookup c).map ActiveMedia.pool

variable {drops : Option Pool → Prop}
  {Q : (PoolPlace ⊕ TeardownPlace → Option Pool) → List Pool → Prop}

/-- A property of which pool is where, and of which are released. -/
def PoolsHold (Q : (PoolPlace ⊕ TeardownPlace → Option Pool) → List Pool → Prop) (m : Media) : Prop :=
  pools.Holds Q m.poolAt m

/-- Every pool is in one place, and is released once. -/
def PoolsSafe (m : Media) : Prop := m.PoolsHold Settled

/-- The pool that a step leaves with nobody, or the number of an invocation that will not create one. -/
def dropsPool (m : Media) : MediaAction → Option Pool
  | .job a _ =>
    match (m.jobs a).stage with
    | .takeActive true => m.poolAt (.active (m.jobs a).callId)
    | _ => pools.overwritten m a
  | .takePort j => if (m.pendingPorts.lookup (m.callbacks j).callId).isSome then none else some j
  | .getConfPort j ok | .createPool j ok => if ok then none else some j
  | .publish j => m.poolAt (.active (m.callbacks j).callId)
  | _ => none

theorem poolAt_setCallback {j : Nat} (hj : j < m.nextCallback) (callback : MediaCallback) :
    (m.setCallback j callback).poolAt
      = Function.update m.poolAt (.callback j) (callback.pc.pool j) := by
  refine Function.eq_update_iff.2 ⟨?_, fun r hr => ?_⟩
  · simp only [poolAt, setCallback, Function.update_self, CallbackPc.poolBelow_of_lt hj]
  · cases r with
    | callback j' =>
      have hne : j' ≠ j := fun heq => hr (congrArg _ heq)
      simp only [poolAt, setCallback, Function.update_of_ne hne]
    | active c => rfl

theorem poolAt_takeActiveMedia (c : CallId) : (m.takeActiveMedia c).2.poolAt
    = Function.update m.poolAt (.active c) none := by
  refine Function.eq_update_iff.2 ⟨?_, fun r hr => ?_⟩
  · simp only [poolAt, takeActiveMedia, FiniteMap.lookup_erase, if_true, Option.map_none]
  · cases r with
    | callback j => rfl
    | active c' =>
      have hne : c' ≠ c := fun heq => hr (congrArg _ heq)
      simp only [poolAt, takeActiveMedia, FiniteMap.lookup_erase, if_neg hne]

theorem poolAt_publish (c : CallId) (active : ActiveMedia) :
    poolAt { m with activeMedia := m.activeMedia.insert c active }
      = Function.update m.poolAt (.active c) (some active.pool) := by
  refine Function.eq_update_iff.2 ⟨?_, fun r hr => ?_⟩
  · simp only [poolAt, FiniteMap.lookup_insert, if_true, Option.map_some]
  · cases r with
    | callback j => rfl
    | active c' =>
      have hne : c' ≠ c := fun heq => hr (congrArg _ heq)
      simp only [poolAt, FiniteMap.lookup_insert, if_neg hne]

theorem poolAt_spawnCallback (c : CallId) : (m.spawnCallback c).poolAt = m.poolAt := by
  funext r
  cases r with
  | callback j =>
    show (Function.update m.callbacks m.nextCallback _ j).pc.poolBelow (m.nextCallback + 1) j
      = (m.callbacks j).pc.poolBelow m.nextCallback j
    rcases Nat.lt_trichotomy j m.nextCallback with hlt | rfl | hlt
    · rw [Function.update_of_ne hlt.ne, CallbackPc.poolBelow_of_lt (by omega),
        CallbackPc.poolBelow_of_lt hlt]
    · rw [Function.update_self, CallbackPc.poolBelow_of_lt (by omega),
        CallbackPc.poolBelow_of_le (by omega)]
      rfl
    · rw [CallbackPc.poolBelow_of_le (by omega), CallbackPc.poolBelow_of_le (by omega)]
  | active c => rfl

theorem PoolsHold.setCallback (h : m.PoolsHold Q) (hQ : Custodial drops Q) {j : Nat}
    (hj : j < m.nextCallback) {callback : MediaCallback}
    (hpool : callback.pc.pool j = none ∧ drops ((m.callbacks j).pc.pool j) ∨
      callback.pc.pool j = (m.callbacks j).pc.pool j) : PoolsHold Q (m.setCallback j callback) := by
  have hself : (m.callbacks j).pc.pool j
      = Sum.elim m.poolAt (pools.heldAt m) (.inl (.callback j)) := by
    rw [Sum.elim_inl, poolAt, CallbackPc.poolBelow_of_lt hj]
  rw [PoolsHold, Resource.Holds, poolAt_setCallback hj, ← Sum.update_elim_inl]
  rcases hpool with ⟨hpool, hdrop⟩ | hpool
  · rw [hself] at hdrop
    rw [hpool]
    exact hQ.lose _ h hdrop
  · rw [hpool]
    show Q (Function.update (Sum.elim m.poolAt (pools.heldAt m)) _ _) _
    rw [hself, Function.update_eq_self]
    exact h

theorem PoolsHold.takeActive (h : m.PoolsHold Q) (hQ : Custodial drops Q) {a : Actor}
    {ok wasPending : Bool} (hstage : (m.jobs a).stage = .takeActive wasPending)
    (hdrop : wasPending = true → drops (m.poolAt (.active (m.jobs a).callId))) :
    PoolsHold Q (m.stepJob a ok) := by
  simp only [Media.stepJob, hstage]
  have hjob : pools.heldAt m (.job a) = none := by
    rw [Resource.heldAt]
    show (m.jobs a).stage.pool = none
    rw [hstage]
    rfl
  have hlose : drops (m.poolAt (.active (m.jobs a).callId)) →
      PoolsHold Q (m.takeActiveMedia (m.jobs a).callId).2 := by
    intro hdrop
    rw [PoolsHold, Resource.Holds, poolAt_takeActiveMedia, ← Sum.update_elim_inl]
    exact hQ.lose (.inl (.active (m.jobs a).callId)) h hdrop
  cases hactive : m.activeMedia.lookup (m.jobs a).callId with
  | none =>
    have hpool : m.poolAt (.active (m.jobs a).callId) = none := by
      rw [poolAt, hactive]
      rfl
    apply Resource.Holds.setStage_same (hlose (hpool ▸ hQ.empty))
    show Stage.pool _ = (m.jobs a).stage.pool
    rw [hstage]
    simp only [takeActiveMedia, hactive, Job.afterLookup]
    cases wasPending <;> cases (m.jobs a).skipUnknown <;> rfl
  | some active =>
    cases wasPending
    · -- the pool leaves `ACTIVE_MEDIA` with the teardown
      have hmove := hQ.move (.inl (.active (m.jobs a).callId)) (.inr (.job a)) h
        (show drops (pools.heldAt m (.job a)) from hjob ▸ hQ.empty)
      have hpool : m.poolAt (.active (m.jobs a).callId) = some active.pool := by
        rw [poolAt, hactive]
        rfl
      rw [Sum.elim_inl, hpool, Sum.update_elim_inl, Sum.update_elim_inr,
        ← poolAt_takeActiveMedia] at hmove
      rw [PoolsHold, Resource.Holds, Resource.heldAt_setStage]
      simp only [takeActiveMedia, hactive, Job.afterLookup]
      exact hmove
    · apply Resource.Holds.setStage_same (hlose (hdrop rfl))
      show none = (m.jobs a).stage.pool
      rw [hstage]
      rfl

theorem poolAt_stepJob {a : Actor} {ok : Bool}
    (htake : ∀ wasPending, (m.jobs a).stage ≠ .takeActive wasPending) :
    (m.stepJob a ok).poolAt = m.poolAt := by
  have hframe := m.jobFrame_stepJob a ok
  have hactive : (m.stepJob a ok).activeMedia = m.activeMedia := by
    rcases hframe.activeMedia with hsame | ⟨⟨wasPending, hstage⟩, _⟩
    · exact hsame
    · exact absurd hstage (htake wasPending)
  funext r
  cases r with
  | callback j => simp only [poolAt, hframe.callbacks, hframe.nextCallback]
  | active c => simp only [poolAt, hactive]

theorem Frees.poolAt {m' : Media} (h : m.Frees m') : m'.poolAt = m.poolAt := by
  obtain ⟨_, _, _, _, _, rfl⟩ := h
  rfl

theorem PoolsHold.next (h : m.PoolsHold Q) (hQ : Custodial drops Q) (hnum : m.Numbered) {b : MediaAction}
    (hen : m.enabled b) (hdrop : drops (m.dropsPool b)) : PoolsHold Q (m.next b) := by
  have hj : ∀ {j : Nat} {pc : CallbackPc}, (m.callbacks j).pc = pc → pc ≠ .done →
      j < m.nextCallback := fun hpc hne => hnum.lt_nextCallback (hpc ▸ hne)
  cases b with
  | job a ok =>
    by_cases htake : ∃ wasPending, (m.jobs a).stage = .takeActive wasPending
    · obtain ⟨wasPending, hstage⟩ := htake
      apply h.takeActive hQ hstage
      intro htrue
      rw [htrue] at hstage
      simp only [dropsPool, hstage] at hdrop
      exact hdrop
    · have htake : ∀ wasPending, (m.jobs a).stage ≠ .takeActive wasPending :=
        fun wasPending hstage => htake ⟨wasPending, hstage⟩
      have hover : m.dropsPool (.job a ok) = pools.overwritten m a := by
        simp only [dropsPool]
        split
        · exact absurd ‹_› (htake true)
        · rfl
      rw [PoolsHold, Media.next, poolAt_stepJob htake]
      exact Resource.Holds.stepJob h hQ hnum htake (hover ▸ hdrop)
  | mediaState c =>
    rw [PoolsHold, Media.next, poolAt_spawnCallback]
    exact h
  | takePort j =>
    simp only [dropsPool] at hdrop
    simp only [Media.next, Media.takePort, unregisterPendingPort]
    cases hport : m.pendingPorts.lookup (m.callbacks j).callId with
    | none =>
      rw [hport] at hdrop
      refine PoolsHold.setCallback h hQ (hj hen nofun) (.inl ⟨rfl, ?_⟩)
      rw [show (m.callbacks j).pc = .takePort from hen]
      exact hdrop
    | some port => exact PoolsHold.setCallback h hQ (hj hen nofun) (.inr (by rw [hen]; rfl))
  | getConfPort j ok =>
    cases ok
    · refine h.setCallback hQ (hj hen nofun) (.inl ⟨rfl, ?_⟩)
      rw [show (m.callbacks j).pc = .getConfPort from hen]
      exact hdrop
    · exact h.setCallback hQ (hj hen nofun) (.inr (by rw [hen]; rfl))
  | createPool j ok =>
    cases ok
    · refine h.setCallback hQ (hj hen nofun) (.inl ⟨rfl, ?_⟩)
      rw [show (m.callbacks j).pc = .createPool from hen]
      exact hdrop
    · exact h.setCallback hQ (hj hen nofun) (.inr (by rw [hen]; rfl))
  | addPort j portId =>
    cases portId with
    | none =>
      have hrelease := hQ.release (.inl (.callback j)) h
      have hj := hj hen.1 nofun
      rw [Sum.elim_inl, poolAt, CallbackPc.poolBelow_of_lt hj, hen.1, Sum.update_elim_inl] at hrelease
      simp only [Media.next, Media.addPort]
      rw [PoolsHold, Resource.Holds, gotoCallback, poolAt_setCallback (m := m.poolRelease (some j)) hj]
      exact hrelease
    | some conf => exact PoolsHold.setCallback h hQ (hj hen.1 nofun) (.inr (by rw [hen.1]; rfl))
  | publish j =>
    have hj := hj hen nofun
    have hmove := hQ.move (.inl (.callback j)) (.inl (.active (m.callbacks j).callId)) h hdrop
    have hpool : m.poolAt (.callback j) = some j := by
      rw [poolAt, CallbackPc.poolBelow_of_lt hj, hen]
      rfl
    have hne : PoolPlace.callback j ≠ .active (m.callbacks j).callId := nofun
    rw [Sum.elim_inl, hpool, Sum.update_elim_inl, Sum.update_elim_inl, Function.update_comm hne] at hmove
    simp only [Media.next, Media.publish]
    rw [PoolsHold, Resource.Holds, gotoCallback,
      poolAt_setCallback (m := { m with activeMedia := m.activeMedia.insert _ _ }) hj, poolAt_publish]
    exact hmove
  | notify j => exact PoolsHold.setCallback h hQ (hj hen nofun) (.inr (by rw [hen]; rfl))
  | putBack j => exact PoolsHold.setCallback h hQ (hj hen nofun) (.inr (by rw [hen]; rfl))
  | portRemoved conf ok => exact Resource.Holds.portRemoved h hQ hnum conf
  | confOp i =>
    rw [PoolsHold, (m.frees_confOp i).poolAt]
    exact Resource.Holds.stepConfOp h hQ i
  | deferred i =>
    rw [PoolsHold, (m.frees_deferred i).poolAt]
    exact Resource.Holds.runDeferred h hQ i

end Media

/-! ### The whole system -/

/-- Where a teardown starts. -/
def Stage.starting : Stage → Bool
  | .unregisterPort | .takeActive false | .defer => true
  | _ => false

theorem Stage.cases_starting {stage : Stage} (h : stage.starting = true) :
    stage = .unregisterPort ∨ stage = .takeActive false ∨ stage = .defer := by
  cases stage with
  | unregisterPort => exact .inl rfl
  | takeActive wasPending =>
    cases wasPending
    · exact .inr (.inl rfl)
    · cases h
  | defer => exact .inr (.inr rfl)
  | _ => cases h

/-- Whose teardown a step of the manager may start. -/
def ManagerAction.teardown : ManagerAction → Option Actor
  | .setup k .abortSetup | .setup k .checkCancel => some (.setup k)
  | .disconnected _ => some .main
  | _ => none

namespace State

variable {s : State} {a : ManagerAction}

/-- What the manager does on the media side: it registers, unregisters, or starts a teardown. -/
theorem mediaAfter_cases (s : State) (a : ManagerAction) :
    (∃ r job, s.mediaAfter a = s.media.startJob r job ∧ job.stage.starting = true ∧
      a.teardown = some r) ∨
    ∃ pendingPorts ready mediaReadyTx, s.mediaAfter a =
      { s.media with pendingPorts := pendingPorts, ready := ready, mediaReadyTx := mediaReadyTx } := by
  have hsame : ∃ pendingPorts ready mediaReadyTx, s.media =
      { s.media with pendingPorts := pendingPorts, ready := ready, mediaReadyTx := mediaReadyTx } :=
    ⟨_, _, _, rfl⟩
  cases a with
  | disconnected k =>
    simp only [mediaAfter]
    cases s.mgr.sessions.lookup (s.mgr.callId k) with
    | none => exact .inr hsame
    | some session => exact .inl ⟨_, _, rfl, rfl, rfl⟩
  | setup k a =>
    cases a with
    | registerPort | registerReady | unregisterReady => exact .inr ⟨_, _, _, rfl⟩
    | abortSetup =>
      refine .inl ⟨_, _, rfl, ?_, rfl⟩
      unfold cleanupMediaPort
      cases (s.mgr.release k).1 <;> rfl
    | checkCancel =>
      simp only [mediaAfter]
      split
      · refine .inl ⟨_, _, rfl, ?_, rfl⟩
        unfold lateCancel
        cases (s.mgr.setups k).owns <;> rfl
      · exact .inr hsame
    | _ => exact .inr hsame
  | _ => exact .inr hsame

theorem numbered_mediaAfter (h : s.media.Numbered) : (s.mediaAfter a).Numbered := by
  rcases s.mediaAfter_cases a with ⟨r, job, heq, _⟩ | ⟨_, _, _, heq⟩ <;> rw [heq] <;>
    exact ⟨h.callback, h.confOp, h.deferred⟩

theorem poolsHold_mediaAfter {drops : Option Pool → Prop}
    {Q : (PoolPlace ⊕ TeardownPlace → Option Pool) → List Pool → Prop} (h : s.media.PoolsHold Q)
    (hQ : Custodial drops Q)
    (hdrop : ∀ r, a.teardown = some r → drops (pools.heldAt s.media (.job r))) :
    (s.mediaAfter a).PoolsHold Q := by
  rcases s.mediaAfter_cases a with ⟨r, job, heq, hstart, hr⟩ | ⟨_, _, _, heq⟩
  · have hpool : job.stage.pool = none := by
      rcases Stage.cases_starting hstart with h | h | h <;> rw [h] <;> rfl
    rw [heq, Media.PoolsHold, Resource.Holds, Resource.heldAt_startJob,
      show pools.ofJob job = none from hpool]
    exact Resource.Holds.lose h hQ (hdrop r hr)
  · rw [heq]
    exact h

end State

theorem reaches_numbered {n : Nat} {ok : State → Action → Prop} {s : State}
    (hs : (bridge n).Reaches ok s) : s.media.Numbered := by
  refine hs.invariant (I := fun s => s.media.Numbered) ?_ fun s a _ h hen _ => ?_
  · intro s hinit
    rw [hinit]
    exact Media.numbered_initial
  · cases a with
    | manager a => exact State.numbered_mediaAfter h
    | media b => exact h.next hen

theorem reaches_portsSafe {n : Nat} {ok : State → Action → Prop} {s : State}
    (hs : (bridge n).Reaches ok s) : s.PortsSafe := by
  refine hs.invariant ?_ fun s a hs h hen _ => ?_
  · intro s hinit
    rw [hinit]
    refine Settled.initial (fun k => .inl (.setup k)) fun p k hp => ?_
    rcases p with (p | p) | (p | p | p | p)
    · cases hp
      rfl
    all_goals cases hp
  · cases a with
    | manager a => exact State.PortsHold.manager h settled_custodial hen.1 trivial
    | media b => exact State.PortsHold.media h settled_custodial (reaches_numbered hs) trivial

theorem reaches_poolsSafe {n : Nat} {ok : State → Action → Prop} {s : State}
    (hs : (bridge n).Reaches ok s) : s.media.PoolsSafe := by
  refine hs.invariant (I := fun s => s.media.PoolsSafe) ?_ fun s a hs h hen _ => ?_
  · intro s hinit
    rw [hinit]
    refine Settled.initial (fun k => .inl (.callback k)) fun p k hp => ?_
    rcases p with (p | p) | (p | p | p | p)
    · cases hp
      rfl
    all_goals cases hp
  · cases a with
    | manager a => exact State.poolsHold_mediaAfter h settled_custodial fun _ _ => trivial
    | media b => exact Media.PoolsHold.next h settled_custodial (reaches_numbered hs) hen trivial

/-- No port is destroyed twice and no pool is released twice. -/
theorem no_double_free {n : Nat} {s : State} (hs : (bridge n).Reachable s) :
    s.media.destroyed.Nodup ∧ s.media.released.Nodup :=
  ⟨Settled.nodup (reaches_portsSafe hs), Settled.nodup (reaches_poolsSafe hs)⟩

/-- An established call hangs up; the completed removal frees its port and its pool. -/
theorem no_double_free_torn_down : ∃ s, (bridge 1).Reachable s ∧ s.media.destroyed = [0] ∧
    s.media.released = [0] ∧ s.media.destroyed.Nodup := by
  obtain ⟨s, hs, hP⟩ := System.exists_reaches_of_run (bridge 1) System.anyStep rfl
    (.manager (.newCall 3) :: answerCall 0 ++ attachMedia 3 0 7 ++ establish 0 ++
      [.manager (.endCall 0), .manager (.disconnected 0), .media (.job .main true),
        .media (.job .main true), .media (.job .main true), .media (.job .main true),
        .manager (.sessionTornDown 0), .media (.portRemoved 7 true), .media (.confOp 0),
        .media (.confOp 0)])
    (fun s => s.media.destroyed = [0] ∧ s.media.released = [0]) (by decide)
  obtain ⟨hdestroyed, hreleased⟩ := of_decide_eq_true hP
  exact ⟨s, hs, hdestroyed, hreleased, (no_double_free hs).1⟩

end MumbleSip