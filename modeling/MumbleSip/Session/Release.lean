import MumbleSip.Session.Exposure

/-!
# Nothing is leaked

When every call is over and nothing runs any more, the ports have been destroyed, the pools released, and
the registries are empty. A port or a pool that no step drops is freed or in one of its places
(`Custody`), and at rest all places are empty: the registries of ports because every exposed port has a
watcher (`Exposure`), `MEDIA_READY_TX` because an entry is that of a task which will see it or unregister
it, and `PENDING_CLEANUP` because every entry has a removal under way.
-/

namespace MumbleSip

open Transition Custody

/-! ### The senders in `MEDIA_READY_TX` -/

/-- The setup still waits for its media-ready channel, or has to unregister the sender. -/
def Setup.expectsReady (setup : Setup) : Bool :=
  match setup.pc with
  | .drawGeneration | .registerPending | .answer | .awaitMedia | .unregisterReady => true
  | .abortSetup | .teardown => setup.exit.unregistersReady
  | _ => false

theorem Setup.spawned_of_expectsReady {setup : Setup} (h : setup.expectsReady = true) :
    setup.pc ≠ .unspawned := by
  intro hpc
  rw [expectsReady, hpc] at h
  cases h

namespace State

variable {s : State} {c : CallId} {k : Call}

theorem ready_mediaAfter {a : ManagerAction} (hregister : ∀ k, a ≠ .setup k .registerReady)
    (hunregister : ∀ k, a ≠ .setup k .unregisterReady) :
    (s.mediaAfter a).mediaReadyTx = s.media.mediaReadyTx ∧ (s.mediaAfter a).ready = s.media.ready := by
  cases a with
  | disconnected k =>
    simp only [mediaAfter]
    cases s.mgr.sessions.lookup (s.mgr.callId k) <;> exact ⟨rfl, rfl⟩
  | setup k b =>
    cases b with
    | registerReady => exact absurd rfl (hregister k)
    | unregisterReady => exact absurd rfl (hunregister k)
    | checkCancel =>
      simp only [mediaAfter]
      split <;> exact ⟨rfl, rfl⟩
    | _ => exact ⟨rfl, rfl⟩
  | _ => exact ⟨rfl, rfl⟩

/-- A sender is registered for a setup of its call id which has not seen it fire or drop. -/
def Announced (s : State) : Prop :=
  ∀ c k, s.media.mediaReadyTx.lookup c = some k →
    s.mgr.callId k = c ∧ (s.mgr.setups k).expectsReady = true ∧ s.media.ready k = .waiting

theorem Announced.setReady_of_ne (h : s.Announced) (hc : s.media.mediaReadyTx.lookup c = some k)
    {c' : CallId} (hne : c' ≠ c) (r : Ready) : s.media.setReady c' r k = .waiting := by
  obtain ⟨hid, _, hwait⟩ := h c k hc
  simp only [Media.setReady]
  cases hc' : s.media.mediaReadyTx.lookup c' with
  | none => exact hwait
  | some k' =>
    have hk : k ≠ k' := by
      rintro rfl
      exact hne ((h c' k hc').1.symm.trans hid)
    simp only [Function.update_of_ne hk]
    exact hwait

/-- A setup goes on expecting its sender until it sees it or unregisters it. -/
theorem Announced.expects_next (h : s.Announced) (hc : s.media.mediaReadyTx.lookup c = some k)
    {a : ManagerAction} (hen : s.enabled (.manager a)) (hsafe : s.releaseSafe (.manager a) = true)
    (hne : a ≠ .setup k .unregisterReady) : ((s.mgr.next a).setups k).expectsReady = true := by
  obtain ⟨hid, hexpects, hwait⟩ := h c k hc
  by_cases ha : ∃ b, a = .setup k b
  · obtain ⟨b, rfl⟩ := ha
    have hpc : (s.mgr.setups k).pc = b.pc := hen.1.1
    have hself : (s.mgr.next (.setup k b)).setups k = s.mgr.stepSetup k b := Function.update_self _ _ _
    rw [hself]
    simp only [Setup.expectsReady, hpc] at hexpects
    cases b with
    | drawGeneration | registerPending | mediaCancelled => rfl
    | answer ok => cases ok <;> rfl
    | abortSetup => exact hexpects
    | mediaReady =>
      have hfired : s.media.ready k = .fired := of_decide_eq_true hen.2
      rw [hfired] at hwait
      cases hwait
    | mediaDropped =>
      have hdropped : s.media.ready k = .dropped := of_decide_eq_true hen.2
      rw [hdropped] at hwait
      cases hwait
    | teardownDone =>
      have hexit : (s.mgr.setups k).exit.unregistersReady = true := hexpects
      have howns : (s.mgr.setups k).owns = true := by
        subst hid
        simpa only [releaseSafe, hc, hexit, Bool.not_true, Bool.or_false, bne_self_eq_false] using hsafe
      simp only [Manager.stepSetup, howns, hexit, Bool.and_self, if_true]
      rfl
    | unregisterReady => exact absurd rfl hne
    | _ => cases hexpects
  · rw [Manager.setups_next hen.1 (Setup.spawned_of_expectsReady hexpects) fun b hb => ha ⟨b, hb⟩]
    exact hexpects

theorem Announced.manager (h : s.Announced) (howned : s.mgr.Owned) {a : ManagerAction}
    (hen : s.enabled (.manager a)) (hsafe : s.releaseSafe (.manager a) = true) :
    Announced (s.next (.manager a)) := by
  intro c k hc
  have hc : (s.mediaAfter a).mediaReadyTx.lookup c = some k := hc
  show (s.mgr.next a).callId k = c ∧ ((s.mgr.next a).setups k).expectsReady = true ∧
    (s.mediaAfter a).ready k = .waiting
  have hold : s.media.mediaReadyTx.lookup c = some k → a ≠ .setup k .unregisterReady →
      (s.mgr.next a).callId k = c ∧ ((s.mgr.next a).setups k).expectsReady = true := by
    intro hc hne
    obtain ⟨hid, hexpects, _⟩ := h c k hc
    have hspawned := Setup.spawned_of_expectsReady hexpects
    exact ⟨(Manager.callId_next howned hspawned a).trans hid, h.expects_next hc hen hsafe hne⟩
  by_cases hregister : ∃ k', a = .setup k' .registerReady
  · obtain ⟨k', rfl⟩ := hregister
    simp only [mediaAfter, Media.registerMediaReady, FiniteMap.lookup_insert] at hc ⊢
    split at hc
    · rename_i hid
      cases hc
      refine ⟨hid.symm, ?_, Function.update_self _ _ _⟩
      simp only [Manager.next, Function.update_self]
      rfl
    · rename_i hid
      obtain ⟨hid', hexpects⟩ := hold hc (fun h => by cases h)
      have hne : k ≠ k' := by
        rintro rfl
        exact hid hid'.symm
      refine ⟨hid', hexpects, ?_⟩
      rw [Function.update_of_ne hne]
      exact h.setReady_of_ne hc (fun heq => hid heq.symm) _
  · by_cases hunregister : ∃ k', a = .setup k' .unregisterReady
    · obtain ⟨k', rfl⟩ := hunregister
      simp only [mediaAfter, Media.unregisterMediaReady, FiniteMap.lookup_erase] at hc ⊢
      split at hc
      · cases hc
      · rename_i hid
        have hne : ManagerAction.setup k' .unregisterReady ≠ .setup k .unregisterReady := by
          intro heq
          have hk : k' = k := (ManagerAction.setup.inj heq).1
          exact hid (hk ▸ (h c k hc).1.symm)
        obtain ⟨hid', hexpects⟩ := hold hc hne
        exact ⟨hid', hexpects, h.setReady_of_ne hc (fun heq => hid heq.symm) _⟩
    · obtain ⟨htx, hready⟩ := ready_mediaAfter (s := s) (fun k' hk' => hregister ⟨k', hk'⟩)
        fun k' hk' => hunregister ⟨k', hk'⟩
      rw [htx] at hc
      rw [hready]
      obtain ⟨hid, hexpects⟩ := hold hc fun heq => hunregister ⟨k, heq⟩
      exact ⟨hid, hexpects, (h c k hc).2.2⟩

theorem Announced.media (h : s.Announced) {b : MediaAction} : Announced (s.next (.media b)) := by
  intro c k hc
  have hc : (s.media.next b).mediaReadyTx.lookup c = some k := hc
  by_cases hb : ∃ j, b = .notify j
  · obtain ⟨j, rfl⟩ := hb
    have hc : (s.media.mediaReadyTx.erase (s.media.callbacks j).callId).lookup c = some k := hc
    rw [FiniteMap.lookup_erase] at hc
    split at hc
    · cases hc
    · rename_i hne
      obtain ⟨hid, hexpects, _⟩ := h c k hc
      exact ⟨hid, hexpects, h.setReady_of_ne hc (fun heq => hne heq.symm) .fired⟩
  · obtain ⟨htx, hready⟩ := Media.ready_next (m := s.media) fun j hj => hb ⟨j, hj⟩
    rw [htx] at hc
    obtain ⟨hid, hexpects, hwait⟩ := h c k hc
    refine ⟨hid, hexpects, ?_⟩
    show (s.media.next b).ready k = .waiting
    rw [hready]
    exact hwait

end State

theorem reaches_announced {n : Nat} {s : State} (hs : (bridge n).Reaches releases s) : s.Announced := by
  refine hs.invariant ?_ fun s a hs h hen hok => ?_
  · intro s hinit c k hc
    rw [hinit] at hc
    cases hc
  · cases a with
    | manager a => exact h.manager (reaches_owned (reachable_manager hs)) hen hok
    | media b => exact h.media

/-! ### The entries of `PENDING_CLEANUP` -/

namespace Media

variable {m : Media} {a : Actor} {ok : Bool} {conf : ConfPortId}

/-- A removal of the slot is under way, and its end will look the cleanup up. -/
inductive Pursued (m : Media) (conf : ConfPortId) : Prop
  | job (a : Actor) (h : (m.jobs a).stage = .removePort conf ∨ (m.jobs a).stage = .takeCleanup conf)
  | removing (h : conf ∈ m.removing)
  | confOp (i : Nat) (ok : Bool) (h : m.confOps i = .take conf ok)

def CleanupsPursued (m : Media) : Prop :=
  ∀ conf cleanup, m.pendingCleanup.lookup conf = some cleanup → m.Pursued conf

theorem Pursued.stepJob (h : m.Pursued conf) (hne : (m.jobs a).stage ≠ .removePort conf)
    (hne' : (m.jobs a).stage ≠ .takeCleanup conf) : Pursued (m.stepJob a ok) conf := by
  have hframe := m.jobFrame_stepJob a ok
  cases h with
  | job a' h =>
    obtain ⟨stage, hjobs⟩ := hframe.jobs
    have ha' : a' ≠ a := by
      rintro rfl
      exact h.elim hne hne'
    refine .job a' ?_
    rw [hjobs, Function.update_of_ne ha']
    exact h
  | removing h => exact .removing (hframe.removing conf h)
  | confOp i ok h => exact .confOp i ok (hframe.confOps ▸ h)

theorem CleanupsPursued.stepJob (h : m.CleanupsPursued) : CleanupsPursued (m.stepJob a ok) := by
  intro conf cleanup hc
  cases hstage : (m.jobs a).stage with
  | registerCleanup active =>
    have hother : m.pendingCleanup.lookup conf = some cleanup → Pursued (m.stepJob a ok) conf := by
      intro hc
      refine (h conf cleanup hc).stepJob ?_ ?_ <;> rw [hstage] <;> exact fun h => by cases h
    simp only [Media.stepJob, hstage] at hc
    have hc : (m.pendingCleanup.insert active.confPortId _).lookup conf = some cleanup := hc
    rw [FiniteMap.lookup_insert] at hc
    split at hc
    · rename_i heq
      subst heq
      refine .job a (.inl ?_)
      simp only [Media.stepJob, hstage, setStage, Function.update_self]
    · exact hother hc
  | removePort conf' =>
    have hc : m.pendingCleanup.lookup conf = some cleanup := by
      simp only [Media.stepJob, hstage] at hc
      cases ok <;> exact hc
    by_cases heq : conf' = conf
    · subst heq
      cases ok
      · refine .job a (.inr ?_)
        simp only [Media.stepJob, hstage, setStage, Bool.false_eq_true, if_false, Function.update_self]
      · refine .removing ?_
        simp only [Media.stepJob, hstage]
        exact List.mem_cons_self
    · refine (h conf cleanup hc).stepJob ?_ ?_ <;> rw [hstage]
      · exact fun heq' => heq (Stage.removePort.inj heq')
      · intro h
        cases h
  | takeCleanup conf' =>
    have hc : (m.pendingCleanup.erase conf').lookup conf = some cleanup := by
      simp only [Media.stepJob, hstage, takePendingCleanup] at hc
      cases hc' : m.pendingCleanup.lookup conf' <;> rw [hc'] at hc <;> exact hc
    rw [FiniteMap.lookup_erase] at hc
    split at hc
    · cases hc
    · rename_i hne
      refine (h conf cleanup hc).stepJob ?_ ?_ <;> rw [hstage]
      · intro h
        cases h
      · exact fun heq => hne (Stage.takeCleanup.inj heq).symm
  | _ =>
    have hc : m.pendingCleanup.lookup conf = some cleanup := by
      simp only [Media.stepJob, hstage] at hc
      exact hc
    refine (h conf cleanup hc).stepJob ?_ ?_ <;> rw [hstage] <;> exact fun h => by cases h

theorem CleanupsPursued.portRemoved (h : m.CleanupsPursued) (hnum : m.Numbered) (conf : ConfPortId) :
    CleanupsPursued (m.portRemoved conf ok) := by
  intro conf' cleanup hc
  cases h conf' cleanup hc with
  | job a h => exact .job a h
  | removing h =>
    by_cases heq : conf' = conf
    · subst heq
      exact .confOp m.nextConfOp ok (Function.update_self _ _ _)
    · exact .removing ((List.mem_erase_of_ne heq).2 h)
  | confOp i ok' h =>
    have hne : i ≠ m.nextConfOp := by
      intro heq
      rw [hnum.confOp i heq.ge] at h
      cases h
    exact .confOp i ok' ((Function.update_of_ne hne _ _).trans h)

theorem CleanupsPursued.stepConfOp (h : m.CleanupsPursued) (i : Nat) :
    CleanupsPursued (m.stepConfOp i) := by
  have hset : ∀ {conf : ConfPortId} (op : ConfOp), (∀ ok, m.confOps i ≠ .take conf ok) →
      m.Pursued conf → Pursued (m.setConfOp i op) conf := by
    intro conf op hop hpursued
    cases hpursued with
    | job a h => exact .job a h
    | removing h => exact .removing h
    | confOp i' ok h =>
      have hne : i' ≠ i := by
        rintro rfl
        exact hop ok h
      exact .confOp i' ok ((Function.update_of_ne hne _ _).trans h)
  intro conf cleanup hc
  cases hop : m.confOps i with
  | skipped | done =>
    simp only [Media.stepConfOp, hop] at hc ⊢
    exact h conf cleanup hc
  | destroy cleanup' =>
    simp only [Media.stepConfOp, hop] at hc ⊢
    have hpursued := hset .done (by rw [hop]; exact fun _ h => by cases h) (h conf cleanup hc)
    cases hpursued with
    | job a h => exact .job a h
    | removing h => exact .removing h
    | confOp i' ok h => exact .confOp i' ok h
  | take conf' ok =>
    have hc : (m.pendingCleanup.erase conf').lookup conf = some cleanup := by
      simp only [Media.stepConfOp, hop, takePendingCleanup] at hc
      cases hc' : m.pendingCleanup.lookup conf' <;> rw [hc'] at hc <;> exact hc
    rw [FiniteMap.lookup_erase] at hc
    split at hc
    · cases hc
    · rename_i hne
      have hother : ∀ ok', m.confOps i ≠ .take conf ok' := by
        intro ok' heq
        rw [hop] at heq
        exact hne (ConfOp.take.inj heq).1.symm
      have hpursued := fun op => hset op hother (h conf cleanup hc)
      simp only [Media.stepConfOp, hop, takePendingCleanup]
      cases m.pendingCleanup.lookup conf' with
      | none =>
        cases hpursued .done with
        | job a h => exact .job a h
        | removing h => exact .removing h
        | confOp i' ok h => exact .confOp i' ok h
      | some cleanup' =>
        cases hpursued (if ok then .destroy cleanup' else .skipped cleanup') with
        | job a h => exact .job a h
        | removing h => exact .removing h
        | confOp i' ok h => exact .confOp i' ok h

theorem CleanupsPursued.frame (h : m.CleanupsPursued) {m' : Media} (hjobs : m'.jobs = m.jobs)
    (hcleanup : m'.pendingCleanup = m.pendingCleanup) (hremoving : m'.removing = m.removing)
    (hconfOps : m'.confOps = m.confOps) : m'.CleanupsPursued := by
  intro conf cleanup hc
  rw [hcleanup] at hc
  cases h conf cleanup hc with
  | job a h => exact .job a (hjobs ▸ h)
  | removing h => exact .removing (hremoving ▸ h)
  | confOp i ok h => exact .confOp i ok (hconfOps ▸ h)

theorem CleanupsPursued.next (h : m.CleanupsPursued) (hnum : m.Numbered) (b : MediaAction) :
    CleanupsPursued (m.next b) := by
  cases b with
  | job a ok => exact h.stepJob
  | portRemoved conf ok => exact h.portRemoved hnum conf
  | confOp i => exact h.stepConfOp i
  | takePort j =>
    simp only [Media.next, takePort, unregisterPendingPort]
    cases m.pendingPorts.lookup (m.callbacks j).callId <;> exact h.frame rfl rfl rfl rfl
  | createPool j ok => cases ok <;> exact h.frame rfl rfl rfl rfl
  | addPort j portId => cases portId <;> exact h.frame rfl rfl rfl rfl
  | deferred i =>
    simp only [Media.next, runDeferred]
    cases m.deferred i <;> exact h.frame rfl rfl rfl rfl
  | mediaState | getConfPort | publish | notify | putBack => exact h.frame rfl rfl rfl rfl

end Media

theorem State.cleanupsPursued_mediaAfter {s : State} (h : s.media.CleanupsPursued) (hrest : s.Resting)
    {a : ManagerAction} (hen : s.mgr.enabled a) : (s.mediaAfter a).CleanupsPursued := by
  rcases s.mediaAfter_cases a with ⟨r, job, heq, _, hr⟩ | ⟨_, _, _, heq⟩ <;> rw [heq]
  · intro conf cleanup hc
    cases h conf cleanup hc with
    | job r' h =>
      have hne : r' ≠ r := by
        rintro rfl
        have hresting := hrest.of_teardown hen hr
        rcases h with h | h <;> rw [h] at hresting <;> cases hresting
      exact .job r' (by simpa only [Media.startJob, Function.update_of_ne hne] using h)
    | removing h => exact .removing h
    | confOp i ok h => exact .confOp i ok h
  · exact h.frame rfl rfl rfl rfl

theorem reaches_cleanupsPursued {n : Nat} {ok : State → Action → Prop} {s : State}
    (hs : (bridge n).Reaches ok s) : s.media.CleanupsPursued := by
  refine hs.invariant (I := fun s => s.media.CleanupsPursued) ?_ fun s a hs h hen _ => ?_
  · intro s hinit conf cleanup hc
    rw [hinit] at hc
    cases hc
  · cases a with
    | manager a => exact State.cleanupsPursued_mediaAfter h (reaches_resting hs) hen.1
    | media b => exact h.next (reaches_numbered hs) b

/-! ### What no step drops -/

/-- A port has been created for the call. -/
def SetupPc.created : SetupPc → Bool
  | .unspawned | .checkLimit | .lookup | .rejected => false
  | _ => true

/-- The invocation has not come to `pj_pool_create` yet. -/
def CallbackPc.early : CallbackPc → Bool
  | .takePort | .getConfPort | .createPool => true
  | _ => false

namespace Media

variable {m : Media}

/-- Only an invocation past `pj_pool_create` has a pool. -/
def PoolsCreated (m : Media) : Prop :=
  ∀ j, (m.callbacks j).poolCreated = true → j < m.nextCallback ∧ (m.callbacks j).pc.early = false

theorem PoolsCreated.setCallback (h : m.PoolsCreated) {j : Nat} (callback : MediaCallback)
    (hj : callback.poolCreated = true → j < m.nextCallback ∧ callback.pc.early = false) :
    PoolsCreated (m.setCallback j callback) := by
  intro j' hj'
  simp only [Media.setCallback] at hj' ⊢
  by_cases heq : j' = j
  · subst heq
    rw [Function.update_self] at hj' ⊢
    exact hj hj'
  · rw [Function.update_of_ne heq] at hj' ⊢
    exact h j' hj'

theorem PoolsCreated.next (h : m.PoolsCreated) (hnum : m.Numbered) {b : MediaAction}
    (hen : m.enabled b) : PoolsCreated (m.next b) := by
  have hnot : ∀ {j : Nat} {pc : CallbackPc}, (m.callbacks j).pc = pc → pc.early = true →
      (m.callbacks j).poolCreated ≠ true := by
    intro j pc hpc hearly hcreated
    rw [← hpc, (h j hcreated).2] at hearly
    cases hearly
  cases b with
  | job a ok =>
    have hcallbacks := (m.jobFrame_stepJob a ok).callbacks
    have hnext := (m.jobFrame_stepJob a ok).nextCallback
    intro j hj
    simp only [Media.next, hcallbacks, hnext] at hj ⊢
    exact h j hj
  | mediaState c =>
    have hset := h.setCallback (j := m.nextCallback) ⟨c, 0, false, 0, .takePort⟩ (fun h => by cases h)
    exact fun j hj => (hset j hj).imp_left Nat.lt_succ_of_lt
  | takePort j =>
    have hcreated := hnot hen rfl
    simp only [Media.next, takePort, unregisterPendingPort]
    cases m.pendingPorts.lookup (m.callbacks j).callId with
    | none =>
      exact h.setCallback (j := j) { m.callbacks j with pc := .done } fun hj => absurd hj hcreated
    | some port =>
      exact h.setCallback (j := j) { m.callbacks j with port := port, pc := .getConfPort }
        fun hj => absurd hj hcreated
  | getConfPort j ok =>
    have hcreated := hnot hen rfl
    exact h.setCallback _ fun hj => absurd hj hcreated
  | createPool j ok =>
    have hcreated := hnot hen rfl
    cases ok
    · exact h.setCallback _ fun hj => absurd hj hcreated
    · refine h.setCallback _ fun _ => ⟨hnum.lt_nextCallback ?_, rfl⟩
      rw [show (m.callbacks j).pc = .createPool from hen]
      intro h
      cases h
  | addPort j portId =>
    cases portId with
    | none =>
      exact h.setCallback (j := j) { m.callbacks j with pc := .putBack } fun hj => ⟨(h j hj).1, rfl⟩
    | some conf =>
      exact h.setCallback (j := j) { m.callbacks j with portId := conf, pc := .publish }
        fun hj => ⟨(h j hj).1, rfl⟩
  | publish j =>
    exact h.setCallback (j := j) { m.callbacks j with pc := .notify } fun hj => ⟨(h j hj).1, rfl⟩
  | notify j | putBack j =>
    exact h.setCallback (j := j) { m.callbacks j with pc := .done } fun hj => ⟨(h j hj).1, rfl⟩
  | portRemoved conf ok => exact h
  | confOp i =>
    obtain ⟨_, _, _, _, _, heq⟩ := m.frees_confOp i
    rw [heq]
    exact h
  | deferred i =>
    obtain ⟨_, _, _, _, _, heq⟩ := m.frees_deferred i
    rw [heq]
    exact h

/-- No completion callback has returned with a cleanup it had taken. -/
def NoneSkipped (m : Media) : Prop := ∀ i cleanup, m.confOps i ≠ .skipped cleanup

theorem NoneSkipped.of_update (h : m.NoneSkipped) {m' : Media} {i : Nat} (op : ConfOp)
    (hop : ∀ cleanup, op ≠ .skipped cleanup) (hm' : m'.confOps = Function.update m.confOps i op) :
    m'.NoneSkipped := by
  intro i' cleanup
  rw [hm']
  by_cases heq : i' = i
  · rw [heq, Function.update_self]
    exact hop cleanup
  · rw [Function.update_of_ne heq]
    exact h i' cleanup

theorem NoneSkipped.next (h : m.NoneSkipped) {b : MediaAction} (hsafe : m.releaseSafe b = true) :
    NoneSkipped (m.next b) := by
  cases b with
  | job a ok =>
    intro i cleanup
    show (m.stepJob a ok).confOps i ≠ _
    rw [(m.jobFrame_stepJob a ok).confOps]
    exact h i cleanup
  | portRemoved conf ok => exact h.of_update (.take conf ok) (fun _ h => by cases h) rfl
  | confOp i =>
    cases hop : m.confOps i with
    | skipped cleanup => exact absurd hop (h i cleanup)
    | done => simpa only [Media.next, stepConfOp, hop] using h
    | destroy cleanup =>
      simp only [Media.next, stepConfOp, hop]
      exact h.of_update .done (fun _ h => by cases h) rfl
    | take conf ok =>
      simp only [Media.next, stepConfOp, hop, takePendingCleanup]
      cases hc : m.pendingCleanup.lookup conf with
      | none => exact h.of_update .done (fun _ h => by cases h) rfl
      | some cleanup =>
        cases ok
        · simp only [releaseSafe, hop, hc] at hsafe
          cases hsafe
        · exact h.of_update (.destroy cleanup) (fun _ h => by cases h) rfl
  | takePort j =>
    simp only [Media.next, takePort, unregisterPendingPort]
    cases m.pendingPorts.lookup (m.callbacks j).callId <;> exact h
  | createPool j ok => cases ok <;> exact h
  | addPort j portId => cases portId <;> exact h
  | deferred i =>
    simp only [Media.next, runDeferred]
    cases m.deferred i <;> exact h
  | mediaState | getConfPort | publish | notify | putBack => exact h

theorem overwritten_eq_none {ι : Type} (R : Resource ι) {a : Actor} {ok : Bool}
    (hsafe : m.releaseSafe (.job a ok) = true) : R.overwritten m a = none := by
  unfold Resource.overwritten
  split
  · rename_i active hstage
    simp only [releaseSafe, hstage, Option.isNone_iff_eq_none] at hsafe
    rw [Resource.heldAt, hsafe]
    rfl
  · rfl

theorem dropsPool_ne (hcreated : m.PoolsCreated) {b : MediaAction} (hen : m.enabled b)
    (hsafe : m.releaseSafe b = true) {i : Pool} (hi : (m.callbacks i).poolCreated = true) :
    m.dropsPool b ≠ some i := by
  have hnot : ∀ {pc : CallbackPc}, (m.callbacks i).pc = pc → pc.early ≠ true := by
    intro pc hpc hearly
    rw [← hpc, (hcreated i hi).2] at hearly
    cases hearly
  cases b with
  | job a ok =>
    simp only [dropsPool]
    split
    · rename_i hstage
      simp only [releaseSafe, hstage, Option.isNone_iff_eq_none] at hsafe
      rw [poolAt, hsafe]
      intro h
      cases h
    · rw [overwritten_eq_none pools hsafe]
      intro h
      cases h
  | takePort j =>
    simp only [dropsPool]
    split
    · intro h
      cases h
    · intro heq
      cases heq
      exact hnot hen rfl
  | getConfPort j ok | createPool j ok =>
    cases ok
    · intro heq
      cases heq
      exact hnot hen rfl
    · intro h
      cases h
  | publish j =>
    simp only [releaseSafe, Option.isNone_iff_eq_none] at hsafe
    rw [dropsPool, poolAt, hsafe]
    intro h
    cases h
  | _ => exact fun h => by cases h

/-- Every pool that was created is released or somewhere. -/
def PoolsKept (m : Media) : Prop :=
  ∀ i, (m.callbacks i).poolCreated = true → m.PoolsHold (Kept i)

theorem poolCreated_next {b : MediaAction} {i : Pool}
    (hi : ((m.next b).callbacks i).poolCreated = true) :
    (m.callbacks i).poolCreated = true ∨ b = .createPool i true := by
  have hset : ∀ {j : Nat} {callback : MediaCallback},
      ((m.setCallback j callback).callbacks i).poolCreated = true →
      (callback.poolCreated = true → (m.callbacks j).poolCreated = true) →
      (m.callbacks i).poolCreated = true := by
    intro j callback hi hj
    simp only [setCallback] at hi
    by_cases heq : i = j
    · rw [heq, Function.update_self] at hi
      rw [heq]
      exact hj hi
    · rw [Function.update_of_ne heq] at hi
      exact hi
  cases b with
  | job a ok =>
    rw [← (m.jobFrame_stepJob a ok).callbacks]
    exact .inl hi
  | mediaState c => exact .inl (hset (j := m.nextCallback) hi fun hj => by cases hj)
  | takePort j =>
    simp only [Media.next, takePort, unregisterPendingPort] at hi
    cases hport : m.pendingPorts.lookup (m.callbacks j).callId with
    | none =>
      rw [hport] at hi
      exact .inl (hset (j := j) hi fun hj => hj)
    | some port =>
      rw [hport] at hi
      exact .inl (hset (j := j) hi fun hj => hj)
  | createPool j ok =>
    cases ok
    · exact .inl (hset hi fun hj => hj)
    · by_cases heq : i = j
      · exact .inr (by rw [heq])
      · simp only [Media.next, setCallback, if_true, Function.update_of_ne heq] at hi
        exact .inl hi
  | addPort j portId => cases portId <;> exact .inl (hset (j := j) hi fun hj => hj)
  | getConfPort j ok => exact .inl (hset hi fun hj => hj)
  | publish j | notify j | putBack j => exact .inl (hset (j := j) hi fun hj => hj)
  | portRemoved conf ok => exact .inl hi
  | confOp i' =>
    obtain ⟨_, _, _, _, _, heq⟩ := m.frees_confOp i'
    rw [heq] at hi
    exact .inl hi
  | deferred i' =>
    obtain ⟨_, _, _, _, _, heq⟩ := m.frees_deferred i'
    rw [heq] at hi
    exact .inl hi

theorem PoolsKept.next (h : m.PoolsKept) (hcreated : m.PoolsCreated) (hnum : m.Numbered)
    {b : MediaAction} (hen : m.enabled b) (hsafe : m.releaseSafe b = true) : PoolsKept (m.next b) := by
  intro i hi
  rcases poolCreated_next hi with hold | rfl
  · exact (h i hold).next (kept_custodial i) hnum hen (dropsPool_ne hcreated hen hsafe hold)
  · refine .inr ⟨.inl (.callback i), ?_⟩
    have hlt : i < m.nextCallback := hnum.lt_nextCallback (by rw [show _ = _ from hen]; exact nofun)
    rw [Sum.elim_inl]
    show (m.setCallback i _).poolAt (.callback i) = some i
    rw [poolAt_setCallback hlt, Function.update_self]
    rfl

end Media

namespace State

variable {s : State}

theorem callbacks_mediaAfter (s : State) (a : ManagerAction) :
    (s.mediaAfter a).callbacks = s.media.callbacks ∧
    (s.mediaAfter a).nextCallback = s.media.nextCallback ∧
    (s.mediaAfter a).confOps = s.media.confOps := by
  rcases s.mediaAfter_cases a with ⟨_, _, heq, _⟩ | ⟨_, _, _, heq⟩ <;> rw [heq] <;>
    exact ⟨rfl, rfl, rfl⟩

/-- Every port that may have been created is destroyed or somewhere. -/
def PortsKept (s : State) : Prop :=
  ∀ k, (s.mgr.setups k).pc ≠ .rejected → s.PortsHold (Kept k)

theorem dropsPort_ne (hrest : s.Resting) {a : Action} (hen : s.enabled a)
    (hsafe : s.releaseSafe a = true) {k : Call} (hk : ((s.next a).mgr.setups k).pc ≠ .rejected) :
    s.dropsPort a ≠ some k := by
  have hrested : ∀ {b r}, s.mgr.enabled b → b.teardown = some r →
      ports.heldAt s.media (.job r) ≠ some k := by
    intro b r hen hr
    rw [Resource.heldAt, ports.ofJob_handedOn _ (Stage.handedOn_of_resting (hrest.of_teardown hen hr))]
    intro h
    cases h
  cases a with
  | media b =>
    cases b with
    | job a ok =>
      simp only [dropsPort]
      split
      · rename_i wasPending hstage
        split
        · -- the teardown would skip a port that it does not know
          rename_i hdone
          simp only [releaseSafe, Media.releaseSafe, hstage] at hsafe
          exfalso
          cases wasPending
          · cases hactive : s.media.activeMedia.lookup (s.media.jobs a).callId with
            | some active =>
              rw [hactive] at hdone
              cases hdone
            | none =>
              simp only [hactive, Bool.not_eq_true'] at hsafe
              simp [hactive, Job.afterLookup, hsafe] at hdone
          · cases hdone
        · intro h
          cases h
      · have hmedia : s.media.releaseSafe (.job a ok) = true := hsafe
        rw [Media.overwritten_eq_none ports hmedia]
        intro h
        cases h
    | _ => exact fun h => by cases h
  | manager a =>
    cases a with
    | disconnected k' => exact hrested hen.1 rfl
    | setup k' b =>
      cases b with
      | abortSetup | checkCancel => exact hrested hen.1 rfl
      | insertSession =>
        have hnone : s.mgr.sessions.lookup (s.mgr.callId k') = none := Option.isNone_iff_eq_none.1 hsafe
        rw [dropsPort, Manager.portAt, hnone]
        intro h
        cases h
      | checkLimit =>
        simp only [dropsPort]
        split
        · rename_i hrejected
          intro heq
          cases heq
          apply hk
          rw [← hrejected]
          exact congrArg Setup.pc (Function.update_self _ _ _)
        · intro h
          cases h
      | _ => exact fun h => by cases h
    | _ => exact fun h => by cases h

theorem not_rejected_of_next {a : Action} (hen : s.enabled a) {k : Call}
    (hk : ((s.next a).mgr.setups k).pc ≠ .rejected) : (s.mgr.setups k).pc ≠ .rejected := by
  intro hrejected
  cases a with
  | media b => exact hk hrejected
  | manager a =>
    apply hk
    show ((s.mgr.next a).setups k).pc = .rejected
    rw [Manager.setups_next hen.1 (by rw [hrejected]; exact nofun), hrejected]
    rintro b rfl
    have hpc := hrejected.symm.trans hen.1.1
    cases b <;> cases hpc

theorem PortsKept.next (h : s.PortsKept) (hrest : s.Resting) (hnum : s.media.Numbered) {a : Action}
    (hen : s.enabled a) (hsafe : s.releaseSafe a = true) : PortsKept (s.next a) := by
  intro k hk
  have hkept := h k (not_rejected_of_next hen hk)
  have hdrop := dropsPort_ne hrest hen hsafe hk
  cases a with
  | manager a => exact hkept.manager (kept_custodial k) hen.1 hdrop
  | media b => exact hkept.media (kept_custodial k) hnum hdrop

end State

/-- What holds of ports and pools in a run that drops nothing. -/
structure State.Released (s : State) : Prop where
  ports : s.PortsKept
  pools : s.media.PoolsKept
  created : s.media.PoolsCreated
  skipped : s.media.NoneSkipped

theorem reaches_released {n : Nat} {s : State} (hs : (bridge n).Reaches releases s) : s.Released := by
  refine hs.invariant ?_ fun s a hs h hen hok => ?_
  · intro s hinit
    rw [hinit]
    exact ⟨fun k _ => .inr ⟨.inl (.setup k), rfl⟩, fun _ h => (by cases h), fun _ h => (by cases h),
      fun _ _ => fun h => by cases h⟩
  · have hports := h.ports.next (reaches_resting hs) (reaches_numbered hs) hen hok
    cases a with
    | media b =>
      exact ⟨hports, h.pools.next h.created (reaches_numbered hs) hen hok,
        h.created.next (reaches_numbered hs) hen, h.skipped.next hok⟩
    | manager a =>
      obtain ⟨hcallbacks, hnext, hconfOps⟩ := s.callbacks_mediaAfter a
      refine ⟨hports, fun i hi => ?_, fun j hj => ?_, fun i cleanup => ?_⟩
      · have hi : ((s.mediaAfter a).callbacks i).poolCreated = true := hi
        rw [hcallbacks] at hi
        apply State.poolsHold_mediaAfter (h.pools i hi) (kept_custodial i)
        intro r hr
        have hresting := (reaches_resting hs).of_teardown hen.1 hr
        rw [Resource.heldAt, pools.ofJob_handedOn _ (Stage.handedOn_of_resting hresting)]
        intro h
        cases h
      · have hj : ((s.mediaAfter a).callbacks j).poolCreated = true := hj
        show j < (s.mediaAfter a).nextCallback ∧ ((s.mediaAfter a).callbacks j).pc.early = false
        rw [hcallbacks] at hj ⊢
        rw [hnext]
        exact h.created j hj
      · show (s.mediaAfter a).confOps i ≠ _
        rw [hconfOps]
        exact h.skipped i cleanup

/-! ### At rest -/

namespace State

variable {s : State}

/-- Every call has been reported disconnected and its event processed, every setup task has returned, no
session is left, and no callback, removal, completion or deferred thread is under way. -/
def Quiescent (s : State) : Prop :=
  (∀ k < s.mgr.nextCall, s.mgr.handled k = true ∧ (s.mgr.setups k).pc.finished = true) ∧
  s.mgr.main = .idle ∧ s.mgr.sessions.keys = [] ∧
  (∀ j < s.media.nextCallback, (s.media.callbacks j).pc = .done) ∧
  s.media.removing = [] ∧ (∀ i < s.media.nextConfOp, (s.media.confOps i).running = false) ∧
  ∀ i < s.media.nextDeferred, s.media.deferred i = none

instance (s : State) : Decidable s.Quiescent := inferInstanceAs (Decidable (_ ∧ _))

/-- Every port and every pool that was created is freed, and the registries are empty. -/
structure LeakFree (s : State) : Prop where
  ports : ∀ k, (s.mgr.setups k).pc.created = true → k ∈ s.media.destroyed
  pools : ∀ j, (s.media.callbacks j).poolCreated = true → j ∈ s.media.released
  pendingPorts : s.media.pendingPorts = ∅
  activeMedia : s.media.activeMedia = ∅
  mediaReadyTx : s.media.mediaReadyTx = ∅
  pendingCleanup : s.media.pendingCleanup = ∅

/-- What a quiescent state looks like from every place. -/
structure AtRest (s : State) : Prop where
  setup : ∀ k, (s.mgr.setups k).pc.finished = true
  session : ∀ c, s.mgr.sessions.lookup c = none
  job : ∀ a, (s.media.jobs a).stage.resting = true
  callback : ∀ j, (s.media.callbacks j).pc = .done
  removing : s.media.removing = []
  confOp : ∀ i, (s.media.confOps i).running = false
  deferred : ∀ i, s.media.deferred i = none

theorem Quiescent.atRest (h : s.Quiescent) (howned : s.mgr.Owned) (hnum : s.media.Numbered)
    (hrest : s.Resting) : s.AtRest := by
  obtain ⟨hcalls, hmain, hsessions, hcallbacks, hremoving, hconfOps, hdeferred⟩ := h
  have hsetup : ∀ k, (s.mgr.setups k).pc.finished = true := by
    intro k
    by_cases hk : k < s.mgr.nextCall
    · exact (hcalls k hk).2
    · rw [howned.named k (Nat.le_of_not_lt hk)]
      rfl
  refine ⟨hsetup, fun c => ?_, fun a => ?_, fun j => ?_, hremoving, fun i => ?_, fun i => ?_⟩
  · rw [AList.lookup_eq_none, AList.mem_keys, hsessions]
    exact List.not_mem_nil
  · cases a with
    | setup k =>
      apply hrest.setup k
      intro hpc
      have hfinished := hsetup k
      rw [hpc] at hfinished
      cases hfinished
    | main =>
      apply hrest.main
      intro k hk
      rw [hmain] at hk
      cases hk
  · by_cases hj : j < s.media.nextCallback
    · exact hcallbacks j hj
    · exact hnum.callback j (Nat.le_of_not_lt hj)
  · by_cases hi : i < s.media.nextConfOp
    · exact hconfOps i hi
    · rw [hnum.confOp i (Nat.le_of_not_lt hi)]
      rfl
  · by_cases hi : i < s.media.nextDeferred
    · exact hdeferred i hi
    · exact hnum.deferred i (Nat.le_of_not_lt hi)

theorem AtRest.not_exposed (h : s.AtRest) (hguarded : s.Guarded) (hplaced : s.Placed)
    (hslots : s.media.Slotted) (p : MediaPort) : ¬s.media.Exposed p := by
  intro hexposed
  cases hguarded p hexposed with
  | setup hport =>
    have hfresh := hplaced.not_fresh hslots hexposed
    have hfinished := h.setup p
    revert hport hfresh hfinished
    cases (s.mgr.setups p).pc <;> simp [SetupPc.port, SetupPc.freshPort, SetupPc.finished]
  | session c hsession =>
    rw [h.session c] at hsession
    cases hsession
  | job a hstage _ =>
    rw [Stage.not_watching_of_resting (h.job a)] at hstage
    cases hstage

theorem AtRest.pendingCleanup_eq_none (h : s.AtRest) (hpursued : s.media.CleanupsPursued)
    (conf : ConfPortId) : s.media.pendingCleanup.lookup conf = none := by
  cases hc : s.media.pendingCleanup.lookup conf with
  | none => rfl
  | some cleanup =>
    exfalso
    cases hpursued conf cleanup hc with
    | job a hstage =>
      have hresting := h.job a
      rcases hstage with hstage | hstage <;> rw [hstage] at hresting <;> cases hresting
    | removing hremoving =>
      rw [h.removing] at hremoving
      cases hremoving
    | confOp i ok hop =>
      have hrunning := h.confOp i
      rw [hop] at hrunning
      cases hrunning

theorem AtRest.mediaReadyTx_eq_none (h : s.AtRest) (hannounced : s.Announced) (c : CallId) :
    s.media.mediaReadyTx.lookup c = none := by
  cases hc : s.media.mediaReadyTx.lookup c with
  | none => rfl
  | some k =>
    exfalso
    have hexpects := (hannounced c k hc).2.1
    have hfinished := h.setup k
    revert hexpects hfinished
    rw [Setup.expectsReady]
    cases (s.mgr.setups k).pc <;> simp [SetupPc.finished]

theorem AtRest.heldAt_eq_none {ι : Type} (R : Resource ι) (h : s.AtRest)
    (hcleanup : ∀ conf, s.media.pendingCleanup.lookup conf = none) (hskipped : s.media.NoneSkipped)
    (r : TeardownPlace) : R.heldAt s.media r = none := by
  cases r with
  | job a => exact R.ofJob_handedOn _ (Stage.handedOn_of_resting (h.job a))
  | cleanup conf =>
    rw [Resource.heldAt, hcleanup]
    rfl
  | deferred i =>
    rw [Resource.heldAt, h.deferred]
    rfl
  | confOp i =>
    have hrunning := h.confOp i
    rw [Resource.heldAt]
    cases hop : s.media.confOps i with
    | skipped cleanup => exact absurd hop (hskipped i cleanup)
    | done => rfl
    | _ =>
      rw [hop] at hrunning
      cases hrunning

end State

theorem no_leak {n : Nat} {s : State} (hs : (bridge n).Reaches releases s) (hquiet : s.Quiescent) :
    s.LeakFree := by
  have hslots := reaches_slotted hs
  have hrest := hquiet.atRest (reaches_owned (reachable_manager hs)) (reaches_numbered hs)
    (reaches_resting hs)
  have hexposed := hrest.not_exposed (reaches_guarded hs) (reaches_placed hs) hslots
  have hcleanup := hrest.pendingCleanup_eq_none (reaches_cleanupsPursued hs)
  have hactive : ∀ c, s.media.activeMedia.lookup c = none := by
    intro c
    cases hc : s.media.activeMedia.lookup c with
    | none => rfl
    | some active =>
      refine absurd ⟨.active c, ?_⟩ (hexposed (s.media.portOf active))
      rw [Media.exposedAt, hc, Option.map_some]
  obtain ⟨hports, hpools, hcreated, hskipped⟩ := reaches_released hs
  refine ⟨fun k hk => ?_, fun j hj => ?_, FiniteMap.eq_empty_of_lookup fun c => ?_,
    FiniteMap.eq_empty_of_lookup hactive,
    FiniteMap.eq_empty_of_lookup (hrest.mediaReadyTx_eq_none (reaches_announced hs)),
    FiniteMap.eq_empty_of_lookup hcleanup⟩
  · have hspawned : (s.mgr.setups k).pc ≠ .rejected := by
      intro hpc
      rw [hpc] at hk
      cases hk
    rcases hports k hspawned with hfreed | ⟨place, hplace⟩
    · exact hfreed
    · exfalso
      rcases place with (k' | c) | r
      · -- a setup task that has its port is not over
        have hfinished := hrest.setup k'
        have hport : (s.mgr.setups k').pc.port k' = some k := hplace
        have heq : k' = k := by
          revert hport
          cases (s.mgr.setups k').pc <;> simp [SetupPc.port]
        subst heq
        revert hport hfinished hk
        cases (s.mgr.setups k').pc <;> simp [SetupPc.port, SetupPc.finished, SetupPc.created]
      · have hport : (s.mgr.sessions.lookup c).map CallSession.mediaPort = some k := hplace
        rw [hrest.session c] at hport
        cases hport
      · have hheld : ports.heldAt s.media r = some k := hplace
        rw [hrest.heldAt_eq_none ports hcleanup hskipped] at hheld
        cases hheld
  · rcases hpools j hj with hfreed | ⟨place, hplace⟩
    · exact hfreed
    · exfalso
      rcases place with (j' | c) | r
      · have hpool : (s.media.callbacks j').pc.poolBelow s.media.nextCallback j' = some j := hplace
        rw [hrest.callback j', CallbackPc.poolBelow] at hpool
        split at hpool
        · rename_i hle
          cases hpool
          exact absurd (hcreated _ hj).1 (Nat.not_lt.2 hle)
        · cases hpool
      · have hpool : (s.media.activeMedia.lookup c).map ActiveMedia.pool = some j := hplace
        rw [hactive c] at hpool
        cases hpool
      · have hheld : pools.heldAt s.media r = some j := hplace
        rw [hrest.heldAt_eq_none pools hcleanup hskipped] at hheld
        cases hheld
  · cases hc : s.media.pendingPorts.lookup c with
    | none => rfl
    | some p => exact absurd ⟨.pending c, hc⟩ (hexposed p)

/-- An established call hangs up, and its port and pool are freed after the removal. -/
theorem no_leak_torn_down : ∃ s, (bridge 1).Reaches releases s ∧ s.Quiescent ∧
    (s.mgr.setups 0).pc.created = true ∧ s.LeakFree := by
  obtain ⟨s, hs, hP⟩ := System.exists_reaches_of_run (bridge 1) releases rfl
    (.manager (.newCall 3) :: answerCall 0 ++ attachMedia 3 0 7 ++ establish 0 ++
      [.manager (.endCall 0), .manager (.disconnected 0), .media (.job .main true),
        .media (.job .main true), .media (.job .main true), .media (.job .main true),
        .manager (.sessionTornDown 0), .media (.portRemoved 7 true), .media (.confOp 0),
        .media (.confOp 0)])
    (fun s => s.Quiescent ∧ (s.mgr.setups 0).pc.created = true) (by decide)
  obtain ⟨hquiet, hcreated⟩ := of_decide_eq_true hP
  exact ⟨s, hs, hquiet, hcreated, no_leak hs hquiet⟩

/-- The call ends while its media callback has the port and has not attached it: the teardown finds the
port nowhere and defers its destruction, and the callback goes on to attach it and publish it. Nobody
releases the pool or takes the entry out of `ACTIVE_MEDIA`. -/
theorem pool_leaked : ¬∀ (n : Nat) (s : State), (bridge n).Reachable s → s.Quiescent → s.LeakFree := by
  intro hclaim
  obtain ⟨s, hs, hP⟩ := System.exists_reaches_of_run (bridge 1) System.anyStep rfl
    (.manager (.newCall 3) :: answerCall 0 ++
      [.media (.mediaState 3), .media (.takePort 0), .media (.getConfPort 0 true),
        .media (.createPool 0 true), .manager (.endCall 0), .manager (.disconnected 0),
        .manager (.cancelPending 0), .manager (.setup 0 .mediaCancelled),
        .manager (.setup 0 .abortSetup), .media (.job (.setup 0) true), .media (.job (.setup 0) true),
        .media (.job (.setup 0) true), .media (.addPort 0 (some 7)), .media (.publish 0),
        .media (.notify 0), .media (.deferred 0), .manager (.setup 0 .teardownDone),
        .manager (.setup 0 .unregisterReady)])
    (fun s => s.Quiescent ∧ (s.media.callbacks 0).poolCreated = true ∧ 0 ∉ s.media.released)
    (by decide)
  obtain ⟨hquiet, hcreated, hreleased⟩ := of_decide_eq_true hP
  exact hreleased ((hclaim 1 s hs hquiet).pools 0 hcreated)

end MumbleSip
