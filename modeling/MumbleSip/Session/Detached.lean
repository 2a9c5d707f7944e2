import MumbleSip.Session.Attachment

/-!
# Destroyed ports are out of reach

`destroy_custom_port` requires a port that pjsip no longer uses. Whoever is bound to destroy a port, a
teardown, a deferred thread or the completion of a removal, does not look again; so a port must be out
of reach, or in the very slot whose removal is awaited, from the moment it is handed to one of them. The
conditions below are the hand-overs where the code relies on the call id, on a delay or on
`pjsua_conf_remove_port` for this.
-/

namespace MumbleSip

open Transition Custody

namespace Media

variable {m : Media} {a : Actor} {ok : Bool}

/-! ### The conditions -/

/-- A teardown acts on the registrations of its own port, or its port is out of reach; only a port out of
reach goes to a deferred thread; and pjsua gives out no slot whose removal the completion callback has not
yet looked up. -/
def detachSafe (m : Media) : MediaAction → Bool
  | .job a _ =>
    match (m.jobs a).stage with
    | .unregisterPort => (m.pendingPorts.lookup (m.jobs a).callId).all fun p =>
        p = (m.jobs a).port || m.loose (m.jobs a).port
    | .takeActive false => (m.activeMedia.lookup (m.jobs a).callId).all fun active =>
        m.portOf active = (m.jobs a).port || m.loose (m.jobs a).port
    | .takeCleanup conf => (m.pendingCleanup.lookup conf).all fun cleanup => m.loose cleanup.port
    | .defer => m.loose (m.jobs a).port
    | _ => true
  | .addPort _ (some conf) => (List.range m.nextConfOp).all fun i => m.confOps i ≠ .take conf true
  | _ => true

/-! ### The invariant -/

/-- pjsip can reach the port at most in this slot. -/
def Away (m : Media) (conf : ConfPortId) (p : MediaPort) : Prop :=
  m.Loose p ∨ m.bridge.lookup conf = some p

structure Detached (m : Media) : Prop where
  leaving : ∀ a, (m.jobs a).stage = .takeActive true ∨ (m.jobs a).stage = .destroyPort →
    m.Loose (m.jobs a).port
  registering : ∀ a active, (m.jobs a).stage = .registerCleanup active →
    m.Away active.confPortId (m.jobs a).port
  cleanup : ∀ conf cleanup, m.pendingCleanup.lookup conf = some cleanup → m.Away conf cleanup.port
  taking : ∀ i conf, m.confOps i = .take conf true → m.bridge.lookup conf = none
  taken : ∀ i cleanup, m.confOps i = .destroy cleanup → m.Loose cleanup.port
  deferred : ∀ i cleanup, m.deferred i = some cleanup → m.Loose cleanup.port
  destroyed : ∀ p ∈ m.destroyed, m.Loose p

theorem detached_initial : Detached initial where
  leaving _ h := by rcases h with h | h <;> cases h
  registering _ _ h := by cases h
  cleanup _ _ h := by cases h
  taking _ _ h := by cases h
  taken _ _ h := by cases h
  deferred _ _ h := by cases h
  destroyed _ h := by cases h

theorem Apart.loose_of_update (h : m.Apart) {m' : Media} {r : Position} {p : MediaPort}
    (hr : m.portIn r = some p) (hlose : m'.portIn = Function.update m.portIn r none) : m'.Loose p := by
  intro r' hr'
  rw [hlose] at hr'
  obtain ⟨hne, hr'⟩ := of_update_none hr'
  exact hne (h r' r p hr' hr)

/-- Only a completed removal takes a port from its slot. -/
theorem bridge_next {b : MediaAction} (hen : m.enabled b) {conf : ConfPortId} {p : MediaPort}
    (h : m.bridge.lookup conf = some p) (hb : b ≠ .portRemoved conf true) :
    (m.next b).bridge.lookup conf = some p := by
  cases b with
  | job a ok =>
    show (m.stepJob a ok).bridge.lookup conf = some p
    rw [(m.jobFrame_stepJob a ok).bridge]
    exact h
  | takePort j =>
    simp only [next, takePort, unregisterPendingPort]
    cases m.pendingPorts.lookup (m.callbacks j).callId <;> exact h
  | createPool j ok => cases ok <;> exact h
  | addPort j portId =>
    cases portId with
    | none => exact h
    | some conf' =>
      have hne : conf ≠ conf' := by
        intro heq
        subst conf'
        have hfree : m.bridge.lookup conf = none := Option.isNone_iff_eq_none.1 hen.2
        rw [hfree] at h
        cases h
      simp only [next, addPort, setCallback, FiniteMap.lookup_insert, if_neg hne]
      exact h
  | portRemoved conf' ok =>
    cases ok
    · exact h
    · have hne : conf ≠ conf' := fun heq => hb (heq ▸ rfl)
      simp only [next, portRemoved, if_true, FiniteMap.lookup_erase, if_neg hne]
      exact h
  | confOp i =>
    obtain ⟨_, _, _, _, _, heq⟩ := m.frees_confOp i
    rw [heq]
    exact h
  | deferred i =>
    obtain ⟨_, _, _, _, _, heq⟩ := m.frees_deferred i
    rw [heq]
    exact h
  | mediaState | getConfPort | publish | notify | putBack => exact h

theorem Away.next (hapart : m.Apart) {conf : ConfPortId} {p : MediaPort} (h : m.Away conf p)
    {b : MediaAction} (hen : m.enabled b) : (m.next b).Away conf p := by
  rcases h with hloose | hslot
  · exact .inl (hloose.next hen)
  · by_cases hb : b = .portRemoved conf true
    · subst b
      exact .inl (hapart.loose_of_update (r := .slot conf) hslot (portIn_detach conf))
    · exact .inr (bridge_next hen hslot hb)

/-! ### Teardowns -/

theorem Detached.startJob (h : m.Detached) {job : Job}
    (hleave : job.stage = .takeActive true ∨ job.stage = .destroyPort → m.Loose job.port)
    (hregister : ∀ active, job.stage = .registerCleanup active →
      m.Away active.confPortId job.port) : Detached (m.startJob a job) := by
  refine ⟨fun a' ha' => ?_, fun a' active ha' => ?_, h.cleanup, h.taking, h.taken, h.deferred,
    h.destroyed⟩
  · show m.Loose ((m.startJob a job).jobs a').port
    simp only [Media.startJob] at ha' ⊢
    by_cases heq : a' = a
    · rw [heq, Function.update_self] at ha' ⊢
      exact hleave ha'
    · rw [Function.update_of_ne heq] at ha' ⊢
      exact h.leaving a' ha'
  · show m.Away active.confPortId ((m.startJob a job).jobs a').port
    simp only [Media.startJob] at ha' ⊢
    by_cases heq : a' = a
    · rw [heq, Function.update_self] at ha' ⊢
      exact hregister active ha'
    · rw [Function.update_of_ne heq] at ha' ⊢
      exact h.registering a' active ha'

theorem Detached.setStage (h : m.Detached) {stage : Stage}
    (hleave : stage = .takeActive true ∨ stage = .destroyPort → m.Loose (m.jobs a).port)
    (hregister : ∀ active, stage = .registerCleanup active →
      m.Away active.confPortId (m.jobs a).port) : Detached (m.setStage a stage) :=
  h.startJob hleave hregister

/-- The job is about to use its port, or to register it. -/
def claimsPort : Stage → Bool
  | .takeActive true | .destroyPort | .registerCleanup _ => true
  | _ => false

theorem Detached.setStage_of_free (h : m.Detached) {stage : Stage} (hfree : claimsPort stage = false) :
    Detached (m.setStage a stage) := by
  refine h.setStage (fun hleave => ?_) fun active hregister => ?_
  · rcases hleave with rfl | rfl
    · cases hfree
    · cases hfree
  · subst hregister
    cases hfree

theorem Detached.spawnDeferred (h : m.Detached) (cleanup : Cleanup) (hloose : m.Loose cleanup.port) :
    Detached (m.spawnDeferred cleanup) := by
  refine ⟨h.leaving, h.registering, h.cleanup, h.taking, h.taken, fun i cleanup' hi => ?_, h.destroyed⟩
  simp only [Media.spawnDeferred] at hi
  by_cases heq : i = m.nextDeferred
  · rw [heq, Function.update_self] at hi
    cases hi
    exact hloose
  · rw [Function.update_of_ne heq] at hi
    exact h.deferred i cleanup' hi

theorem Detached.takePendingCleanup (h : m.Detached) (conf : ConfPortId) :
    Detached (m.takePendingCleanup conf).2 := by
  refine ⟨h.leaving, h.registering, fun conf' cleanup hc => ?_, h.taking, h.taken, h.deferred,
    h.destroyed⟩
  exact h.cleanup conf' cleanup (FiniteMap.lookup_of_erase hc)

theorem Detached.registerPendingCleanup (h : m.Detached) {conf : ConfPortId} (cleanup : Cleanup)
    (haway : m.Away conf cleanup.port) : Detached (m.registerPendingCleanup conf cleanup) := by
  refine ⟨h.leaving, h.registering, fun conf' cleanup' hc => ?_, h.taking, h.taken, h.deferred,
    h.destroyed⟩
  simp only [Media.registerPendingCleanup, FiniteMap.lookup_insert] at hc
  split at hc
  · rename_i heq
    subst conf'
    cases hc
    exact haway
  · exact h.cleanup conf' cleanup' hc

theorem Detached.destroyCustomPort (h : m.Detached) {p : MediaPort} (hloose : m.Loose p) :
    Detached (m.destroyCustomPort p) := by
  refine ⟨h.leaving, h.registering, h.cleanup, h.taking, h.taken, h.deferred, fun p' hp' => ?_⟩
  rcases List.mem_cons.1 hp' with rfl | hp'
  · exact hloose
  · exact h.destroyed p' hp'

theorem Detached.unregisterPendingPort (h : m.Detached) (c : CallId) :
    Detached (m.unregisterPendingPort c).2 := by
  have hloose : ∀ p, m.Loose p → (m.unregisterPendingPort c).2.Loose p := by
    intro p hp r hr
    rw [portIn_unregisterPendingPort] at hr
    exact hp r (of_update_none hr).2
  have haway : ∀ conf p, m.Away conf p → (m.unregisterPendingPort c).2.Away conf p :=
    fun conf p hp => hp.imp_left (hloose p)
  exact ⟨fun a ha => hloose _ (h.leaving a ha), fun a active ha => haway _ _ (h.registering a active ha),
    fun conf cleanup hc => haway _ _ (h.cleanup conf cleanup hc), h.taking,
    fun i cleanup hi => hloose _ (h.taken i cleanup hi),
    fun i cleanup hi => hloose _ (h.deferred i cleanup hi), fun p hp => hloose _ (h.destroyed p hp)⟩

theorem Detached.stepJob (h : m.Detached) (hapart : m.Apart) (hnum : m.Numbered) (hslots : m.Slotted)
    (hsafe : m.detachSafe (.job a ok) = true) : Detached (m.stepJob a ok) := by
  cases hstage : (m.jobs a).stage with
  | idle | done => simpa only [Media.stepJob, hstage] using h
  | unregisterPort =>
    simp only [Media.stepJob, hstage]
    have hunregister := h.unregisterPendingPort (m.jobs a).callId
    cases hport : m.pendingPorts.lookup (m.jobs a).callId with
    | none =>
      apply hunregister.setStage_of_free
      simp only [Media.unregisterPendingPort, hport]
      rfl
    | some p =>
      refine hunregister.setStage (fun _ => ?_) (fun _ h => by cases h)
      show ((m.unregisterPendingPort (m.jobs a).callId).2).Loose (m.jobs a).port
      simp only [detachSafe, hstage, hport, Option.all_some, Bool.or_eq_true, decide_eq_true_iff,
        loose_iff hnum] at hsafe
      rcases hsafe with rfl | hloose
      · exact hapart.loose_of_update (r := .pending (m.jobs a).callId) hport
          (portIn_unregisterPendingPort _)
      · intro r hr
        rw [portIn_unregisterPendingPort] at hr
        exact hloose r (of_update_none hr).2
  | takeActive wasPending =>
    have htake : Detached (m.takeActiveMedia (m.jobs a).callId).2 :=
      ⟨h.leaving, h.registering, h.cleanup, h.taking, h.taken, h.deferred, h.destroyed⟩
    simp only [Media.stepJob, hstage]
    cases wasPending
    · cases hactive : m.activeMedia.lookup (m.jobs a).callId with
      | none =>
        apply htake.setStage_of_free
        simp only [takeActiveMedia, hactive, Job.afterLookup]
        cases (m.jobs a).skipUnknown <;> rfl
      | some active =>
        refine htake.setStage (fun hleave => ?_) fun active' hregister => ?_
        · simp only [takeActiveMedia, hactive, Job.afterLookup] at hleave
          rcases hleave with hleave | hleave <;> cases hleave
        · simp only [takeActiveMedia, hactive, Job.afterLookup] at hregister
          cases hregister
          simp only [detachSafe, hstage, hactive, Option.all_some, Bool.or_eq_true, decide_eq_true_iff,
            loose_iff hnum] at hsafe
          rcases hsafe with hport | hloose
          · refine .inr ?_
            show m.bridge.lookup active.confPortId = some (m.jobs a).port
            rw [← hport]
            exact (hslots.active _ active hactive).2
          · exact .inl hloose
    · exact htake.setStage (fun _ => h.leaving a (.inl hstage)) (fun _ h => by cases h)
  | destroyPort =>
    simp only [Media.stepJob, hstage]
    exact (h.destroyCustomPort (h.leaving a (.inr hstage))).setStage_of_free rfl
  | registerCleanup active =>
    simp only [Media.stepJob, hstage]
    exact (h.registerPendingCleanup ⟨(m.jobs a).port, some active.pool⟩
      (h.registering a active hstage)).setStage_of_free rfl
  | removePort conf =>
    have hremove : Detached { m with removing := conf :: m.removing } :=
      ⟨h.leaving, h.registering, h.cleanup, h.taking, h.taken, h.deferred, h.destroyed⟩
    simp only [Media.stepJob, hstage]
    cases ok with
    | false => exact h.setStage_of_free rfl
    | true => exact hremove.setStage_of_free rfl
  | takeCleanup conf =>
    simp only [Media.stepJob, hstage, Media.takePendingCleanup]
    cases hcleanup : m.pendingCleanup.lookup conf with
    | none => exact (h.takePendingCleanup conf).setStage_of_free rfl
    | some cleanup =>
      simp only [detachSafe, hstage, hcleanup, Option.all_some, loose_iff hnum] at hsafe
      exact ((h.takePendingCleanup conf).spawnDeferred cleanup hsafe).setStage_of_free rfl
  | defer =>
    simp only [detachSafe, hstage, loose_iff hnum] at hsafe
    simp only [Media.stepJob, hstage]
    exact (h.spawnDeferred ⟨(m.jobs a).port, none⟩ hsafe).setStage_of_free rfl

/-! ### Callbacks and deferred threads -/

/-- A step outside the teardowns, the completions and the deferred threads. -/
theorem Detached.frame (h : m.Detached) (hapart : m.Apart) {b : MediaAction} (hen : m.enabled b)
    (hjobs : (m.next b).jobs = m.jobs) (hcleanup : (m.next b).pendingCleanup = m.pendingCleanup)
    (hconfOps : (m.next b).confOps = m.confOps) (hdeferred : (m.next b).deferred = m.deferred)
    (hdestroyed : (m.next b).destroyed = m.destroyed)
    (hfree : ∀ i conf, m.confOps i = .take conf true → (m.next b).bridge.lookup conf = none) :
    Detached (m.next b) := by
  refine ⟨fun a ha => ?_, fun a active ha => ?_, fun conf cleanup hc => ?_, fun i conf hi => ?_,
    fun i cleanup hi => ?_, fun i cleanup hi => ?_, fun p hp => ?_⟩
  · rw [hjobs] at ha ⊢
    exact (h.leaving a ha).next hen
  · rw [hjobs] at ha ⊢
    exact (h.registering a active ha).next hapart hen
  · rw [hcleanup] at hc
    exact (h.cleanup conf cleanup hc).next hapart hen
  · rw [hconfOps] at hi
    exact hfree i conf hi
  · rw [hconfOps] at hi
    exact (h.taken i cleanup hi).next hen
  · rw [hdeferred] at hi
    exact (h.deferred i cleanup hi).next hen
  · rw [hdestroyed] at hp
    exact (h.destroyed p hp).next hen

theorem Detached.setConfOp (h : m.Detached) {i : Nat} {op : ConfOp}
    (hop : ∀ conf ok, op ≠ .take conf ok)
    (hloose : ∀ cleanup, op = .destroy cleanup → m.Loose cleanup.port) : Detached (m.setConfOp i op) := by
  refine ⟨h.leaving, h.registering, h.cleanup, fun i' conf hi' => ?_, fun i' cleanup hi' => ?_,
    h.deferred, h.destroyed⟩
  · simp only [Media.setConfOp] at hi'
    by_cases heq : i' = i
    · rw [heq, Function.update_self] at hi'
      exact absurd hi' (hop conf true)
    · rw [Function.update_of_ne heq] at hi'
      exact h.taking i' conf hi'
  · simp only [Media.setConfOp] at hi'
    by_cases heq : i' = i
    · rw [heq, Function.update_self] at hi'
      exact hloose cleanup hi'
    · rw [Function.update_of_ne heq] at hi'
      exact h.taken i' cleanup hi'

theorem Detached.stepConfOp (h : m.Detached) (i : Nat) : Detached (m.stepConfOp i) := by
  cases hop : m.confOps i with
  | skipped | done => simpa only [Media.stepConfOp, hop] using h
  | take conf ok =>
    have htake := h.takePendingCleanup conf
    simp only [Media.stepConfOp, hop, Media.takePendingCleanup] at htake ⊢
    cases hcleanup : m.pendingCleanup.lookup conf with
    | none => exact htake.setConfOp (fun _ _ h => by cases h) (fun _ h => by cases h)
    | some cleanup =>
      cases ok
      · exact htake.setConfOp (fun _ _ h => by cases h) (fun _ h => by cases h)
      · refine htake.setConfOp (fun _ _ h => by cases h) fun cleanup' heq => ?_
        cases heq
        -- the slot is free again, so the port is not in it
        rcases h.cleanup conf cleanup hcleanup with hloose | hslot
        · exact hloose
        · rw [h.taking i conf hop] at hslot
          cases hslot
  | destroy cleanup =>
    have hd := h.destroyCustomPort (h.taken i cleanup hop)
    simp only [Media.stepConfOp, hop]
    exact Detached.setConfOp (m := (m.destroyCustomPort cleanup.port).poolRelease cleanup.pool)
      ⟨hd.leaving, hd.registering, hd.cleanup, hd.taking, hd.taken, hd.deferred, hd.destroyed⟩
      (fun _ _ h => by cases h) (fun _ h => by cases h)

theorem Detached.runDeferred (h : m.Detached) (i : Nat) : Detached (m.runDeferred i) := by
  cases hd : m.deferred i with
  | none => simpa only [Media.runDeferred, hd] using h
  | some cleanup =>
    have hdestroy := h.destroyCustomPort (h.deferred i cleanup hd)
    simp only [Media.runDeferred, hd]
    refine ⟨hdestroy.leaving, hdestroy.registering, hdestroy.cleanup, hdestroy.taking, hdestroy.taken,
      fun i' cleanup' hi' => ?_, hdestroy.destroyed⟩
    by_cases heq : i' = i
    · rw [heq] at hi'
      exact absurd hi' (by simp only [Function.update_self]; exact fun h => by cases h)
    · simp only [Function.update_of_ne heq] at hi'
      exact h.deferred i' cleanup' hi'

theorem Detached.portRemoved (h : m.Detached) (hapart : m.Apart) {conf : ConfPortId}
    (hen : m.enabled (.portRemoved conf ok)) : Detached (m.portRemoved conf ok) := by
  have hloose : ∀ p, m.Loose p → (m.portRemoved conf ok).Loose p := fun p hp => Loose.next hp hen
  have haway : ∀ conf' p, m.Away conf' p → (m.portRemoved conf ok).Away conf' p :=
    fun conf' p hp => Away.next hapart hp hen
  have hops : ∀ {i op}, (m.portRemoved conf ok).confOps i = op →
      op = .take conf ok ∨ m.confOps i = op := by
    intro i op hi
    by_cases heq : i = m.nextConfOp
    · left
      rw [← hi, heq]
      exact Function.update_self _ _ _
    · right
      rw [← hi]
      exact (Function.update_of_ne heq _ _).symm
  refine ⟨fun a ha => hloose _ (h.leaving a ha), fun a active ha => haway _ _ (h.registering a active ha),
    fun conf' cleanup hc => haway _ _ (h.cleanup conf' cleanup hc), fun i conf' hi => ?_,
    fun i cleanup hi => ?_, fun i cleanup hi => hloose _ (h.deferred i cleanup hi),
    fun p hp => hloose _ (h.destroyed p hp)⟩
  · rcases hops hi with heq | hi
    · cases heq
      simp only [Media.portRemoved, if_true, FiniteMap.lookup_erase]
    · have hfree := h.taking i conf' hi
      cases ok
      · exact hfree
      · simp only [Media.portRemoved, if_true, FiniteMap.lookup_erase, hfree, ite_self]
  · rcases hops hi with heq | hi
    · cases heq
    · exact hloose _ (h.taken i cleanup hi)

theorem Detached.next (h : m.Detached) (hapart : m.Apart) (hnum : m.Numbered) (hslots : m.Slotted)
    {b : MediaAction} (hen : m.enabled b) (hsafe : m.detachSafe b = true) : Detached (m.next b) := by
  cases b with
  | job a ok => exact h.stepJob hapart hnum hslots hsafe
  | portRemoved conf ok => exact h.portRemoved hapart hen
  | confOp i => exact h.stepConfOp i
  | deferred i => exact h.runDeferred i
  | takePort j =>
    refine h.frame hapart hen ?_ ?_ ?_ ?_ ?_ fun i conf hi => ?_ <;>
      simp only [Media.next, Media.takePort, Media.unregisterPendingPort] <;>
      cases m.pendingPorts.lookup (m.callbacks j).callId <;>
      first | rfl | exact h.taking i conf hi
  | createPool j ok =>
    cases ok <;> exact h.frame hapart hen rfl rfl rfl rfl rfl h.taking
  | addPort j portId =>
    cases portId with
    | none => exact h.frame hapart hen rfl rfl rfl rfl rfl h.taking
    | some conf =>
      apply h.frame hapart hen rfl rfl rfl rfl rfl
      intro i conf' hi
      have hne : conf' ≠ conf := by
        intro heq
        subst conf'
        have hlt : i < m.nextConfOp := by
          by_contra hle
          rw [hnum.confOp i (Nat.le_of_not_lt hle)] at hi
          cases hi
        have := List.all_eq_true.1 hsafe i (List.mem_range.2 hlt)
        exact (of_decide_eq_true this) hi
      simp only [Media.next, addPort, setCallback, FiniteMap.lookup_insert, if_neg hne]
      exact h.taking i conf' hi
  | mediaState | getConfPort | publish | notify | putBack =>
    exact h.frame hapart hen rfl rfl rfl rfl rfl h.taking

theorem Detached.destroys (h : m.Detached) {b : MediaAction} {p : MediaPort}
    (hdestroy : (m.next b).destroyed = p :: m.destroyed) : m.Loose p := by
  have hsame : m.destroyed ≠ p :: m.destroyed := fun heq => List.cons_ne_self p _ heq.symm
  cases b with
  | job a ok =>
    cases hstage : (m.jobs a).stage with
    | destroyPort =>
      simp only [Media.next, Media.stepJob, hstage] at hdestroy
      cases hdestroy
      exact h.leaving a (.inr hstage)
    | removePort conf =>
      simp only [Media.next, Media.stepJob, hstage] at hdestroy
      cases ok <;> exact absurd hdestroy hsame
    | takeCleanup conf =>
      simp only [Media.next, Media.stepJob, hstage, Media.takePendingCleanup] at hdestroy
      cases hc : m.pendingCleanup.lookup conf <;> rw [hc] at hdestroy <;> exact absurd hdestroy hsame
    | _ =>
      simp only [Media.next, Media.stepJob, hstage] at hdestroy
      exact absurd hdestroy hsame
  | takePort j =>
    simp only [Media.next, Media.takePort, Media.unregisterPendingPort] at hdestroy
    cases hport : m.pendingPorts.lookup (m.callbacks j).callId <;> rw [hport] at hdestroy <;>
      exact absurd hdestroy hsame
  | createPool j ok => cases ok <;> exact absurd hdestroy hsame
  | addPort j portId => cases portId <;> exact absurd hdestroy hsame
  | confOp i =>
    cases hop : m.confOps i with
    | destroy cleanup =>
      simp only [Media.next, Media.stepConfOp, hop] at hdestroy
      cases hdestroy
      exact h.taken i cleanup hop
    | take conf ok =>
      simp only [Media.next, Media.stepConfOp, hop, Media.takePendingCleanup] at hdestroy
      cases hc : m.pendingCleanup.lookup conf <;> rw [hc] at hdestroy <;> exact absurd hdestroy hsame
    | skipped | done =>
      simp only [Media.next, Media.stepConfOp, hop] at hdestroy
      exact absurd hdestroy hsame
  | deferred i =>
    cases hd : m.deferred i with
    | none =>
      simp only [Media.next, Media.runDeferred, hd] at hdestroy
      exact absurd hdestroy hsame
    | some cleanup =>
      simp only [Media.next, Media.runDeferred, hd] at hdestroy
      cases hdestroy
      exact h.deferred i cleanup hd
  | mediaState | getConfPort | publish | notify | putBack | portRemoved =>
    exact absurd hdestroy hsame

end Media

/-! ### The whole system -/

namespace State

variable {s : State}

/-- A setup task that is about to register its port: nobody is bound to destroy it. -/
theorem PortsSafe.not_leaving (h : s.PortsSafe) {k : Call}
    (hpc : (s.mgr.setups k).pc = .registerPort) :
    (∀ r, ports.heldAt s.media r ≠ some k) ∧ k ∉ s.media.destroyed := by
  have hport : s.mgr.portAt (.setup k) = some k := by
    rw [Manager.portAt, hpc]
    rfl
  refine ⟨fun r hr => ?_, Settled.free h (.inl (.setup k)) k hport⟩
  have := Settled.linear h (.inl (.setup k)) (.inr r) k hport hr
  cases this

theorem detached_registerPort (h : s.media.Detached) (hports : s.PortsSafe) {k : Call} {c : CallId}
    (hpc : (s.mgr.setups k).pc = .registerPort) : (s.media.registerPendingPort c k).Detached := by
  obtain ⟨hheld, hfree⟩ := hports.not_leaving hpc
  have hloose : ∀ p, p ≠ k → s.media.Loose p → (s.media.registerPendingPort c k).Loose p := by
    intro p hne hp r hr
    rw [Media.portIn_registerPendingPort] at hr
    by_cases heq : r = .pending c
    · rw [heq, Function.update_self] at hr
      exact hne (Option.some.inj hr).symm
    · rw [Function.update_of_ne heq] at hr
      exact hp r hr
  have haway : ∀ conf p, p ≠ k → s.media.Away conf p →
      (s.media.registerPendingPort c k).Away conf p :=
    fun conf p hne hp => hp.imp_left (hloose p hne)
  have hjob : ∀ a, (s.media.jobs a).stage.handedOn = false → (s.media.jobs a).port ≠ k := by
    intro a ha heq
    exact hheld (.job a) (heq ▸ Job.heldPort_of_stage ha)
  refine ⟨fun a ha => hloose _ (hjob a ?_) (h.leaving a ha),
    fun a active ha => haway _ _ (hjob a ?_) (h.registering a active ha),
    fun conf cleanup hc => haway _ _ (fun heq => hheld (.cleanup conf) ?_) (h.cleanup conf cleanup hc),
    h.taking, fun i cleanup hi => hloose _ (fun heq => hheld (.confOp i) ?_) (h.taken i cleanup hi),
    fun i cleanup hi => hloose _ (fun heq => hheld (.deferred i) ?_) (h.deferred i cleanup hi),
    fun p hp => hloose _ (fun heq => hfree (heq ▸ hp)) (h.destroyed p hp)⟩
  · rcases ha with ha | ha <;> rw [show (s.media.jobs a).stage = _ from ha] <;> rfl
  · rw [show (s.media.jobs a).stage = _ from ha]
    rfl
  · rw [Resource.heldAt, show s.media.pendingCleanup.lookup conf = some cleanup from hc, ← heq]
    rfl
  · rw [Resource.heldAt, show s.media.confOps i = .destroy cleanup from hi, ← heq]
    rfl
  · rw [Resource.heldAt, show s.media.deferred i = some cleanup from hi, ← heq]
    rfl

theorem detached_mediaAfter (h : s.media.Detached) (hports : s.PortsSafe) {a : ManagerAction}
    (hen : s.mgr.enabled a) : (s.mediaAfter a).Detached := by
  by_cases ha : ∃ k, a = .setup k .registerPort
  · obtain ⟨k, rfl⟩ := ha
    exact detached_registerPort h hports hen.1
  · have hport := s.portIn_mediaAfter fun k hk => ha ⟨k, hk⟩
    rcases s.mediaAfter_cases a with ⟨r, job, heq, hstart, _⟩ | ⟨pendingPorts, ready, tx, heq⟩
    · rw [heq]
      have hstage := Stage.cases_starting hstart
      refine h.startJob (fun hleave => ?_) fun active hregister => ?_
      · rcases hstage with hstage | hstage | hstage <;> rw [hstage] at hleave <;>
          rcases hleave with hleave | hleave <;> cases hleave
      · rcases hstage with hstage | hstage | hstage <;> rw [hstage] at hregister <;> cases hregister
    · rw [heq] at hport ⊢
      have hloose : ∀ p, s.media.Loose p → Media.Loose { s.media with pendingPorts := pendingPorts } p := by
        intro p hp r hr
        exact hp r (hport ▸ hr)
      have haway : ∀ conf p, s.media.Away conf p →
          Media.Away { s.media with pendingPorts := pendingPorts } conf p :=
        fun conf p hp => hp.imp_left (hloose p)
      exact ⟨fun a ha => hloose _ (h.leaving a ha),
        fun a active ha => haway _ _ (h.registering a active ha),
        fun conf cleanup hc => haway _ _ (h.cleanup conf cleanup hc), h.taking,
        fun i cleanup hi => hloose _ (h.taken i cleanup hi),
        fun i cleanup hi => hloose _ (h.deferred i cleanup hi), fun p hp => hloose _ (h.destroyed p hp)⟩

end State

/-- The steps of a run in which a port is handed to its destruction only out of reach, or to the
completion of its removal. -/
def handsOverDetached (m : Media) (b : MediaAction) : Prop := m.detachSafe b = true

instance (m : Media) (b : MediaAction) : Decidable (handsOverDetached m b) :=
  inferInstanceAs (Decidable (_ = _))

theorem reaches_detached {n : Nat} {s : State} (hs : (bridge n).Reaches (onMedia handsOverDetached) s) :
    s.media.Detached := by
  refine hs.invariant (I := fun s => s.media.Detached) ?_ fun s a hs h hen hok => ?_
  · intro s hinit
    rw [hinit]
    exact Media.detached_initial
  · cases a with
    | manager a => exact State.detached_mediaAfter h (reaches_portsSafe hs) hen.1
    | media b => exact h.next (reaches_placed hs).apart (reaches_numbered hs) (reaches_slotted hs) hen hok

/-- No port is destroyed while it is in the bridge, and a destroyed port is neither in `PENDING_PORTS`
nor passed to `pjsua_conf_add_port` again. -/
theorem no_use_of_destroyed_port {n : Nat} {s : State}
    (hs : (bridge n).Reaches (onMedia handsOverDetached) s) :
    (∀ a p, s.enabled a → (s.next a).media.destroyed = p :: s.media.destroyed →
      ∀ conf, s.media.bridge.lookup conf ≠ some p) ∧
    ∀ p ∈ s.media.destroyed, (∀ c, s.media.pendingPorts.lookup c ≠ some p) ∧
      ∀ j, (s.media.callbacks j).pc = .addPort → (s.media.callbacks j).port ≠ p := by
  have h := reaches_detached hs
  refine ⟨fun a p _ hdestroy conf => ?_, fun p hp => ⟨fun c => ?_, fun j hpc heq => ?_⟩⟩
  · cases a with
    | manager a =>
      have hsame : (s.mediaAfter a).destroyed = s.media.destroyed := by
        rcases s.mediaAfter_cases a with ⟨r, job, heq, _⟩ | ⟨_, _, _, heq⟩
        · rw [heq]
          rfl
        · rw [heq]
      have hdestroy : (s.mediaAfter a).destroyed = p :: s.media.destroyed := hdestroy
      rw [hsame] at hdestroy
      exact absurd hdestroy.symm (List.cons_ne_self p _)
    | media b => exact h.destroys hdestroy (.slot conf)
  · exact h.destroyed p hp (.pending c)
  · apply h.destroyed p hp (.hand j)
    rw [Media.portIn, MediaCallback.hand, hpc]
    exact congrArg some heq

/-- An established call hangs up, and its port is destroyed after its removal. -/
theorem no_use_of_destroyed_port_removed : ∃ s, (bridge 1).Reaches (onMedia handsOverDetached) s ∧
    s.media.destroyed = [0] ∧ ∀ c, s.media.pendingPorts.lookup c ≠ some 0 := by
  obtain ⟨s, hs, hP⟩ := System.exists_reaches_of_run (bridge 1) (onMedia handsOverDetached) rfl
    (.manager (.newCall 3) :: answerCall 0 ++ attachMedia 3 0 7 ++ establish 0 ++
      [.manager (.endCall 0), .manager (.disconnected 0), .media (.job .main true),
        .media (.job .main true), .media (.job .main true), .media (.job .main true),
        .manager (.sessionTornDown 0), .media (.portRemoved 7 true), .media (.confOp 0),
        .media (.confOp 0)])
    (fun s => s.media.destroyed = [0]) (by decide)
  have hdestroyed := of_decide_eq_true hP
  refine ⟨s, hs, hdestroyed, ((no_use_of_destroyed_port hs).2 0 ?_).1⟩
  rw [hdestroyed]
  exact List.mem_singleton_self 0

/-- A call is answered and attached and ends; a new call takes its id and registers. The first setup no
longer owns the id and hands its port, still in the bridge, to a deferred thread. -/
theorem destroyed_port_attached : ¬∀ (n : Nat) (s : State), (bridge n).Reachable s →
    (∀ a p, s.enabled a → (s.next a).media.destroyed = p :: s.media.destroyed →
      ∀ conf, s.media.bridge.lookup conf ≠ some p) ∧
    ∀ p ∈ s.media.destroyed, (∀ c, s.media.pendingPorts.lookup c ≠ some p) ∧
      ∀ j, (s.media.callbacks j).pc = .addPort → (s.media.callbacks j).port ≠ p := by
  intro hclaim
  obtain ⟨s, hs, hP⟩ := System.exists_reaches_of_run (bridge 2) System.anyStep rfl
    (.manager (.newCall 3) :: answerCall 0 ++ attachMedia 3 0 7 ++
      [.manager (.endCall 0), .manager (.disconnected 0), .manager (.cancelPending 0),
        .manager (.newCall 3)] ++ answerCall 1 ++
      [.manager (.setup 0 .mediaCancelled), .manager (.setup 0 .abortSetup),
        .media (.job (.setup 0) true)])
    (fun s => s.enabled (.media (.deferred 0)) ∧ s.media.bridge.lookup 7 = some 0 ∧
      (s.next (.media (.deferred 0))).media.destroyed = 0 :: s.media.destroyed) (by decide)
  obtain ⟨hen, hslot, hdestroy⟩ := of_decide_eq_true hP
  exact (hclaim 2 s hs).1 _ 0 hen hdestroy 7 hslot

end MumbleSip
