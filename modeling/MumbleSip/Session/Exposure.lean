import MumbleSip.Session.Isolation

/-!
# Who watches over a port

A port that waits in `PENDING_PORTS`, is in the hands of a media callback or is published in
`ACTIVE_MEDIA` has to be taken from there before its call is over. Whoever will look for it is the setup
task that still has it, the session, or a teardown that has not looked everywhere yet. As long as no
teardown stops looking, and no session is overwritten, while the port is still exposed, every exposed
port has such a watcher.
-/

namespace MumbleSip

open Transition Custody

/-- The teardown is not running. -/
def Stage.resting : Stage → Bool
  | .idle | .done => true
  | _ => false

/-- The teardown will look for its port, or has found it nowhere. -/
def Stage.watching : Stage → Bool
  | .unregisterPort | .takeActive false | .defer => true
  | _ => false

theorem Stage.handedOn_of_resting {stage : Stage} (h : stage.resting = true) :
    stage.handedOn = true := by
  cases stage <;> first | rfl | cases h

theorem Stage.not_watching_of_resting {stage : Stage} (h : stage.resting = true) :
    stage.watching = false := by
  cases stage <;> first | rfl | cases h

/-! ### Teardowns at rest -/

namespace State

variable {s : State} {k : Call}

/-- The teardown of a setup task runs while the task waits for it, that of a session while the main loop
does. -/
structure Resting (s : State) : Prop where
  setup : ∀ k, (s.mgr.setups k).pc ≠ .teardown → (s.media.jobs (.setup k)).stage.resting = true
  main : (∀ k, s.mgr.main ≠ .teardown k) → (s.media.jobs .main).stage.resting = true

theorem resting_initial (n : Nat) : Resting ⟨.initial n, .initial⟩ where
  setup _ _ := rfl
  main _ := rfl

theorem Resting.of_teardown (h : s.Resting) {a : ManagerAction} (hen : s.mgr.enabled a) {r : Actor}
    (hr : a.teardown = some r) : (s.media.jobs r).stage.resting = true := by
  cases a with
  | disconnected k =>
    cases hr
    apply h.main
    intro k' hk'
    rw [hen.1] at hk'
    cases hk'
  | setup k b =>
    cases b with
    | abortSetup | checkCancel =>
      cases hr
      apply h.setup k
      rw [show (s.mgr.setups k).pc = _ from hen.1]
      exact nofun
    | _ => cases hr
  | _ => cases hr

theorem jobs_mediaAfter_of_ne {a : ManagerAction} {r : Actor} (hr : a.teardown ≠ some r) :
    (s.mediaAfter a).jobs r = s.media.jobs r := by
  rcases s.mediaAfter_cases a with ⟨r', job, heq, _, hr'⟩ | ⟨_, _, _, heq⟩ <;> rw [heq]
  have hne : r ≠ r' := fun h => hr (h ▸ hr')
  exact Function.update_of_ne hne _ _

theorem Resting.manager (h : s.Resting) {a : ManagerAction} (hen : s.enabled (.manager a)) :
    Resting (s.next (.manager a)) := by
  refine ⟨fun k hpc => ?_, fun hmain => ?_⟩
  · show ((s.mediaAfter a).jobs (.setup k)).stage.resting = true
    by_cases ha : ∃ b, a = .setup k b
    · obtain ⟨b, rfl⟩ := ha
      have hself : (s.mgr.next (.setup k b)).setups k = s.mgr.stepSetup k b := Function.update_self _ _ _
      have hpc : (s.mgr.stepSetup k b).pc ≠ .teardown := by
        rw [← hself]
        exact hpc
      cases b with
      | abortSetup => exact absurd rfl hpc
      | checkCancel =>
        have hcancel : ¬s.mgr.cancelled k = true := by
          intro hcancel
          simp only [Manager.stepSetup, if_pos hcancel] at hpc
          exact hpc rfl
        simp only [mediaAfter, if_neg hcancel]
        apply h.setup k
        rw [show (s.mgr.setups k).pc = .checkCancel from hen.1.1]
        intro h
        cases h
      | teardownDone =>
        have hdone : (s.media.jobs (.setup k)).stage = .done := of_decide_eq_true hen.2
        show (s.media.jobs (.setup k)).stage.resting = true
        rw [hdone]
        rfl
      | _ =>
        apply h.setup k
        rw [show (s.mgr.setups k).pc = _ from hen.1.1]
        intro h
        cases h
    · have ha : ∀ b, a ≠ .setup k b := fun b hb => ha ⟨b, hb⟩
      rw [jobs_mediaAfter ha]
      refine h.setup k fun hteardown => hpc ?_
      rw [show (s.next (.manager a)).mgr.setups k = s.mgr.setups k from
        Manager.setups_next hen.1 (by rw [hteardown]; exact fun h => by cases h) ha]
      exact hteardown
  · show ((s.mediaAfter a).jobs .main).stage.resting = true
    cases a with
    | disconnected k =>
      have hidle := h.of_teardown (a := .disconnected k) hen.1 rfl
      simp only [mediaAfter]
      cases hsession : s.mgr.sessions.lookup (s.mgr.callId k) with
      | none => exact hidle
      | some session =>
        refine absurd ?_ (hmain k)
        simp only [next, Manager.next, hsession, Option.isSome_some, if_true]
    | sessionTornDown k =>
      have hdone : (s.media.jobs .main).stage = .done := of_decide_eq_true hen.2
      show (s.media.jobs .main).stage.resting = true
      rw [hdone]
      rfl
    | cancelPending k =>
      apply h.main
      intro k' hk'
      rw [show s.mgr.main = .cancelPending k from hen.1] at hk'
      cases hk'
    | setup k b =>
      rw [jobs_mediaAfter_of_ne (by cases b <;> exact fun h => by cases h)]
      exact h.main hmain
    | newCall | endCall | incomingCall => exact h.main hmain

theorem Resting.media (h : s.Resting) {b : MediaAction} (hen : s.media.enabled b) :
    Resting (s.next (.media b)) := by
  have hkeep : ∀ r, (s.media.jobs r).stage.resting = true →
      ((s.media.next b).jobs r).stage.resting = true := by
    intro r hr
    by_cases hb : ∃ ok, b = .job r ok
    · obtain ⟨ok, rfl⟩ := hb
      obtain ⟨hidle, hdone⟩ := hen
      revert hr hidle hdone
      cases (s.media.jobs r).stage <;> simp [Stage.resting]
    · rw [Media.jobs_next_of_ne fun ok hok => hb ⟨ok, hok⟩]
      exact hr
  exact ⟨fun k hpc => hkeep _ (h.setup k hpc), fun hmain => hkeep _ (h.main hmain)⟩

end State

theorem reaches_resting {n : Nat} {ok : State → Action → Prop} {s : State}
    (hs : (bridge n).Reaches ok s) : s.Resting := by
  refine hs.invariant ?_ fun s a _ h hen _ => ?_
  · intro s hinit
    rw [hinit]
    exact State.resting_initial n
  · cases a with
    | manager a => exact h.manager hen
    | media b => exact h.media hen

/-! ### Exposed ports -/

/-- Where a port has to be taken from before its call is over. -/
inductive Exposure
  | pending (c : CallId)
  | callback (j : Nat)
  | active (c : CallId)
  deriving DecidableEq

/-- The exposure of the port in a slot that is held. -/
def SlotPlace.exposure : SlotPlace → Option Exposure
  | .callback j => some (.callback j)
  | .active c => some (.active c)
  | .job _ => none

namespace Media

variable {m : Media} {p : MediaPort} {a : Actor} {ok : Bool}

def exposedAt (m : Media) : Exposure → Option MediaPort
  | .pending c => m.pendingPorts.lookup c
  | .callback j => if (m.callbacks j).pc.holding then some (m.callbacks j).port else none
  | .active c => (m.activeMedia.lookup c).map m.portOf

def Exposed (m : Media) (p : MediaPort) : Prop := ∃ r, m.exposedAt r = some p

/-- `Exposed`, computed. -/
def exposed (m : Media) (p : MediaPort) : Bool :=
  p ∈ m.pendingPorts.values ∨
    (∃ j < m.nextCallback, (m.callbacks j).pc.holding = true ∧ (m.callbacks j).port = p) ∨
    p ∈ m.activeMedia.values.map m.portOf

theorem exposed_iff (h : m.Numbered) : m.exposed p = true ↔ m.Exposed p := by
  rw [exposed, decide_eq_true_iff, FiniteMap.mem_values, List.mem_map]
  constructor
  · intro hp
    rcases hp with ⟨c, hc⟩ | ⟨j, _, hhold, hport⟩ | ⟨active, hactive, hport⟩
    · exact ⟨.pending c, hc⟩
    · exact ⟨.callback j, by rw [exposedAt, if_pos hhold, hport]⟩
    · obtain ⟨c, hc⟩ := FiniteMap.mem_values.1 hactive
      exact ⟨.active c, by rw [exposedAt, hc, Option.map_some, hport]⟩
  · intro hp
    obtain ⟨r, hr⟩ := hp
    cases r with
    | pending c => exact .inl ⟨c, hr⟩
    | callback j =>
      simp only [exposedAt, Option.ite_none_right_eq_some] at hr
      obtain ⟨hhold, hport⟩ := hr
      refine .inr (.inl ⟨j, h.lt_nextCallback fun hpc => ?_, hhold, Option.some.inj hport⟩)
      rw [hpc] at hhold
      cases hhold
    | active c =>
      obtain ⟨active, hc, hport⟩ := Option.map_eq_some_iff.1 hr
      exact .inr (.inr ⟨active, FiniteMap.mem_values.2 ⟨c, hc⟩, hport⟩)

/-- An exposed port is in `PENDING_PORTS`, in the hands of a callback or in a slot that is held. -/
theorem position_of_exposedAt (hslots : m.Slotted) {r : Exposure} (hr : m.exposedAt r = some p) :
    (∃ c, r = .pending c ∧ m.portIn (.pending c) = some p) ∨
    (∃ j, r = .callback j ∧ m.portIn (.hand j) = some p) ∨
    ∃ q conf, q.exposure = some r ∧ m.slotAt q = some conf ∧ m.portIn (.slot conf) = some p := by
  cases r with
  | pending c => exact .inl ⟨c, rfl, hr⟩
  | callback j =>
    simp only [exposedAt, Option.ite_none_right_eq_some] at hr
    obtain ⟨hhold, hport⟩ := hr
    by_cases hpc : (m.callbacks j).pc = .publish
    · refine .inr (.inr ⟨.callback j, (m.callbacks j).portId, rfl, if_pos hpc, ?_⟩)
      exact (hslots.publishing j hpc).trans hport
    · refine .inr (.inl ⟨j, rfl, ?_⟩)
      rw [← hport]
      simp only [portIn, MediaCallback.hand]
      revert hhold hpc
      cases (m.callbacks j).pc <;> simp [CallbackPc.holding]
  | active c =>
    obtain ⟨active, hc, hport⟩ := Option.map_eq_some_iff.1 hr
    refine .inr (.inr ⟨.active c, active.confPortId, rfl, ?_, ?_⟩)
    · rw [slotAt, hc, Option.map_some]
    · exact (hslots.active c active hc).2.trans (congrArg some hport)

/-- A port is exposed in one way only. -/
theorem exposedAt_unique (hapart : m.Apart) (hslots : m.Slotted) {r r' : Exposure}
    (hr : m.exposedAt r = some p) (hr' : m.exposedAt r' = some p) : r = r' := by
  rcases position_of_exposedAt hslots hr with ⟨c, rfl, hp⟩ | ⟨j, rfl, hp⟩ | ⟨q, conf, hq, hconf, hp⟩ <;>
    rcases position_of_exposedAt hslots hr' with
      ⟨c', rfl, hp'⟩ | ⟨j', rfl, hp'⟩ | ⟨q', conf', hq', hconf', hp'⟩ <;>
    have hposition := hapart _ _ p hp hp'
  case inr.inr.inr.inr =>
    cases hposition
    rw [hslots.slots.linear q q' conf hconf hconf', hq'] at hq
    exact (Option.some.inj hq).symm
  all_goals cases hposition <;> rfl

/-! ### Steps of the media side -/

theorem exposedAt_unregisterPendingPort (c : CallId) : (m.unregisterPendingPort c).2.exposedAt
    = Function.update m.exposedAt (.pending c) none := by
  refine Function.eq_update_iff.2 ⟨?_, fun r hr => ?_⟩
  · simp only [exposedAt, unregisterPendingPort, FiniteMap.lookup_erase, if_true]
  · cases r with
    | pending c' =>
      have hne : c' ≠ c := fun heq => hr (congrArg _ heq)
      simp only [exposedAt, unregisterPendingPort, FiniteMap.lookup_erase, if_neg hne]
    | _ => rfl

theorem exposedAt_registerPendingPort (c : CallId) (p : MediaPort) :
    (m.registerPendingPort c p).exposedAt
      = Function.update m.exposedAt (.pending c) (some p) := by
  refine Function.eq_update_iff.2 ⟨?_, fun r hr => ?_⟩
  · simp only [exposedAt, registerPendingPort, FiniteMap.lookup_insert, if_true]
  · cases r with
    | pending c' =>
      have hne : c' ≠ c := fun heq => hr (congrArg _ heq)
      simp only [exposedAt, registerPendingPort, FiniteMap.lookup_insert, if_neg hne]
    | _ => rfl

theorem exposedAt_takeActiveMedia (c : CallId) : (m.takeActiveMedia c).2.exposedAt
    = Function.update m.exposedAt (.active c) none := by
  refine Function.eq_update_iff.2 ⟨?_, fun r hr => ?_⟩
  · simp only [exposedAt, takeActiveMedia, FiniteMap.lookup_erase, if_true, Option.map_none]
  · cases r with
    | active c' =>
      have hne : c' ≠ c := fun heq => hr (congrArg _ heq)
      simp only [exposedAt, takeActiveMedia, FiniteMap.lookup_erase, if_neg hne]
      rfl
    | _ => rfl

theorem exposedAt_setCallback (hslots : m.Slotted) {j : Nat} (callback : MediaCallback)
    (hport : m.Published j → callback.port = (m.callbacks j).port) :
    (m.setCallback j callback).exposedAt = Function.update m.exposedAt (.callback j)
      (if callback.pc.holding then some callback.port else none) := by
  refine Function.eq_update_iff.2 ⟨?_, fun r hr => ?_⟩
  · simp only [exposedAt, setCallback, Function.update_self]
  · cases r with
    | pending c => rfl
    | callback j' =>
      have hne : j' ≠ j := fun heq => hr (congrArg _ heq)
      simp only [exposedAt, setCallback, Function.update_of_ne hne]
    | active c =>
      show (m.activeMedia.lookup c).map _ = (m.activeMedia.lookup c).map _
      cases hc : m.activeMedia.lookup c with
      | none => rfl
      | some active =>
        refine congrArg some (portOf_setCallback fun heq => hport ?_)
        exact heq ▸ (hslots.active c active hc).1

theorem exposedAt_setCallback_same (hslots : m.Slotted) {j : Nat} (callback : MediaCallback)
    (hport : callback.port = (m.callbacks j).port)
    (hpc : callback.pc.holding = (m.callbacks j).pc.holding) :
    (m.setCallback j callback).exposedAt = m.exposedAt := by
  rw [exposedAt_setCallback hslots callback fun _ => hport, hport, hpc]
  exact Function.update_eq_self (Exposure.callback j) m.exposedAt

theorem exposedAt_publish (hslots : m.Slotted) (j : Nat) :
    (m.publish j).exposedAt = Function.update (Function.update m.exposedAt (.callback j) none)
      (.active (m.callbacks j).callId) (some (m.callbacks j).port) := by
  have hset := exposedAt_setCallback hslots (j := j) { m.callbacks j with pc := .notify } fun _ => rfl
  refine Function.eq_update_iff.2 ⟨?_, fun r hr => ?_⟩
  · simp only [exposedAt, publish, gotoCallback, setCallback, FiniteMap.lookup_insert, if_true,
      Option.map_some, portOf, Function.update_self]
  · refine Eq.trans ?_ (congrFun hset r)
    cases r with
    | active c =>
      have hne : c ≠ (m.callbacks j).callId := fun heq => hr (congrArg _ heq)
      simp only [exposedAt, publish, gotoCallback, setCallback, FiniteMap.lookup_insert, if_neg hne]
      rfl
    | _ => rfl

theorem exposedAt_stepJob (a : Actor) (ok : Bool) : (m.stepJob a ok).exposedAt =
    match (m.jobs a).stage with
    | .unregisterPort => Function.update m.exposedAt (.pending (m.jobs a).callId) none
    | .takeActive _ => Function.update m.exposedAt (.active (m.jobs a).callId) none
    | _ => m.exposedAt := by
  cases hstage : (m.jobs a).stage with
  | unregisterPort =>
    simp only [stepJob, hstage]
    exact exposedAt_unregisterPendingPort _
  | takeActive wasPending =>
    simp only [stepJob, hstage]
    exact exposedAt_takeActiveMedia (m := m) (m.jobs a).callId
  | removePort conf =>
    simp only [stepJob, hstage]
    cases ok <;> rfl
  | takeCleanup conf =>
    simp only [stepJob, hstage, takePendingCleanup]
    cases m.pendingCleanup.lookup conf <;> rfl
  | idle | done => simp only [stepJob, hstage]
  | destroyPort | registerCleanup | defer =>
    simp only [stepJob, hstage]
    rfl

/-- A step of the media side leaves the exposures as they are, ends one, or turns one into another. -/
theorem exposedAt_next (hslots : m.Slotted) {b : MediaAction} (hen : m.enabled b) :
    (m.next b).exposedAt = m.exposedAt ∨
    (∃ r, (m.next b).exposedAt = Function.update m.exposedAt r none) ∨
    ∃ r r', (m.next b).exposedAt
      = Function.update (Function.update m.exposedAt r none) r' (m.exposedAt r) := by
  cases b with
  | job a ok =>
    have hstep := m.exposedAt_stepJob a ok
    split at hstep
    · exact .inr (.inl ⟨_, hstep⟩)
    · exact .inr (.inl ⟨_, hstep⟩)
    · exact .inl hstep
  | mediaState c =>
    refine .inr (.inl ⟨.callback m.nextCallback, ?_⟩)
    exact exposedAt_setCallback hslots ⟨c, 0, false, 0, .takePort⟩
      fun hpub => absurd hpub.1 (Nat.lt_irrefl _)
  | takePort j =>
    have hpc : (m.callbacks j).pc = .takePort := hen
    have htaken : Slotted (m.unregisterPendingPort (m.callbacks j).callId).2 :=
      ⟨hslots.slots, hslots.occupied, hslots.removing, hslots.publishing, hslots.active, hslots.taken⟩
    have hnot : ¬m.Published j := by
      intro hpub
      rcases hpub.2 with hpub | hpub <;> rw [hpc] at hpub <;> cases hpub
    simp only [next, takePort]
    cases hport : m.pendingPorts.lookup (m.callbacks j).callId with
    | none =>
      refine .inr (.inl ⟨.pending (m.callbacks j).callId, ?_⟩)
      rw [← exposedAt_unregisterPendingPort]
      simp only [unregisterPendingPort, hport] at htaken ⊢
      refine exposedAt_setCallback_same htaken _ rfl ?_
      show false = (m.callbacks j).pc.holding
      rw [hpc]
      rfl
    | some port =>
      refine .inr (.inr ⟨.pending (m.callbacks j).callId, .callback j, ?_⟩)
      have hpending : m.exposedAt (.pending (m.callbacks j).callId) = some port := hport
      rw [hpending, ← exposedAt_unregisterPendingPort]
      simp only [unregisterPendingPort, hport] at htaken ⊢
      exact exposedAt_setCallback htaken _ fun hpub => absurd hpub hnot
  | getConfPort j ok =>
    refine .inl (exposedAt_setCallback_same hslots _ rfl ?_)
    rw [show (m.callbacks j).pc = .getConfPort from hen]
    cases ok <;> rfl
  | createPool j ok =>
    have hpc : (m.callbacks j).pc = .createPool := hen
    cases ok <;> exact .inl (exposedAt_setCallback_same hslots _ rfl (by rw [hpc]; rfl))
  | addPort j portId =>
    have hpc : (m.callbacks j).pc = .addPort := hen.1
    cases portId with
    | none =>
      exact .inl (exposedAt_setCallback_same (m := m.poolRelease (some j))
        ⟨hslots.slots, hslots.occupied, hslots.removing, hslots.publishing, hslots.active, hslots.taken⟩
        _ rfl (by rw [show ((m.poolRelease (some j)).callbacks j).pc = .addPort from hpc]; rfl))
    | some conf =>
      exact .inl (exposedAt_setCallback_same hslots { m.callbacks j with portId := conf, pc := .publish }
        rfl (by rw [hpc]; rfl))
  | publish j =>
    have hpc : (m.callbacks j).pc = .publish := hen
    refine .inr (.inr ⟨.callback j, .active (m.callbacks j).callId, ?_⟩)
    have hhold : m.exposedAt (.callback j) = some (m.callbacks j).port := by
      rw [exposedAt, if_pos (by rw [hpc]; rfl)]
    rw [hhold]
    exact exposedAt_publish hslots j
  | notify j =>
    exact .inl (exposedAt_setCallback_same hslots { m.callbacks j with pc := .done } rfl
      (by rw [show (m.callbacks j).pc = .notify from hen]; rfl))
  | putBack j =>
    have hpc : (m.callbacks j).pc = .putBack := hen
    refine .inr (.inr ⟨.callback j, .pending (m.callbacks j).callId, ?_⟩)
    have hhand : m.exposedAt (.callback j) = some (m.callbacks j).port := by
      rw [exposedAt, if_pos (by rw [hpc]; rfl)]
    have hne : Exposure.callback j ≠ .pending (m.callbacks j).callId := fun h => by cases h
    rw [hhand, Function.update_comm hne, ← exposedAt_registerPendingPort]
    exact exposedAt_setCallback
      (m := m.registerPendingPort (m.callbacks j).callId (m.callbacks j).port)
      ⟨hslots.slots, hslots.occupied, hslots.removing, hslots.publishing, hslots.active, hslots.taken⟩
      { m.callbacks j with pc := .done } fun _ => rfl
  | portRemoved conf ok => exact .inl rfl
  | confOp i =>
    obtain ⟨_, _, _, _, _, heq⟩ := m.frees_confOp i
    rw [heq]
    exact .inl rfl
  | deferred i =>
    obtain ⟨_, _, _, _, _, heq⟩ := m.frees_deferred i
    rw [heq]
    exact .inl rfl

theorem Exposed.of_next (hslots : m.Slotted) {b : MediaAction} (hen : m.enabled b)
    (h : (m.next b).Exposed p) : m.Exposed p := by
  obtain ⟨r, hr⟩ := h
  rcases m.exposedAt_next hslots hen with hsame | ⟨r', hlose⟩ | ⟨r', q, hmove⟩
  · exact ⟨r, hsame ▸ hr⟩
  · rw [hlose] at hr
    exact ⟨r, (of_update_none hr).2⟩
  · rw [hmove] at hr
    exact of_update_move hr

/-! ### The conditions -/

/-- No teardown stops looking while its port is exposed, or drops what it or the registry has: what it
finds under the call id is its own port, or that is not exposed; a teardown that would skip an unknown
port finds it; a port is deferred when it is not exposed; a teardown that found its port pending finds
nothing in `ACTIVE_MEDIA`; no entry of `PENDING_CLEANUP` or `ACTIVE_MEDIA` is overwritten; and a failed
removal completes without a cleanup. -/
def releaseSafe (m : Media) : MediaAction → Bool
  | .job a _ =>
    match (m.jobs a).stage with
    | .unregisterPort => (m.pendingPorts.lookup (m.jobs a).callId).all fun p =>
        p = (m.jobs a).port || !m.exposed (m.jobs a).port
    | .takeActive true => (m.activeMedia.lookup (m.jobs a).callId).isNone
    | .takeActive false =>
      match m.activeMedia.lookup (m.jobs a).callId with
      | some active => m.portOf active = (m.jobs a).port || !m.exposed (m.jobs a).port
      | none => !(m.jobs a).skipUnknown
    | .registerCleanup active => (m.pendingCleanup.lookup active.confPortId).isNone
    | .defer => !m.exposed (m.jobs a).port
    | _ => true
  | .publish j => (m.activeMedia.lookup (m.callbacks j).callId).isNone
  | .confOp i =>
    match m.confOps i with
    | .take conf false => (m.pendingCleanup.lookup conf).isNone
    | _ => true
  | _ => true

/-- A teardown goes on watching as long as its port is exposed. -/
theorem watching_stepJob (hapart : m.Apart) (hslots : m.Slotted) (hnum : m.Numbered)
    (hsafe : m.releaseSafe (.job a ok) = true) (hwatch : (m.jobs a).stage.watching = true)
    (hexposed : (m.stepJob a ok).Exposed (m.jobs a).port) :
    ((m.stepJob a ok).jobs a).stage.watching = true := by
  have hold : m.Exposed (m.jobs a).port := by
    obtain ⟨r, hr⟩ := hexposed
    rw [exposedAt_stepJob] at hr
    split at hr
    · exact ⟨r, (of_update_none hr).2⟩
    · exact ⟨r, (of_update_none hr).2⟩
    · exact ⟨r, hr⟩
  have hexp : m.exposed (m.jobs a).port = true := (exposed_iff hnum).2 hold
  -- the port is not exposed any more once it has been taken from where it was
  have hgone : ∀ r, m.exposedAt r = some (m.jobs a).port →
      (m.stepJob a ok).exposedAt ≠ Function.update m.exposedAt r none := by
    intro r hr hlose
    obtain ⟨r', hr'⟩ := hexposed
    rw [hlose] at hr'
    obtain ⟨hne, hr'⟩ := of_update_none hr'
    exact hne (exposedAt_unique hapart hslots hr' hr)
  have hstep := m.exposedAt_stepJob a ok
  cases hstage : (m.jobs a).stage with
  | unregisterPort =>
    rw [hstage] at hstep
    simp only [releaseSafe, hstage] at hsafe
    cases hport : m.pendingPorts.lookup (m.jobs a).callId with
    | none =>
      simp only [stepJob, hstage, unregisterPendingPort, hport, setStage, Function.update_self]
      rfl
    | some p =>
      simp only [hport, Option.all_some, hexp, Bool.not_true, Bool.or_false, decide_eq_true_iff] at hsafe
      refine absurd hstep (hgone (.pending (m.jobs a).callId) ?_)
      rw [exposedAt, hport, hsafe]
  | takeActive wasPending =>
    cases wasPending
    · rw [hstage] at hstep
      simp only [releaseSafe, hstage] at hsafe
      cases hactive : m.activeMedia.lookup (m.jobs a).callId with
      | none =>
        have hskip : (m.jobs a).skipUnknown = false := by
          simpa only [hactive, Bool.not_eq_true'] using hsafe
        simp [stepJob, hstage, takeActiveMedia, hactive, setStage, Job.afterLookup, hskip,
          Stage.watching]
      | some active =>
        simp only [hactive, hexp, Bool.not_true, Bool.or_false, decide_eq_true_iff] at hsafe
        refine absurd hstep (hgone (.active (m.jobs a).callId) ?_)
        rw [exposedAt, hactive, Option.map_some, hsafe]
    · rw [hstage] at hwatch
      cases hwatch
  | defer =>
    simp only [releaseSafe, hstage, hexp] at hsafe
    cases hsafe
  | _ =>
    rw [hstage] at hwatch
    cases hwatch

end Media

/-! ### The whole system -/

namespace State

variable {s : State} {p : MediaPort} {k : Call}

/-- Somebody will take the port from where it is exposed. -/
inductive Watched (s : State) (p : MediaPort) : Prop
  | setup (h : (s.mgr.setups p).pc.port p = some p)
  | session (c : CallId) (h : s.mgr.sessions.lookup c = some ⟨p⟩)
  | job (a : Actor) (hstage : (s.media.jobs a).stage.watching = true) (hport : (s.media.jobs a).port = p)

/-- Every exposed port is watched over. -/
def Guarded (s : State) : Prop := ∀ p, s.media.Exposed p → s.Watched p

theorem guarded_initial (n : Nat) : Guarded ⟨.initial n, .initial⟩ := by
  intro p h
  obtain ⟨r, hr⟩ := h
  cases r <;> cases hr

/-- A port is exposed only once its setup task has registered it. -/
theorem Placed.not_fresh (h : s.Placed) (hslots : s.media.Slotted) (hexposed : s.media.Exposed p) :
    (s.mgr.setups p).pc.freshPort p = none := by
  by_contra hne
  have hfresh : s.mgr.freshPort p = some p := by
    revert hne
    rw [Manager.freshPort]
    cases (s.mgr.setups p).pc <;> simp [SetupPc.freshPort]
  obtain ⟨r, hr⟩ := hexposed
  have hposition : ∃ r', s.media.portIn r' = some p := by
    rcases Media.position_of_exposedAt hslots hr with ⟨c, _, hp⟩ | ⟨j, _, hp⟩ | ⟨_, conf, _, _, hp⟩
    · exact ⟨_, hp⟩
    · exact ⟨_, hp⟩
    · exact ⟨_, hp⟩
  obtain ⟨r', hp⟩ := hposition
  have := Settled.linear h (.inl p) (.inr r') p hfresh hp
  cases this

theorem Guarded.media (h : s.Guarded) (hapart : s.media.Apart) (hslots : s.media.Slotted)
    (hnum : s.media.Numbered) {b : MediaAction} (hen : s.media.enabled b)
    (hsafe : s.media.releaseSafe b = true) : Guarded (s.next (.media b)) := by
  intro p hexposed
  have hexposed : (s.media.next b).Exposed p := hexposed
  cases h p (hexposed.of_next hslots hen) with
  | setup h => exact .setup h
  | session c h => exact .session c h
  | job a hstage hport =>
    by_cases hb : ∃ ok, b = .job a ok
    · obtain ⟨ok, rfl⟩ := hb
      obtain ⟨stage, hjobs⟩ := (s.media.jobFrame_stepJob a ok).jobs
      subst p
      refine .job a (Media.watching_stepJob hapart hslots hnum hsafe hstage hexposed) ?_
      show ((s.media.stepJob a ok).jobs a).port = _
      rw [hjobs, Function.update_self]
    · have hsame : (s.media.next b).jobs a = s.media.jobs a :=
        Media.jobs_next_of_ne fun ok hok => hb ⟨ok, hok⟩
      exact .job a (by rw [← hsame] at hstage; exact hstage) (by rw [← hsame] at hport; exact hport)

/-- No session is overwritten, and a setup that gives up without owning its call id has no sender in
`MEDIA_READY_TX` that it would have to unregister. -/
def releaseSafe (s : State) : Action → Bool
  | .manager (.setup k .insertSession) => (s.mgr.sessions.lookup (s.mgr.callId k)).isNone
  | .manager (.setup k .teardownDone) =>
    (s.mgr.setups k).owns || !(s.mgr.setups k).exit.unregistersReady ||
      s.media.mediaReadyTx.lookup (s.mgr.callId k) != some k
  | .manager _ => true
  | .media b => s.media.releaseSafe b

theorem exposedAt_mediaAfter {a : ManagerAction} (ha : ∀ k, a ≠ .setup k .registerPort) :
    (s.mediaAfter a).exposedAt = s.media.exposedAt := by
  have hpending : ∀ c, (s.mediaAfter a).pendingPorts.lookup c = s.media.pendingPorts.lookup c :=
    fun c => congrFun (portIn_mediaAfter ha) (.pending c)
  funext r
  rcases s.mediaAfter_cases a with ⟨_, _, heq, _⟩ | ⟨_, _, _, heq⟩ <;> rw [heq] at hpending ⊢ <;>
    cases r <;> first | exact hpending _ | rfl

theorem Watched.manager (h : s.Watched p) (hrest : s.Resting) {a : ManagerAction}
    (hen : s.mgr.enabled a) (hsafe : s.releaseSafe (.manager a) = true)
    (hfresh : (s.mgr.setups p).pc.freshPort p = none) : Watched (s.next (.manager a)) p := by
  cases h with
  | job r hstage hport =>
    have hr : a.teardown ≠ some r := by
      intro hr
      rw [Stage.not_watching_of_resting (hrest.of_teardown hen hr)] at hstage
      cases hstage
    have hsame : (s.next (.manager a)).media.jobs r = s.media.jobs r := jobs_mediaAfter_of_ne hr
    exact .job r (hsame ▸ hstage) (hsame ▸ hport)
  | session c h =>
    cases a with
    | disconnected k =>
      by_cases hc : c = s.mgr.callId k
      · subst hc
        have hjob : (s.next (.manager (.disconnected k))).media.jobs .main
            = teardownSession (s.mgr.callId k) p := by
          simp only [next, mediaAfter, h, Media.startJob, Function.update_self]
        exact .job .main (by rw [hjob]; rfl) (by rw [hjob]; rfl)
      · refine .session c ?_
        simp only [next, Manager.next, FiniteMap.lookup_erase, if_neg hc]
        exact h
    | setup k b =>
      refine .session c ?_
      show (s.mgr.stepSessions k b).lookup c = some ⟨p⟩
      rw [Manager.lookup_stepSessions, if_neg]
      · exact h
      · intro hins
        obtain ⟨rfl, rfl⟩ := hins
        simp only [releaseSafe, h] at hsafe
        cases hsafe
    | newCall | endCall | incomingCall | cancelPending | sessionTornDown => exact .session c h
  | setup h =>
    by_cases ha : ∃ b, a = .setup p b
    · obtain ⟨b, rfl⟩ := ha
      have hpc : (s.mgr.setups p).pc = b.pc := hen.1
      have hself : (s.next (.manager (.setup p b))).mgr.setups p = s.mgr.stepSetup p b :=
        Function.update_self _ _ _
      rw [hpc] at h hfresh
      cases b with
      | checkLimit | lookup => cases hfresh
      | abortSetup =>
        have hjob : (s.next (.manager (.setup p .abortSetup))).media.jobs (.setup p)
            = cleanupMediaPort (s.mgr.callId p) p (s.mgr.release p).1 := Function.update_self _ _ _
        refine .job (.setup p) ?_ (by rw [hjob]; rfl)
        rw [hjob, cleanupMediaPort]
        cases (s.mgr.release p).1 <;> rfl
      | checkCancel =>
        by_cases hcancel : s.mgr.cancelled p = true
        · have hjob : (s.next (.manager (.setup p .checkCancel))).media.jobs (.setup p)
              = lateCancel (s.mgr.callId p) p (s.mgr.setups p).owns := by
            simp only [next, mediaAfter, if_pos hcancel, Media.startJob, Function.update_self]
          refine .job (.setup p) ?_ (by rw [hjob]; rfl)
          rw [hjob, lateCancel]
          cases (s.mgr.setups p).owns <;> rfl
        · refine .setup ?_
          rw [hself]
          simp only [Manager.stepSetup, if_neg hcancel]
          rfl
      | insertSession =>
        refine .session (s.mgr.callId p) ?_
        simp only [next, Manager.next, Manager.stepSessions, FiniteMap.lookup_insert, if_true]
      | teardownDone | unregisterReady => cases h
      | mediaReady =>
        refine .setup ?_
        rw [hself]
        simp only [Manager.stepSetup]
        split <;> rfl
      | answer ok => cases ok <;> exact .setup (by rw [hself]; rfl)
      | _ => exact .setup (by rw [hself]; rfl)
    · refine .setup ?_
      have hspawned : (s.mgr.setups p).pc ≠ .unspawned := by
        intro hpc
        rw [hpc] at hfresh
        cases hfresh
      show ((s.mgr.next a).setups p).pc.port p = some p
      rw [Manager.setups_next hen hspawned fun b hb => ha ⟨b, hb⟩]
      exact h

theorem Guarded.manager (h : s.Guarded) (hplaced : s.Placed) (hslots : s.media.Slotted)
    (hrest : s.Resting) {a : ManagerAction} (hen : s.mgr.enabled a)
    (hsafe : s.releaseSafe (.manager a) = true) : Guarded (s.next (.manager a)) := by
  intro p hexposed
  have hold : s.media.Exposed p → Watched (s.next (.manager a)) p :=
    fun hp => (h p hp).manager hrest hen hsafe (hplaced.not_fresh hslots hp)
  by_cases ha : ∃ k, a = .setup k .registerPort
  · obtain ⟨k, rfl⟩ := ha
    obtain ⟨r, hr⟩ := hexposed
    have hr : (s.media.registerPendingPort (s.mgr.callId k) k).exposedAt r = some p := hr
    rw [Media.exposedAt_registerPendingPort] at hr
    by_cases heq : r = .pending (s.mgr.callId k)
    · rw [heq, Function.update_self] at hr
      cases hr
      refine .setup ?_
      simp only [next, Manager.next, Function.update_self]
      rfl
    · rw [Function.update_of_ne heq] at hr
      exact hold ⟨r, hr⟩
  · obtain ⟨r, hr⟩ := hexposed
    have hr : (s.mediaAfter a).exposedAt r = some p := hr
    rw [exposedAt_mediaAfter fun k hk => ha ⟨k, hk⟩] at hr
    exact hold ⟨r, hr⟩

end State

/-- The steps of a run in which nothing is dropped, and no teardown stops looking for a port that is still
exposed. -/
def releases (s : State) (a : Action) : Prop := s.releaseSafe a = true

instance (s : State) (a : Action) : Decidable (releases s a) := inferInstanceAs (Decidable (_ = _))

theorem reaches_guarded {n : Nat} {s : State} (hs : (bridge n).Reaches releases s) : s.Guarded := by
  refine hs.invariant ?_ fun s a hs h hen hok => ?_
  · intro s hinit
    rw [hinit]
    exact State.guarded_initial n
  · have hplaced := reaches_placed hs
    have hslots := reaches_slotted hs
    cases a with
    | manager a => exact h.manager hplaced hslots (reaches_resting hs) hen.1 hok
    | media b => exact h.media hplaced.apart hslots (reaches_numbered hs) hen hok

end MumbleSip
