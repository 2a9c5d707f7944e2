import MumbleSip.Lib.Progress
import MumbleSip.Session.Manager
import MumbleSip.Store.Channels

/-!
# The main loop and its shutdown

`main` takes the events of pjsua until a signal, hangs up all calls, goes on with the `Disconnected` events until no
session is left or ten seconds have passed, waits up to a minute for the writes that it holds the handles of, and
returns, which ends the runtime with all its tasks. The setup tasks and the writes run beside it until then.
-/

namespace MumbleSip

open Transition

/-! ### The process -/

/-- Where `main` is: in its event loop, in the drain loop after the hangup, in `drain_pending_writes`, past it. -/
inductive MainPhase
  | serving
  | draining
  | flushing (handles : List Nat)
  | exited
  deriving DecidableEq

namespace MainPhase

def handles : MainPhase → List Nat
  | .flushing handles => handles
  | _ => []

/-- `main` still takes `Disconnected` events. -/
def takesEvents : MainPhase → Bool
  | .serving | .draining => true
  | _ => false

end MainPhase

/-- What the `IncomingCall` event of a call says: who calls, and for which host. -/
structure CallOrigin where
  callerNumber : Option String
  serverHost : String

def CallOrigin.key (origin : CallOrigin) : Option ChannelKey :=
  origin.callerNumber.map fun phone => ⟨phone, origin.serverHost⟩

structure Process where
  mgr : Manager
  /-- `current_channel_id` of the session of a call. -/
  currentChannelId : Call → UInt32
  /-- The tasks spawned to run `set_last_channel_id`, in their order. -/
  writes : Nat → ChannelWrite
  nextWrite : Nat
  status : Nat → WriteStatus
  pendingWrites : List Nat
  phase : MainPhase

inductive ProcessAction
  | manager (a : ManagerAction)
  /-- The channel in which the setup task has found itself, or that it has rejoined. -/
  | initialChannel (k : Call) (channelId : UInt32)
  /-- `on_dtmf_digit` moves the session of a call. -/
  | navigate (k : Call) (channelId : UInt32)
  /-- A signal, or the end of the event channel: `hangup_all_calls`, and on to the drain loop. -/
  | shutdown
  /-- `active_call_count() == 0` -/
  | noneActive
  /-- The deadline of the drain loop, or the end of the event channel. -/
  | giveUp
  | writeDone (w : Nat) (ok : Bool)
  | flushed
  | flushTimeout
  deriving DecidableEq

namespace Process

def initial (maxConcurrentCalls : Nat) : Process where
  mgr := .initial maxConcurrentCalls
  currentChannelId := fun _ => 0
  writes := fun _ => ⟨⟨"", ""⟩, 0⟩
  nextWrite := 0
  status := fun _ => .unspawned
  pendingWrites := []
  phase := .serving

variable (origin : Call → CallOrigin) (s : Process)

/-- `active_call_count` -/
def activeCallCount : Nat := s.mgr.sessions.size

/-- `reap_completed_writes` -/
def reapCompletedWrites : List Nat := s.pendingWrites.filter fun w => !(s.status w).isFinished

/-- What a teardown persists of the session of a call. -/
def persist (k : Call) : Process :=
  match (origin k).key with
  | some key =>
    { s with
      writes := Function.update s.writes s.nextWrite ⟨key, s.currentChannelId k⟩
      nextWrite := s.nextWrite + 1
      status := Function.update s.status s.nextWrite .pending
      pendingWrites := s.reapCompletedWrites ++ [s.nextWrite] }
  | none => { s with pendingWrites := s.reapCompletedWrites }

/-- What a step of the manager does to the writes: `on_call_disconnected` persists the session it removes. -/
def persistAfter : ManagerAction → Process
  | .disconnected k =>
    match s.mgr.sessions.lookup (s.mgr.callId k) with
    | some session => s.persist origin session.mediaPort
    | none => s
  | _ => s

/-- In its event loop `main` takes the `Disconnected` event of a call after the `IncomingCall` event, which it drops
in the drain loop. -/
def takesDisconnected (k : Call) : Prop :=
  s.mgr.main = .idle ∧ s.mgr.ended k = true ∧ s.mgr.handled k = false ∧
    ((s.phase = .serving ∧ (s.mgr.setups k).pc ≠ .unspawned) ∨
      (s.phase = .draining ∧ k < s.mgr.nextCall ∧ ∀ k' < k, s.mgr.callId k' = s.mgr.callId k → s.mgr.handled k' = true))

instance (k : Call) : Decidable (s.takesDisconnected k) := inferInstanceAs (Decidable (_ ∧ _ ∧ _ ∧ (_ ∨ _)))

def enabledManager : ManagerAction → Prop
  | .disconnected k => s.takesDisconnected k
  | .incomingCall k => s.phase = .serving ∧ s.mgr.enabled (.incomingCall k)
  | a => s.phase ≠ .exited ∧ s.mgr.enabled a

instance (a : ManagerAction) : Decidable (s.enabledManager a) :=
  match a with
  | .disconnected k => inferInstanceAs (Decidable (s.takesDisconnected k))
  | .incomingCall _ | .newCall _ | .endCall _ | .cancelPending _ | .sessionTornDown _ | .setup _ _ =>
    inferInstanceAs (Decidable (_ ∧ _))

def enabled : ProcessAction → Prop
  | .manager a => s.enabledManager a
  | .initialChannel k _ => s.phase ≠ .exited ∧ (s.mgr.setups k).pc = .removePending
  | .navigate k _ =>
    s.phase = .serving ∧ s.mgr.main = .idle ∧ s.mgr.sessions.lookup (s.mgr.callId k) = some ⟨k⟩
  | .shutdown => s.phase = .serving ∧ s.mgr.main = .idle
  | .noneActive => s.phase = .draining ∧ s.mgr.main = .idle ∧ s.activeCallCount = 0
  | .giveUp => s.phase = .draining ∧ s.mgr.main = .idle ∧ s.activeCallCount ≠ 0
  | .writeDone w _ => s.phase ≠ .exited ∧ s.status w = .pending
  | .flushed => s.phase = .flushing s.phase.handles ∧ ∀ w ∈ s.phase.handles, (s.status w).isFinished = true
  | .flushTimeout => s.phase = .flushing s.phase.handles

instance (a : ProcessAction) : Decidable (s.enabled a) :=
  match a with
  | .manager a => inferInstanceAs (Decidable (s.enabledManager a))
  | .initialChannel _ _ | .shutdown | .writeDone _ _ => inferInstanceAs (Decidable (_ ∧ _))
  | .navigate _ _ | .noneActive | .giveUp => inferInstanceAs (Decidable (_ ∧ _ ∧ _))
  | .flushed => inferInstanceAs (Decidable (_ ∧ ∀ w ∈ s.phase.handles, _ = _))
  | .flushTimeout => inferInstanceAs (Decidable (_ = _))

/-- `drain_pending_writes` takes all handles. -/
def flush : Process := { s with phase := .flushing s.pendingWrites, pendingWrites := [] }

def next : ProcessAction → Process
  | .manager a => { s.persistAfter origin a with mgr := s.mgr.next a }
  | .initialChannel k channelId | .navigate k channelId =>
    { s with currentChannelId := Function.update s.currentChannelId k channelId }
  | .shutdown => { s with phase := .draining }
  | .noneActive | .giveUp => s.flush
  | .writeDone w ok => { s with status := Function.update s.status w (if ok then .executed else .failed) }
  | .flushed | .flushTimeout => { s with phase := .exited }

end Process

/-- The process for a configured `sip.max_concurrent_calls` and the calls that come in. -/
def process (origin : Call → CallOrigin) (maxConcurrentCalls : Nat) : System Process ProcessAction where
  init s := s = .initial maxConcurrentCalls
  enabled := Process.enabled
  next := Process.next origin

instance {origin : Call → CallOrigin} {n : Nat} (s : Process) (a : ProcessAction) :
    Decidable ((process origin n).enabled s a) :=
  inferInstanceAs (Decidable (s.enabled a))

/-! ### What the process keeps -/

namespace Process

variable {origin : Call → CallOrigin} {s : Process} {k : Call}

/-- A stored session is the one of a call of its id whose setup task has returned. -/
structure Stored (m : Manager) : Prop where
  spawned : ∀ k, (m.setups k).pc ≠ .unspawned → k < m.nextCall
  session : ∀ c k, m.sessions.lookup c = some ⟨k⟩ → m.callId k = c ∧ (m.setups k).pc = .returned

theorem Stored.lt_nextCall {m : Manager} (h : Stored m) {c : CallId} (hsession : m.sessions.lookup c = some ⟨k⟩) :
    k < m.nextCall := by
  apply h.spawned k
  rw [(h.session c k hsession).2]
  decide

theorem Stored.setup {m : Manager} (h : Stored m) {a : SetupAction} (hen : m.enabled (.setup k a)) :
    Stored (m.next (.setup k a)) := by
  have hpc : (m.setups k).pc = a.pc := hen.1
  have hnot : ∀ c k', m.sessions.lookup c = some ⟨k'⟩ → k' ≠ k := by
    rintro c k' hsession rfl
    have hreturned := (h.session c k' hsession).2
    rw [hpc] at hreturned
    cases a <;> cases hreturned
  have hkept : ∀ c k', m.sessions.lookup c = some ⟨k'⟩ →
      m.callId k' = c ∧ (Function.update m.setups k (m.stepSetup k a) k').pc = .returned := by
    intro c k' hsession
    rw [Function.update_of_ne (hnot c k' hsession)]
    exact h.session c k' hsession
  refine ⟨fun k' hspawned => ?_, fun c k' hsession => ?_⟩
  · by_cases hk : k' = k
    · subst k'
      apply h.spawned
      rw [hpc]
      cases a <;> exact SetupPc.noConfusion
    · apply h.spawned
      have hspawned : (Function.update m.setups k (m.stepSetup k a) k').pc ≠ .unspawned := hspawned
      rw [Function.update_of_ne hk] at hspawned
      exact hspawned
  · show m.callId k' = c ∧ (Function.update m.setups k (m.stepSetup k a) k').pc = .returned
    cases a with
    | insertSession =>
      have hsession : (m.sessions.insert (m.callId k) ⟨k⟩).lookup c = some ⟨k'⟩ := hsession
      rw [FiniteMap.lookup_insert] at hsession
      split at hsession
      · rename_i hc
        cases hsession
        rw [Function.update_self]
        exact ⟨hc.symm, rfl⟩
      · exact hkept c k' hsession
    | _ => exact hkept c k' hsession

theorem Stored.next (h : Stored s.mgr) {a : ProcessAction} (hen : s.enabled a) :
    Stored (s.next origin a).mgr := by
  cases a with
  | manager a =>
    cases a with
    | newCall c =>
      refine ⟨fun k hspawned => Nat.lt_succ_of_lt (h.spawned k hspawned), fun c' k hsession => ?_⟩
      show Function.update s.mgr.callId s.mgr.nextCall c k = c' ∧ _
      rw [Function.update_of_ne (h.lt_nextCall hsession).ne]
      exact h.session c' k hsession
    | endCall k => exact ⟨h.spawned, h.session⟩
    | incomingCall k =>
      obtain ⟨_, _, hk, hpc, _⟩ := hen
      refine ⟨fun k' hspawned => ?_, fun c k' hsession => ?_⟩
      · by_cases heq : k' = k
        · rw [heq]
          exact hk
        · apply h.spawned
          have hspawned : (Function.update s.mgr.setups k { s.mgr.setups k with pc := .checkLimit } k').pc
            ≠ .unspawned := hspawned
          rw [Function.update_of_ne heq] at hspawned
          exact hspawned
      · have hold := h.session c k' hsession
        have hne : k' ≠ k := by
          rintro rfl
          rw [hold.2] at hpc
          cases hpc
        show s.mgr.callId k' = c ∧ (Function.update s.mgr.setups k _ k').pc = .returned
        rw [Function.update_of_ne hne]
        exact hold
    | disconnected k => exact ⟨h.spawned, fun c k' hsession => h.session c k' (FiniteMap.lookup_of_erase hsession)⟩
    | cancelPending k => exact ⟨h.spawned, h.session⟩
    | sessionTornDown k => exact ⟨h.spawned, h.session⟩
    | setup k a => exact h.setup hen.2
  | _ => exact ⟨h.spawned, h.session⟩

/-- Somebody holds the handle of every write that is not over, until `main` has given up on them. -/
structure Held (s : Process) : Prop where
  unspawned : ∀ w, s.status w = .unspawned ↔ s.nextWrite ≤ w
  handle : s.phase ≠ .exited → ∀ w, s.status w = .pending → w ∈ s.pendingWrites ∨ w ∈ s.phase.handles
  taken : s.phase.takesEvents = false → s.pendingWrites = []

theorem Held.persist (h : s.Held) (htakes : s.phase.takesEvents = true) (k : Call) : Held (s.persist origin k) := by
  have hhandles : s.phase.handles = [] := by
    revert htakes
    cases s.phase <;> simp [MainPhase.takesEvents, MainPhase.handles]
  have hreap : ∀ w, s.phase ≠ .exited → s.status w = .pending → w ∈ s.reapCompletedWrites := by
    intro w hphase hpending
    have hmem := h.handle hphase w hpending
    rw [hhandles] at hmem
    refine List.mem_filter.2 ⟨hmem.resolve_right List.not_mem_nil, ?_⟩
    rw [hpending]
    rfl
  unfold Process.persist
  cases (origin k).key with
  | none =>
    refine ⟨h.unspawned, fun hphase w hpending => .inl (hreap w hphase hpending), fun hnot => ?_⟩
    rw [show s.phase.takesEvents = false from hnot] at htakes
    cases htakes
  | some key =>
    refine ⟨fun w => ?_, fun hphase w hpending => .inl ?_, fun hnot => ?_⟩
    · show Function.update s.status s.nextWrite .pending w = .unspawned ↔ s.nextWrite + 1 ≤ w
      by_cases hw : w = s.nextWrite
      · rw [hw, Function.update_self]
        exact ⟨fun heq => (by cases heq), fun hle => absurd hle (Nat.not_succ_le_self _)⟩
      · rw [Function.update_of_ne hw, h.unspawned]
        omega
    · have hpending : Function.update s.status s.nextWrite .pending w = .pending := hpending
      by_cases hw : w = s.nextWrite
      · rw [hw]
        exact List.mem_append_right _ List.mem_cons_self
      · rw [Function.update_of_ne hw] at hpending
        exact List.mem_append_left _ (hreap w hphase hpending)
    · rw [show s.phase.takesEvents = false from hnot] at htakes
      cases htakes

theorem takesEvents_of_disconnected (hen : s.takesDisconnected k) : s.phase.takesEvents = true := by
  obtain ⟨_, _, _, ⟨hphase, _⟩ | ⟨hphase, _⟩⟩ := hen <;> rw [hphase] <;> rfl

theorem Held.flush (h : s.Held) (hphase : s.phase.takesEvents = true) : Held s.flush where
  unspawned := h.unspawned
  handle _ w hpending := by
    have hexited : s.phase ≠ .exited := by
      intro heq
      rw [heq] at hphase
      cases hphase
    rcases h.handle hexited w hpending with hmem | hmem
    · exact .inr hmem
    · revert hmem hphase
      cases s.phase <;> simp [MainPhase.takesEvents, MainPhase.handles]
  taken _ := rfl

theorem Held.next (h : s.Held) {a : ProcessAction} (hen : s.enabled a) : Held (s.next origin a) := by
  cases a with
  | manager a =>
    cases a with
    | disconnected k =>
      have hpersist : Held (s.persistAfter origin (.disconnected k)) := by
        unfold Process.persistAfter
        dsimp only
        cases s.mgr.sessions.lookup (s.mgr.callId k) with
        | none => exact h
        | some session => exact h.persist (takesEvents_of_disconnected hen) session.mediaPort
      exact ⟨hpersist.unspawned, hpersist.handle, hpersist.taken⟩
    | _ => exact ⟨h.unspawned, h.handle, h.taken⟩
  | initialChannel k channelId => exact ⟨h.unspawned, h.handle, h.taken⟩
  | navigate k channelId => exact ⟨h.unspawned, h.handle, h.taken⟩
  | shutdown =>
    have hphase : s.phase = .serving := hen.1
    refine ⟨h.unspawned, fun _ w hpending => ?_, fun hnot => by cases hnot⟩
    have hmem := h.handle (by rw [hphase]; decide) w hpending
    rw [hphase] at hmem
    exact hmem
  | noneActive => exact h.flush (by rw [hen.1]; rfl)
  | giveUp => exact h.flush (by rw [hen.1]; rfl)
  | writeDone w ok =>
    obtain ⟨_, hpending⟩ := hen
    have hnot : (if ok then WriteStatus.executed else .failed) ≠ .unspawned := by cases ok <;> decide
    refine ⟨fun w' => ?_, fun hexited w' hpending' => ?_, h.taken⟩
    · show Function.update s.status w _ w' = .unspawned ↔ s.nextWrite ≤ w'
      by_cases hw : w' = w
      · subst w'
        rw [Function.update_self, ← h.unspawned, hpending]
        exact iff_of_false hnot (by decide)
      · rw [Function.update_of_ne hw]
        exact h.unspawned w'
    · have hpending' : Function.update s.status w _ w' = .pending := hpending'
      by_cases hw : w' = w
      · subst w'
        rw [Function.update_self] at hpending'
        cases ok <;> cases hpending'
      · rw [Function.update_of_ne hw] at hpending'
        exact h.handle hexited w' hpending'
  | flushed => exact ⟨h.unspawned, fun hnot => absurd rfl hnot, fun _ => h.taken (by rw [hen.1]; rfl)⟩
  | flushTimeout =>
    exact ⟨h.unspawned, fun hnot => absurd rfl hnot, fun _ => h.taken (by rw [show s.phase = _ from hen]; rfl)⟩

/-! ### What a clean shutdown saves -/

/-- Nobody gives up waiting, and sessions are inserted, into free places, only while `main` takes events. -/
def clean (s : Process) : ProcessAction → Prop
  | .manager (.setup k a) => a = .insertSession →
    s.phase.takesEvents = true ∧ s.mgr.sessions.lookup (s.mgr.callId k) = none
  | .giveUp | .flushTimeout => False
  | _ => True

instance : (a : ProcessAction) → Decidable (s.clean a)
  | .manager (.setup _ _) => inferInstanceAs (Decidable (_ → _ ∧ _))
  | .manager (.newCall _) | .manager (.endCall _) | .manager (.incomingCall _) | .manager (.disconnected _)
  | .manager (.cancelPending _) | .manager (.sessionTornDown _) => instDecidableTrue
  | .initialChannel _ _ | .navigate _ _ | .shutdown | .noneActive | .writeDone _ _ | .flushed => instDecidableTrue
  | .giveUp | .flushTimeout => instDecidableFalse

/-- Past the drain loop no session is left, and past `drain_pending_writes` no write. -/
structure Emptied (s : Process) : Prop where
  sessions : s.phase.takesEvents = false → ∀ c, s.mgr.sessions.lookup c = none
  writes : s.phase = .exited → ∀ w, s.status w ≠ .pending

@[simp] theorem phase_persistAfter (a : ManagerAction) : (s.persistAfter origin a).phase = s.phase := by
  unfold persistAfter
  split
  · split
    · unfold persist
      split <;> rfl
    · rfl
  · rfl

theorem Emptied.manager (h : s.Emptied) {a : ManagerAction} (hen : s.enabledManager a)
    (hclean : s.clean (.manager a)) : Emptied (s.next origin (.manager a)) := by
  have hphase : (s.next origin (.manager a)).phase = s.phase := phase_persistAfter a
  refine ⟨fun hnot c => ?_, fun hexited => ?_⟩
  · rw [hphase] at hnot
    have hnone := h.sessions hnot
    cases a with
    | disconnected k =>
      rw [takesEvents_of_disconnected hen] at hnot
      cases hnot
    | setup k a =>
      cases a with
      | insertSession =>
        rw [(hclean rfl).1] at hnot
        cases hnot
      | _ => exact hnone c
    | _ => exact hnone c
  · rw [hphase] at hexited
    -- nothing runs after `main` has returned
    exfalso
    cases a with
    | disconnected k =>
      have htakes := takesEvents_of_disconnected hen
      rw [hexited] at htakes
      cases htakes
    | incomingCall k =>
      rw [hen.1] at hexited
      cases hexited
    | _ => exact hen.1 hexited

theorem Emptied.next (h : s.Emptied) (hheld : s.Held) {a : ProcessAction} (hen : s.enabled a)
    (hclean : s.clean a) : Emptied (s.next origin a) := by
  cases a with
  | manager a => exact h.manager hen hclean
  | initialChannel k channelId => exact ⟨h.sessions, h.writes⟩
  | navigate k channelId => exact ⟨h.sessions, h.writes⟩
  | shutdown => exact ⟨fun hnot => (by cases hnot), fun hexited => (by cases hexited)⟩
  | noneActive =>
    exact ⟨fun _ => FiniteMap.lookup_of_size_eq_zero hen.2.2, fun hexited => (by cases hexited)⟩
  | giveUp => exact hclean.elim
  | writeDone w ok => exact ⟨h.sessions, fun hexited => absurd hexited hen.1⟩
  | flushed =>
    obtain ⟨hphase, hfinished⟩ := hen
    have htakes : s.phase.takesEvents = false := by
      rw [hphase]
      rfl
    refine ⟨fun _ => h.sessions htakes, fun _ w hpending => ?_⟩
    have hpending : s.status w = .pending := hpending
    have hmem := hheld.handle (by rw [hphase]; exact MainPhase.noConfusion) w hpending
    rw [hheld.taken htakes] at hmem
    have hover := hfinished w (hmem.resolve_left List.not_mem_nil)
    rw [hpending] at hover
    cases hover
  | flushTimeout => exact hclean.elim

/-- The session of a call has been removed, and the write spawned for it has the channel that it ended in. -/
structure Gone (origin : Call → CallOrigin) (since : Nat) (k : Call) (s : Process) : Prop where
  returned : (s.mgr.setups k).pc = .returned
  session : ∀ c, s.mgr.sessions.lookup c ≠ some ⟨k⟩
  write : ∀ key, (origin k).key = some key → ∃ w, since ≤ w ∧ w < s.nextWrite ∧
    s.writes w = ⟨key, s.currentChannelId k⟩

variable {since : Nat}

theorem Gone.congr (h : Gone origin since k s) {s' : Process} (hpc : (s'.mgr.setups k).pc = (s.mgr.setups k).pc)
    (hsession : ∀ c, s'.mgr.sessions.lookup c = some ⟨k⟩ → s.mgr.sessions.lookup c = some ⟨k⟩)
    (hwrites : ∀ w < s.nextWrite, s'.writes w = s.writes w) (hnext : s.nextWrite ≤ s'.nextWrite)
    (hchannel : s'.currentChannelId k = s.currentChannelId k) : Gone origin since k s' := by
  refine ⟨by rw [hpc]; exact h.returned, fun c hc => h.session c (hsession c hc), fun key hkey => ?_⟩
  obtain ⟨w, hsince, hw, hwrite⟩ := h.write key hkey
  refine ⟨w, hsince, Nat.lt_of_lt_of_le hw hnext, ?_⟩
  rw [hwrites w hw, hchannel]
  exact hwrite

theorem nextWrite_le_persistAfter (a : ManagerAction) : s.nextWrite ≤ (s.persistAfter origin a).nextWrite := by
  unfold persistAfter
  split
  · split
    · unfold persist
      split
      · exact Nat.le_succ _
      · exact Nat.le_refl _
    · exact Nat.le_refl _
  · exact Nat.le_refl _

theorem writes_persistAfter (a : ManagerAction) {w : Nat} (hw : w < s.nextWrite) :
    (s.persistAfter origin a).writes w = s.writes w := by
  unfold persistAfter
  split
  · split
    · unfold persist
      split
      · exact Function.update_of_ne hw.ne _ _
      · rfl
    · rfl
  · rfl

theorem currentChannelId_persistAfter (a : ManagerAction) :
    (s.persistAfter origin a).currentChannelId = s.currentChannelId := by
  unfold persistAfter
  split
  · split
    · unfold persist
      split <;> rfl
    · rfl
  · rfl

theorem setups_of_returned {a : ManagerAction} (hen : s.enabledManager a) (hpc : (s.mgr.setups k).pc = .returned) :
    (s.mgr.next a).setups k = s.mgr.setups k := by
  cases a with
  | incomingCall k' =>
    have hne : k ≠ k' := by
      rintro rfl
      rw [hen.2.2.2.1] at hpc
      cases hpc
    exact Function.update_of_ne hne _ _
  | setup k' a =>
    have hne : k ≠ k' := by
      rintro rfl
      rw [hen.2.1] at hpc
      cases a <;> cases hpc
    exact Function.update_of_ne hne _ _
  | _ => rfl

/-- A session that a step of the manager leaves in the map was there, unless the step inserts it. -/
theorem session_of_next {a : ManagerAction} {c : CallId} (hsession : (s.mgr.next a).sessions.lookup c = some ⟨k⟩)
    (hinsert : a ≠ .setup k .insertSession) : s.mgr.sessions.lookup c = some ⟨k⟩ := by
  cases a with
  | disconnected k' => exact FiniteMap.lookup_of_erase hsession
  | setup k' a =>
    cases a with
    | insertSession =>
      have hsession : (s.mgr.sessions.insert (s.mgr.callId k') ⟨k'⟩).lookup c = some ⟨k⟩ := hsession
      rw [FiniteMap.lookup_insert] at hsession
      split at hsession
      · cases hsession
        exact absurd rfl hinsert
      · exact hsession
    | _ => exact hsession
  | _ => exact hsession

theorem Gone.next (h : Gone origin since k s) {a : ProcessAction} (hen : s.enabled a) :
    Gone origin since k (s.next origin a) := by
  have hchannel : ∀ k', (s.mgr.setups k').pc = .removePending ∨
      s.mgr.sessions.lookup (s.mgr.callId k') = some ⟨k'⟩ → k ≠ k' := by
    rintro k' (hpc | hsession) rfl
    · rw [h.returned] at hpc
      cases hpc
    · exact h.session _ hsession
  cases a with
  | manager a =>
    refine h.congr ?_ (fun c hc => session_of_next hc ?_) (fun w hw => writes_persistAfter a hw)
      (nextWrite_le_persistAfter a) (congrFun (currentChannelId_persistAfter a) k)
    · exact congrArg Setup.pc (setups_of_returned hen h.returned)
    · rintro rfl
      have hpc : (s.mgr.setups k).pc = .insertSession := hen.2.1
      rw [h.returned] at hpc
      cases hpc
  | initialChannel k' channelId =>
    exact h.congr rfl (fun c hc => hc) (fun w _ => rfl) (Nat.le_refl _)
      (Function.update_of_ne (hchannel k' (.inl hen.2)) _ _)
  | navigate k' channelId =>
    exact h.congr rfl (fun c hc => hc) (fun w _ => rfl) (Nat.le_refl _)
      (Function.update_of_ne (hchannel k' (.inr hen.2.2)) _ _)
  | _ => exact h.congr rfl (fun c hc => hc) (fun w _ => rfl) (Nat.le_refl _) rfl

theorem gone_disconnected (hstored : Stored s.mgr) (hsince : since ≤ s.nextWrite) {k' : Call}
    (hsession : s.mgr.sessions.lookup (s.mgr.callId k') = some ⟨k⟩) :
    Gone origin since k (s.next origin (.manager (.disconnected k'))) := by
  obtain ⟨hid, hreturned⟩ := hstored.session _ k hsession
  refine ⟨hreturned, fun c hc => ?_, fun key hkey => ?_⟩
  · have hc : (s.mgr.sessions.erase (s.mgr.callId k')).lookup c = some ⟨k⟩ := hc
    have hold := FiniteMap.lookup_of_erase hc
    rw [FiniteMap.lookup_erase, if_pos ((hstored.session c k hold).1.symm.trans hid)] at hc
    cases hc
  · have heq : s.persistAfter origin (.disconnected k') = s.persist origin k := by
      unfold persistAfter
      dsimp only
      rw [hsession]
    refine ⟨s.nextWrite, hsince, ?_, ?_⟩
    · show s.nextWrite < (s.persistAfter origin (.disconnected k')).nextWrite
      rw [heq, persist, hkey]
      exact Nat.lt_succ_self _
    · show (s.persistAfter origin (.disconnected k')).writes s.nextWrite
        = ⟨key, (s.persistAfter origin (.disconnected k')).currentChannelId k⟩
      rw [heq, persist, hkey]
      exact Function.update_self _ _ _

/-- A stored session stays, or is torn down. -/
theorem stored_or_gone (hstored : Stored s.mgr) (hsince : since ≤ s.nextWrite) {c : CallId}
    (hsession : s.mgr.sessions.lookup c = some ⟨k⟩) {a : ProcessAction} (hclean : s.clean a) :
    (s.next origin a).mgr.sessions.lookup c = some ⟨k⟩ ∨ Gone origin since k (s.next origin a) := by
  cases a with
  | manager a =>
    cases a with
    | disconnected k' =>
      by_cases hid : c = s.mgr.callId k'
      · subst c
        exact .inr (gone_disconnected hstored hsince hsession)
      · left
        show (s.mgr.sessions.erase (s.mgr.callId k')).lookup c = _
        rw [FiniteMap.lookup_erase, if_neg hid]
        exact hsession
    | setup k' a =>
      cases a with
      | insertSession =>
        left
        have hne : c ≠ s.mgr.callId k' := by
          rintro rfl
          rw [(hclean rfl).2] at hsession
          cases hsession
        show (s.mgr.sessions.insert (s.mgr.callId k') ⟨k'⟩).lookup c = _
        rw [FiniteMap.lookup_insert, if_neg hne]
        exact hsession
      | _ => exact .inl hsession
    | _ => exact .inl hsession
  | _ => exact .inl hsession

theorem nextWrite_le_next (a : ProcessAction) : s.nextWrite ≤ (s.next origin a).nextWrite := by
  cases a with
  | manager a => exact nextWrite_le_persistAfter a
  | _ => exact Nat.le_refl _

end Process

section Reach

variable {origin : Call → CallOrigin} {n : Nat} {s s' : Process}

theorem process_invariant {ok : Process → ProcessAction → Prop} (hs : (process origin n).Reaches ok s) :
    Process.Stored s.mgr ∧ s.Held := by
  refine hs.invariant (I := fun s => Process.Stored s.mgr ∧ s.Held) ?_ fun s a _ h hen _ => ⟨h.1.next hen, h.2.next hen⟩
  rintro s rfl
  refine ⟨⟨fun k hspawned => absurd rfl hspawned, fun c k hsession => by cases hsession⟩, fun w => ?_, fun _ w h => ?_,
    fun _ => rfl⟩
  · exact iff_of_true rfl (Nat.zero_le w)
  · cases h

/-- **A clean shutdown loses no channel.** Of every session that is stored while `main` takes events, and whose
caller has a number, a write that has finished has the channel in which it ended. -/
theorem clean_shutdown_saves (hs : (process origin n).Reachable s) (htakes : s.phase.takesEvents = true)
    (hsteps : ((process origin n).startingAt s).Reaches Process.clean s') (hexited : s'.phase = .exited)
    {c : CallId} {k : Call} (hsession : s.mgr.sessions.lookup c = some ⟨k⟩) :
    (∀ c, s'.mgr.sessions.lookup c = none) ∧ (∀ w < s'.nextWrite, (s'.status w).isFinished = true) ∧
    ∀ key, (origin k).key = some key → ∃ w, s.nextWrite ≤ w ∧ w < s'.nextWrite ∧
      s'.writes w = ⟨key, s'.currentChannelId k⟩ := by
  have hkept : (Process.Stored s'.mgr ∧ s'.Held ∧ s'.Emptied) ∧ s.nextWrite ≤ s'.nextWrite ∧
      (s'.mgr.sessions.lookup c = some ⟨k⟩ ∨ Process.Gone origin s.nextWrite k s') := by
    apply hsteps.stable (P := fun s' => (Process.Stored s'.mgr ∧ s'.Held ∧ s'.Emptied) ∧ s.nextWrite ≤ s'.nextWrite ∧
      (s'.mgr.sessions.lookup c = some ⟨k⟩ ∨ Process.Gone origin s.nextWrite k s'))
    · obtain ⟨hstored, hheld⟩ := process_invariant hs
      refine ⟨⟨hstored, hheld, fun hnot => ?_, fun hexited => ?_⟩, Nat.le_refl _, .inl hsession⟩
      · rw [hnot] at htakes
        cases htakes
      · rw [hexited] at htakes
        cases htakes
    · rintro s' a ⟨⟨hstored, hheld, hemptied⟩, hle, hstate⟩ hen hclean
      refine ⟨⟨hstored.next hen, hheld.next hen, hemptied.next hheld hen hclean⟩,
        hle.trans (Process.nextWrite_le_next a), ?_⟩
      rcases hstate with hsession | hgone
      · exact Process.stored_or_gone hstored hle hsession hclean
      · exact .inr (hgone.next hen)
  obtain ⟨⟨_, hheld, hemptied⟩, _, hstate⟩ := hkept
  have hnone := hemptied.sessions (by rw [hexited]; rfl)
  refine ⟨hnone, fun w hw => ?_, ?_⟩
  · have hspawned : s'.status w ≠ .unspawned := fun h => absurd ((hheld.unspawned w).1 h) (Nat.not_le.2 hw)
    have hover := hemptied.writes hexited w
    revert hspawned hover
    cases s'.status w <;> simp [WriteStatus.isFinished]
  · rcases hstate with hstored | hgone
    · rw [hnone] at hstored
      cases hstored
    · exact hgone.write

/-- One call, which has gone on to channel 7 when the signal comes. -/
theorem clean_shutdown_saves_one : ∃ s', (process (fun _ => ⟨some "5551234567", "mumble.example.com"⟩) 1).Reachable s' ∧
    s'.phase = .exited ∧ (s'.status 0).isFinished = true ∧
    ∃ w < s'.nextWrite, s'.writes w = ⟨⟨"5551234567", "mumble.example.com"⟩, 7⟩ := by
  let system := process (fun _ => ⟨some "5551234567", "mumble.example.com"⟩) 1
  obtain ⟨s, hs, hP⟩ := System.exists_reaches_of_run system System.anyStep rfl
    ([.newCall 3, .incomingCall 0, .setup 0 .checkLimit, .setup 0 (.lookup false), .setup 0 .registerPort,
      .setup 0 .registerReady, .setup 0 .drawGeneration, .setup 0 .registerPending, .setup 0 (.answer true),
      .setup 0 .mediaReady, .setup 0 .connected, .setup 0 .removePending, .setup 0 .checkCancel,
      .setup 0 .insertSession].map ProcessAction.manager)
    (fun s : Process => decide (s.mgr.sessions.lookup 3 = some ⟨0⟩) && decide (s.phase = .serving) &&
      (system.run Process.clean s
        [.navigate 0 7, .shutdown, .manager (.endCall 0), .manager (.disconnected 0), .manager (.sessionTornDown 0),
          .noneActive, .writeDone 0 true, .flushed]).any fun s' : Process =>
        decide (s'.phase = .exited ∧ s'.currentChannelId 0 = 7 ∧ 0 < s'.nextWrite))
    (by decide)
  simp only [Bool.and_eq_true, decide_eq_true_iff, Option.any_eq_true] at hP
  obtain ⟨⟨hsession, hphase⟩, s', hrun, hexited, hchannel, hspawned⟩ := hP
  have hsteps : (system.startingAt s).Reaches Process.clean s' := (System.Steps.refl.run hrun).reaches
  have htakes : s.phase.takesEvents = true := by
    rw [hphase]
    rfl
  obtain ⟨_, hfinished, hwrites⟩ := clean_shutdown_saves hs htakes hsteps hexited hsession
  obtain ⟨w, _, hw, hwrite⟩ := hwrites _ rfl
  rw [hchannel] at hwrite
  exact ⟨s', hs.trans (hsteps.mono fun _ _ _ _ _ => trivial), hexited, hfinished 0 hspawned, w, hw, hwrite⟩

end Reach

end MumbleSip
