import MumbleSip.Store.Channels

/-!
# Last writer wins

As long as the write of the latest disconnect for a number and host is the last to be executed, the drained
table has its channel. A setup that reads the row reads the last write executed, which the latest disconnect
before its `IncomingCall` event need not have made.
-/

namespace MumbleSip

open Transition

namespace ChannelStore

variable {s : ChannelStore} {k w : Nat}

/-- The write of the session that was disconnected last, for a number and host. -/
def latest (s : ChannelStore) (key : ChannelKey) : Option Nat := latestWrite s.writes key s.nextWrite

/-- The write of the latest disconnect that was handled before the `IncomingCall` event of a call. -/
def latestSeen (s : ChannelStore) (k : Nat) (key : ChannelKey) : Option Nat :=
  latestWrite s.writes key (s.calls k).seen

/-- No write is executed once the write of the latest disconnect has been, which does not fail. A lookup
finds that the last write executed is the one of the latest disconnect before its call, and does not fail. -/
def orderSafe (s : ChannelStore) : ChannelAction → Bool
  | .execute w => (s.latest (s.writes w).key).all fun w' => w' = w ∨ s.status w' = .pending
  | .failWrite w => s.latest (s.writes w).key ≠ some w
  | .select k => (s.calls k).key.all fun key =>
      (s.latestSeen k key).all fun w => s.lastWrite key = some w
  | .selectFailed k => (s.calls k).key.all fun key => (s.latestSeen k key).isNone
  | _ => true

/-! ### The invariant -/

structure Recorded (s : ChannelStore) : Prop where
  fresh : ∀ w, s.nextWrite ≤ w → s.status w = .unspawned
  seen : ∀ k, (s.calls k).seen ≤ s.nextWrite ∨ (s.calls k).pc = .unhandled
  row : ∀ key w, s.lastWrite key = some w → s.status w = .executed ∧
    s.channels.getLastChannelId key = some (s.writes w).channelId
  latest : ∀ key w, s.latest key = some w → s.status w = .pending ∨ s.lastWrite key = some w
  handles : ∀ w, s.status w = .pending → w ∈ s.pendingWrites ∨ w ∈ s.drain.handles
  draining : s.drain ≠ .running → s.pendingWrites = []

/-- A setup that has asked for the last channel has the one of the latest disconnect before its call. -/
def Answered (s : ChannelStore) : Prop :=
  ∀ k key w, (s.calls k).pc ≠ .unhandled → (s.calls k).answer ≠ .notAsked → (s.calls k).key = some key →
    s.latestSeen k key = some w → (s.calls k).answer = .found (some (s.writes w).channelId)

theorem Recorded.setCall (h : s.Recorded) {call : ChannelCall}
    (hseen : call.seen = (s.calls k).seen ∧ (s.calls k).pc ≠ .unhandled ∨ call.seen = s.nextWrite) :
    (s.setCall k call).Recorded where
  fresh := h.fresh
  seen k' := by
    by_cases hk : k' = k
    · subst k'
      simp only [ChannelStore.setCall, Function.update_self]
      rcases hseen with ⟨hseen, hpc⟩ | hseen
      · rw [hseen]
        exact .inl ((h.seen k).resolve_right hpc)
      · rw [hseen]
        exact .inl (Nat.le_refl _)
    · simp only [ChannelStore.setCall, Function.update_of_ne hk]
      exact h.seen k'
  row := h.row
  latest := h.latest
  handles := h.handles
  draining := h.draining

theorem Recorded.goto (h : s.Recorded) {pc : CallPc} (hpc : (s.calls k).pc ≠ .unhandled) :
    (s.goto k pc).Recorded :=
  h.setCall (.inl ⟨rfl, hpc⟩)

theorem Recorded.callerStore (h : s.Recorded) (store : CallerStore) :
    Recorded { s with callerStore := store } :=
  ⟨h.fresh, h.seen, h.row, h.latest, h.handles, h.draining⟩

theorem mem_reapCompletedWrites (hpending : s.status w = .pending) (hmem : w ∈ s.pendingWrites) :
    w ∈ s.reapCompletedWrites := by
  refine List.mem_filter.2 ⟨hmem, ?_⟩
  rw [hpending]
  rfl

/-- The write a disconnect spawns is the latest for its key, and pending. -/
theorem Recorded.disconnected (h : s.Recorded) (hen : s.enabled (.disconnected k)) :
    (s.disconnected k).Recorded := by
  have hgoto : (s.goto k .over).Recorded := by
    apply h.goto
    rw [hen.2]
    decide
  have hdrain : s.drain.handles = [] := by
    rw [hen.1]
    rfl
  have hmem : ∀ w, s.status w = .pending → w ∈ s.reapCompletedWrites := by
    intro w hpending
    rcases h.handles w hpending with hmem | hmem
    · exact mem_reapCompletedWrites hpending hmem
    · rw [hdrain] at hmem
      cases hmem
  unfold ChannelStore.disconnected
  cases hkey : (s.calls k).key with
  | none =>
    refine ⟨hgoto.fresh, hgoto.seen, hgoto.row, hgoto.latest, fun w hpending => ?_, fun hnot => ?_⟩
    · exact .inl (hmem w hpending)
    · exact absurd hen.1 hnot
  | some key =>
    have hne : ∀ w, s.status w ≠ .unspawned → w ≠ s.nextWrite := by
      rintro w hw rfl
      exact hw (h.fresh _ (Nat.le_refl _))
    refine ⟨fun w hw => ?_, fun k' => ?_, fun key' w hrow => ?_, fun key' w hlatest => ?_,
      fun w hpending => ?_, fun hnot => absurd hen.1 hnot⟩
    · simp only at hw ⊢
      rw [Function.update_of_ne (by omega)]
      exact h.fresh w (by omega)
    · apply (hgoto.seen k').imp_left
      intro hle
      exact Nat.le_succ_of_le hle
    · obtain ⟨hexecuted, hchannel⟩ := h.row key' w hrow
      have hw := hne w (by rw [hexecuted]; decide)
      simp only [Function.update_of_ne hw]
      exact ⟨hexecuted, hchannel⟩
    · simp only [ChannelStore.latest, latestWrite, Function.update_self] at hlatest ⊢
      split at hlatest
      · rw [← Option.some.inj hlatest]
        left
        rw [Function.update_self]
      · rw [latestWrite_update (Nat.le_refl _)] at hlatest
        rw [Function.update_of_ne (Nat.ne_of_lt (lt_of_latestWrite hlatest).1)]
        exact h.latest key' w hlatest
    · left
      simp only at hpending ⊢
      by_cases hw : w = s.nextWrite
      · rw [hw]
        exact List.mem_append_right _ List.mem_cons_self
      · rw [Function.update_of_ne hw] at hpending
        exact List.mem_append_left _ (hmem w hpending)

theorem ne_of_pending {w' : Nat} {status : WriteStatus} (hw : s.status w = .pending)
    (hw' : s.status w' = status) (hstatus : status ≠ .pending) : w' ≠ w := by
  rintro rfl
  exact hstatus (hw'.symm.trans hw)

theorem Recorded.fresh_update (h : s.Recorded) (hw : s.status w = .pending) (status : WriteStatus) {w' : Nat}
    (hw' : s.nextWrite ≤ w') : Function.update s.status w status w' = .unspawned := by
  have hfresh := h.fresh w' hw'
  rw [Function.update_of_ne (ne_of_pending hw hfresh (by decide))]
  exact hfresh

theorem Recorded.handles_update (h : s.Recorded) {status : WriteStatus} (hstatus : status ≠ .pending) {w' : Nat}
    (hpending : Function.update s.status w status w' = .pending) :
    w' ∈ s.pendingWrites ∨ w' ∈ s.drain.handles := by
  by_cases hw : w' = w
  · subst w'
    rw [Function.update_self] at hpending
    exact absurd hpending hstatus
  · rw [Function.update_of_ne hw] at hpending
    exact h.handles w' hpending

theorem Recorded.execute (h : s.Recorded) (hen : s.enabled (.execute w))
    (hsafe : s.orderSafe (.execute w) = true) : (s.execute w).Recorded := by
  have hstatus : ∀ w', w' ≠ w → (s.execute w).status w' = s.status w' := fun w' hw =>
    Function.update_of_ne hw _ _
  refine ⟨fun w' hw' => h.fresh_update hen.1 _ hw', h.seen, fun key w' hrow => ?_, fun key w' hlatest => ?_,
    fun w' hpending => h.handles_update (by decide) hpending, h.draining⟩
  · simp only [ChannelStore.execute, CallerChannels.getLastChannelId_setLastChannelId]
      at hrow ⊢
    by_cases hkey : key = (s.writes w).key
    · subst key
      rw [Function.update_self] at hrow
      rw [← Option.some.inj hrow, if_pos rfl, Function.update_self]
      exact ⟨rfl, rfl⟩
    · rw [Function.update_of_ne hkey] at hrow
      rw [if_neg hkey]
      have hold := h.row key w' hrow
      rw [Function.update_of_ne (ne_of_pending hen.1 hold.1 (by decide))]
      exact hold
  · by_cases hw : w' = w
    · subst w'
      right
      rw [← (lt_of_latestWrite hlatest).2]
      exact Function.update_self _ _ _
    · rw [hstatus w' hw]
      by_cases hkey : key = (s.writes w).key
      · -- the latest write is not overtaken
        subst key
        have hall := (Option.all_eq_true _ _).1 hsafe w' hlatest
        exact .inl ((of_decide_eq_true hall).resolve_left hw)
      · apply (h.latest key w' hlatest).imp_right
        intro hlast
        simp only [ChannelStore.execute, Function.update_of_ne hkey]
        exact hlast

theorem Recorded.failWrite (h : s.Recorded) (hen : s.enabled (.failWrite w))
    (hsafe : s.orderSafe (.failWrite w) = true) : (s.next (.failWrite w)).Recorded := by
  have hstatus : ∀ w', w' ≠ w → (s.next (.failWrite w)).status w' = s.status w' := fun w' hw =>
    Function.update_of_ne hw _ _
  have hwrite : s.status w = .pending := hen
  refine ⟨fun w' hw' => h.fresh_update hwrite _ hw', h.seen, fun key w' hrow => ?_, fun key w' hlatest => ?_,
    fun w' hpending => h.handles_update (by decide) hpending, h.draining⟩
  · have hold := h.row key w' hrow
    rw [hstatus w' (ne_of_pending hwrite hold.1 (by decide))]
    exact hold
  · have hne : w' ≠ w := by
      rintro rfl
      apply of_decide_eq_true hsafe
      rw [show (s.writes w').key = key from (lt_of_latestWrite hlatest).2]
      exact hlatest
    rw [hstatus w' hne]
    exact h.latest key w' hlatest

theorem Recorded.next (h : s.Recorded) {a : ChannelAction} (hen : s.enabled a)
    (hsafe : s.orderSafe a = true) : (s.next a).Recorded := by
  cases a with
  | incomingCall k callerNumber serverHost => exact h.setCall (.inr rfl)
  | rejected k => exact h.goto (by rw [show (s.calls k).pc = _ from hen]; decide)
  | admitted k now =>
    have hpc : (s.calls k).pc ≠ .unhandled := by
      rw [show (s.calls k).pc = _ from hen]
      decide
    simp only [ChannelStore.next, ChannelStore.admitted]
    split
    · exact Recorded.goto (h.callerStore _) hpc
    · exact h.goto hpc
  | store a => exact h.callerStore _
  | callerFailed k => exact h.goto (by rw [hen.1]; decide)
  | select k =>
    have hpc : (s.calls k).pc ≠ .unhandled := by
      rw [hen.1]
      decide
    simp only [ChannelStore.next, ChannelStore.select]
    split
    · exact h.setCall (.inl ⟨rfl, hpc⟩)
    · exact h.goto hpc
  | selectFailed k => exact h.setCall (.inl ⟨rfl, by rw [hen.1]; decide⟩)
  | established k channelId =>
    exact h.setCall (.inl ⟨rfl, by rw [show (s.calls k).pc = _ from hen]; decide⟩)
  | setupEnded k => exact h.goto (by rw [show (s.calls k).pc = _ from hen]; decide)
  | navigate k channelId =>
    exact h.setCall (.inl ⟨rfl, by rw [show (s.calls k).pc = _ from hen]; decide⟩)
  | disconnected k => exact h.disconnected hen
  | execute w => exact h.execute hen hsafe
  | failWrite w => exact h.failWrite hen hsafe
  | drain =>
    refine ⟨h.fresh, h.seen, h.row, h.latest, fun w hpending => ?_, fun _ => rfl⟩
    rcases h.handles w hpending with hmem | hmem
    · exact .inr hmem
    · rw [show s.drain = .running from hen] at hmem
      cases hmem
  | drained =>
    refine ⟨h.fresh, h.seen, h.row, h.latest, fun w hpending => ?_, fun _ => h.draining hen.1⟩
    rcases h.handles w hpending with hmem | hmem
    · exact .inl hmem
    · have hfinished := hen.2.2 w hmem
      rw [show s.status w = .pending from hpending] at hfinished
      cases hfinished

/-! ### The lookups -/

theorem Answered.setCall (h : s.Answered) {call : ChannelCall}
    (hanswer : call.answer = .notAsked ∨
      call.answer = (s.calls k).answer ∧ call.key = (s.calls k).key ∧ call.seen = (s.calls k).seen ∧
        (s.calls k).pc ≠ .unhandled) : (s.setCall k call).Answered := by
  intro k' key w hpc hasked hkey hlatest
  by_cases hk : k' = k
  · subst k'
    simp only [ChannelStore.setCall, latestSeen, Function.update_self] at hpc hasked hkey hlatest ⊢
    rcases hanswer with hnot | ⟨heq, hkey', hseen, hpc'⟩
    · exact absurd hnot hasked
    · rw [heq] at hasked ⊢
      rw [hkey'] at hkey
      rw [hseen] at hlatest
      exact h k key w hpc' hasked hkey hlatest
  · simp only [ChannelStore.setCall, latestSeen, Function.update_of_ne hk] at hpc hasked hkey hlatest ⊢
    exact h k' key w hpc hasked hkey hlatest

theorem Answered.goto (h : s.Answered) {pc : CallPc} (hpc : (s.calls k).pc ≠ .unhandled) :
    (s.goto k pc).Answered :=
  h.setCall (.inr ⟨rfl, rfl, rfl, hpc⟩)

/-- The row a lookup reads is the one of the last write executed. -/
theorem Answered.select (h : s.Answered) (hrec : s.Recorded) (hen : s.enabled (.select k))
    (hsafe : s.orderSafe (.select k) = true) : (s.select k).Answered := by
  unfold ChannelStore.select
  split
  · rename_i key hkey
    intro k' key' w hpc hasked hkey' hlatest
    by_cases hk : k' = k
    · subst k'
      simp only [ChannelStore.setCall, Function.update_self, latestSeen] at hkey' hlatest ⊢
      have heq : key = key' := by
        have : (s.calls k).key = some key' := hkey'
        rw [hkey] at this
        exact Option.some.inj this
      subst key'
      have hall := (Option.all_eq_true _ _).1 ((Option.all_eq_true _ _).1 hsafe key hkey) w hlatest
      rw [(hrec.row key w (of_decide_eq_true hall)).2]
    · simp only [ChannelStore.setCall, latestSeen, Function.update_of_ne hk] at hpc hasked hkey' hlatest ⊢
      exact h k' key' w hpc hasked hkey' hlatest
  · apply h.goto
    rw [hen.1]
    decide

theorem Answered.selectFailed (h : s.Answered) (hsafe : s.orderSafe (.selectFailed k) = true) :
    (s.next (.selectFailed k)).Answered := by
  intro k' key w hpc hasked hkey hlatest
  by_cases hk : k' = k
  · subst k'
    simp only [ChannelStore.next, ChannelStore.setCall, Function.update_self, latestSeen] at hkey hlatest
    have hnone := (Option.all_eq_true _ _).1 hsafe key hkey
    rw [latestSeen, hlatest] at hnone
    cases hnone
  · simp only [ChannelStore.next, ChannelStore.setCall, latestSeen, Function.update_of_ne hk]
      at hpc hasked hkey hlatest ⊢
    exact h k' key w hpc hasked hkey hlatest

theorem Answered.disconnected (h : s.Answered) (hrec : s.Recorded) (hen : s.enabled (.disconnected k)) :
    (s.disconnected k).Answered := by
  have hgoto : (s.goto k .over).Answered := by
    apply h.goto
    rw [hen.2]
    decide
  unfold ChannelStore.disconnected
  split
  · intro k' key w hpc hasked hkey hlatest
    have hle : ((s.goto k .over).calls k').seen ≤ s.nextWrite := by
      have hrec' : (s.goto k .over).Recorded := by
        apply hrec.goto
        rw [hen.2]
        decide
      exact (hrec'.seen k').resolve_right hpc
    rw [latestSeen] at hlatest
    simp only at hlatest
    rw [latestWrite_update hle] at hlatest
    have hlt := (lt_of_latestWrite hlatest).1
    simp only
    rw [Function.update_of_ne (by omega)]
    exact hgoto k' key w hpc hasked hkey hlatest
  · exact hgoto

theorem Answered.next (h : s.Answered) (hrec : s.Recorded) {a : ChannelAction} (hen : s.enabled a)
    (hsafe : s.orderSafe a = true) : (s.next a).Answered := by
  cases a with
  | incomingCall k callerNumber serverHost => exact h.setCall (.inl rfl)
  | rejected k => exact h.goto (by rw [show (s.calls k).pc = _ from hen]; decide)
  | admitted k now =>
    have hpc : (s.calls k).pc ≠ .unhandled := by
      rw [show (s.calls k).pc = _ from hen]
      decide
    simp only [ChannelStore.next, ChannelStore.admitted]
    split
    · exact Answered.goto (s := { s with callerStore := _ }) h hpc
    · exact h.goto hpc
  | callerFailed k => exact h.goto (by rw [hen.1]; decide)
  | select k => exact h.select hrec hen hsafe
  | selectFailed k => exact h.selectFailed hsafe
  | established k channelId =>
    exact h.setCall (.inr ⟨rfl, rfl, rfl, by rw [show (s.calls k).pc = _ from hen]; decide⟩)
  | setupEnded k => exact h.goto (by rw [show (s.calls k).pc = _ from hen]; decide)
  | navigate k channelId =>
    exact h.setCall (.inr ⟨rfl, rfl, rfl, by rw [show (s.calls k).pc = _ from hen]; decide⟩)
  | disconnected k => exact h.disconnected hrec hen
  | _ => exact h

/-! ### Overtaken -/

/-- The write of the latest disconnect is over, and not the last to have been executed. -/
def Overtaken (s : ChannelStore) (key : ChannelKey) : Prop :=
  ∃ w, s.latest key = some w ∧ (s.status w).isFinished = true ∧ s.lastWrite key ≠ some w

theorem Recorded.overtaken_execute (h : s.Recorded)
    (hbroken : ¬s.orderSafe (.execute w) = true) : (s.next (.execute w)).Overtaken (s.writes w).key := by
  simp only [orderSafe, Option.all_eq_true, decide_eq_true_eq, not_forall, not_or] at hbroken
  obtain ⟨w', hlatest, hne, hpending⟩ := hbroken
  have hrow := (h.latest _ w' hlatest).resolve_left hpending
  refine ⟨w', hlatest, ?_, ?_⟩
  · show (Function.update s.status w .executed w').isFinished = true
    rw [Function.update_of_ne hne, (h.row _ w' hrow).1]
    rfl
  · show Function.update s.lastWrite (s.writes w).key (some w) (s.writes w).key ≠ some w'
    rw [Function.update_self]
    intro heq
    exact hne (Option.some.inj heq).symm

theorem Recorded.overtaken_failWrite (h : s.Recorded) (hen : s.enabled (.failWrite w))
    (hbroken : ¬s.orderSafe (.failWrite w) = true) :
    (s.next (.failWrite w)).Overtaken (s.writes w).key := by
  simp only [orderSafe, decide_eq_true_eq, not_not] at hbroken
  refine ⟨w, hbroken, ?_, fun hrow => ?_⟩
  · show (Function.update s.status w .failed w).isFinished = true
    rw [Function.update_self]
    rfl
  · have hexecuted := (h.row _ w hrow).1
    rw [show s.status w = .pending from hen] at hexecuted
    cases hexecuted

end ChannelStore

/-- The steps of a run in which the latest disconnect is the last writer, and the last writer is the latest
disconnect a lookup must know. -/
def writesInOrder (s : ChannelStore) (a : ChannelAction) : Prop := s.orderSafe a = true

instance (s : ChannelStore) (a : ChannelAction) : Decidable (writesInOrder s a) :=
  inferInstanceAs (Decidable (_ = _))

theorem reaches_recorded {s : ChannelStore} (hs : channelStore.Reaches writesInOrder s) :
    s.Recorded ∧ s.Answered := by
  refine hs.invariant (I := fun s => s.Recorded ∧ s.Answered) ?_ ?_
  · rintro s ⟨_, hcalls, hwrite, hstatus, hpending, _, hrow⟩
    refine ⟨⟨fun w _ => hstatus w, fun k => .inr (hcalls k), fun key w hlast => ?_,
      fun key w hlatest => ?_, fun w hp => ?_, fun _ => hpending⟩, fun k key w hpc => ?_⟩
    · rw [hrow] at hlast
      cases hlast
    · rw [ChannelStore.latest, hwrite] at hlatest
      cases hlatest
    · rw [hstatus] at hp
      cases hp
    · exact absurd (hcalls k) hpc
  · intro s a _ h hen hsafe
    exact ⟨h.1.next hen hsafe, h.2.next h.1 hen hsafe⟩

/-- Once the writes are drained, the table has the channel of the session disconnected last, and every lookup
has read the channel of the latest disconnect before its call. A write out of order leaves the write of the
latest disconnect finished and overtaken. -/
theorem last_channel_kept {s : ChannelStore} (hs : channelStore.Reaches writesInOrder s) :
    (s.drain = .drained → ∀ key w, s.latest key = some w →
      s.channels.getLastChannelId key = some (s.writes w).channelId) ∧
    s.Answered ∧
    ∀ w, (s.enabled (.execute w) → ¬writesInOrder s (.execute w) →
        (s.next (.execute w)).Overtaken (s.writes w).key) ∧
      (s.enabled (.failWrite w) → ¬writesInOrder s (.failWrite w) →
        (s.next (.failWrite w)).Overtaken (s.writes w).key) := by
  obtain ⟨h, hanswered⟩ := reaches_recorded hs
  refine ⟨fun hdrained key w hlatest => ?_, hanswered,
    fun w => ⟨fun _ => h.overtaken_execute, h.overtaken_failWrite⟩⟩
  have hsettled : s.status w ≠ .pending := by
    intro hpending
    rcases h.handles w hpending with hmem | hmem
    · rw [h.draining (by rw [hdrained]; decide)] at hmem
      cases hmem
    · rw [hdrained] at hmem
      cases hmem
  exact (h.row key w ((h.latest key w hlatest).resolve_left hsettled)).2

/-- A process that has just started, on an empty database. -/
def newProcess : ChannelStore where
  callerStore := emptyStore
  channels := ∅
  calls := fun _ => ⟨.unhandled, none, "", .notAsked, 0, 0⟩
  writes := fun _ => ⟨⟨"", ""⟩, 0⟩
  nextWrite := 0
  status := fun _ => .unspawned
  pendingWrites := []
  drain := .running
  lastWrite := fun _ => none

theorem newProcess_init : channelStore.init newProcess :=
  ⟨fun _ => rfl, fun _ => rfl, rfl, fun _ => rfl, rfl, rfl, fun _ => rfl⟩

def reconnectKey : ChannelKey := ⟨"5551234567", "mumble.example.com"⟩

/-- A first call that ends in channel 42, and a second one from the same number. -/
def reconnect : List ChannelAction :=
  [.incomingCall 0 (some "5551234567") "mumble.example.com", .admitted 0 1000, .store (.select 0),
    .store (.candidate 0 "relaxed-babbage"), .store (.insert 0), .select 0, .established 0 0,
    .navigate 0 42, .disconnected 0]

/-- The second call reads channel 42 and ends in channel 7, which the drained table has. -/
theorem last_channel_kept_reconnect : ∃ s, channelStore.Reaches writesInOrder s ∧
    s.channels.getLastChannelId reconnectKey = some 7 ∧ s.latest reconnectKey = some 1 ∧
    (s.calls 1).answer = .found (some 42) := by
  obtain ⟨s, hs, hP⟩ := System.exists_reaches_of_run channelStore writesInOrder newProcess_init
    (reconnect ++ [.execute 0, .incomingCall 1 (some "5551234567") "mumble.example.com", .admitted 1 2000,
      .store (.select 1), .store (.update 1), .select 1, .established 1 7, .disconnected 1, .execute 1,
      .drain, .drained])
    (fun s => s.drain = .drained ∧ s.latest reconnectKey = some 1 ∧ (s.writes 1).channelId = 7 ∧
      (s.calls 1).answer = .found (some 42))
    (by decide)
  obtain ⟨hdrained, hlatest, hchannel, hanswer⟩ := of_decide_eq_true hP
  have hkept := (last_channel_kept hs).1 hdrained reconnectKey 1 hlatest
  rw [hchannel] at hkept
  exact ⟨s, hs, hkept, hlatest, hanswer⟩

/-- Two calls from one number end in channels 42 and 7, and their writes are executed the other way round. -/
theorem last_channel_overtaken : ¬∀ s, channelStore.Reachable s →
    (s.drain = .drained → ∀ key w, s.latest key = some w →
      s.channels.getLastChannelId key = some (s.writes w).channelId) ∧ s.Answered := by
  intro hclaim
  obtain ⟨s, hs, hP⟩ := System.exists_reaches_of_run channelStore System.anyStep newProcess_init
    (reconnect ++ [.incomingCall 1 (some "5551234567") "mumble.example.com", .admitted 1 2000,
      .store (.select 1), .store (.update 1), .select 1, .established 1 7, .disconnected 1, .execute 1,
      .execute 0, .drain, .drained])
    (fun s => s.drain = .drained ∧ s.latest reconnectKey = some 1 ∧ (s.writes 1).channelId = 7 ∧
      s.channels.getLastChannelId reconnectKey = some 42)
    (by decide)
  obtain ⟨hdrained, hlatest, hchannel, hstored⟩ := of_decide_eq_true hP
  have hkept := (hclaim s hs).1 hdrained reconnectKey 1 hlatest
  rw [hchannel, hstored] at hkept
  exact absurd hkept (by decide)

end MumbleSip
