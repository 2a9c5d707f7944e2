import Mathlib.Algebra.Group.Nat.Defs
import MumbleSip.Store.Callers
import Mathlib.Data.List.Induction

/-!
# The intro

Whether a call starts with the intro is decided when its number is looked up, from the time that the lookup
before it has left in the table. A call that ends before the intro has left its time, too.
-/

namespace MumbleSip

open Transition

/-- `get_or_create_caller`, at once; `nickname` is what the loop for a unique nickname ends with. -/
def Callers.getOrCreateCaller (callers : Callers) (phoneNumber nickname : String) (now : UInt64) :
    Callers × CallerInfo :=
  match callers.lookup phoneNumber with
  | some row =>
    (callers.updateLastSeen phoneNumber now.toInt64, ⟨phoneNumber, row.nickname, row.lastSeen.toUInt64, false⟩)
  | none =>
    (callers.insertCaller phoneNumber nickname now.toInt64,
      ⟨phoneNumber, nickname, now.toInt64.toUInt64, true⟩)

/-- Where a call ends: at the limit of concurrent calls, with the media port, the answer or the wait for
media, while the intro plays, or later. -/
inductive CallStage
  | rejected
  | mediaPort
  | answer
  | mediaWait
  | intro
  | later
  deriving DecidableEq

/-- The call gets past the wait for media. -/
def CallStage.hasMedia : CallStage → Bool
  | .intro | .later => true
  | _ => false

/-- A call with the two readings of the clock in it: in `get_or_create_caller`, and for the intro. -/
structure IncomingCall where
  startedAt : UInt64
  decidedAt : UInt64
  nickname : String
  stage : CallStage
  deriving DecidableEq

def secsPerDay : UInt64 := 86400

/-- `u64::saturating_sub` -/
def secondsSince (now lastSeen : UInt64) : UInt64 := if lastSeen ≤ now then now - lastSeen else 0

def shouldPlayIntro (introReplayAfterDays : UInt64) (info : CallerInfo) (now : UInt64) : Bool :=
  let introReplaySecs := introReplayAfterDays * secsPerDay
  info.isNew || secondsSince now info.lastSeen ≥ introReplaySecs

/-- `on_incoming_call` for a call from `number`: the table after it, and whether the intro has started. -/
def onIncomingCall (introReplayAfterDays : UInt64) (number : String) (callers : Callers)
    (call : IncomingCall) : Callers × Bool :=
  if call.stage = .rejected then (callers, false)
  else
    let (callers, info) := callers.getOrCreateCaller number call.nickname call.startedAt
    let playIntro := shouldPlayIntro introReplayAfterDays info call.decidedAt
    if call.stage.hasMedia then (callers, playIntro) else (callers, false)

/-- The table after the calls, one after the other. -/
def afterCalls (introReplayAfterDays : UInt64) (number : String) (callers : Callers)
    (history : List IncomingCall) : Callers :=
  history.foldl (fun callers call => (onIncomingCall introReplayAfterDays number callers call).1) callers

/-- Which of the calls have started the intro. -/
def introsStarted (introReplayAfterDays : UInt64) (number : String) : Callers → List IncomingCall → List Bool
  | _, [] => []
  | callers, call :: history =>
    let result := onIncomingCall introReplayAfterDays number callers call
    result.2 :: introsStarted introReplayAfterDays number result.1 history

/-- The clock does not go back. -/
structure ClockRuns (history : List IncomingCall) : Prop where
  within : ∀ call ∈ history, call.startedAt ≤ call.decidedAt
  between : history.Pairwise fun call call' => call.decidedAt ≤ call'.startedAt

/-- The calls that have been looked up. -/
def lookedUp (history : List IncomingCall) : List IncomingCall :=
  history.filter fun call => call.stage != .rejected

variable {days : UInt64} {number : String} {callers : Callers} {history : List IncomingCall}
  {call previous : IncomingCall}

/-! ### The lookup -/

theorem getOrCreateCaller_of_some {row : CallerRow} (hrow : callers.lookup number = some row)
    (nickname : String) (now : UInt64) :
    callers.getOrCreateCaller number nickname now =
      (callers.updateLastSeen number now.toInt64, ⟨number, row.nickname, row.lastSeen.toUInt64, false⟩) := by
  rw [Callers.getOrCreateCaller, hrow]

theorem getOrCreateCaller_of_none (hnone : callers.lookup number = none) (nickname : String) (now : UInt64) :
    callers.getOrCreateCaller number nickname now =
      (callers.insertCaller number nickname now.toInt64, ⟨number, nickname, now.toInt64.toUInt64, true⟩) := by
  rw [Callers.getOrCreateCaller, hnone]

theorem lookup_getOrCreateCaller (callers : Callers) (number nickname : String) (now : UInt64) :
    ((callers.getOrCreateCaller number nickname now).1.lookup number).map CallerRow.lastSeen =
      some now.toInt64 := by
  cases hrow : callers.lookup number with
  | none =>
    rw [getOrCreateCaller_of_none hrow, Callers.insertCaller, hrow, FiniteMap.lookup_insert, if_pos rfl]
    rfl
  | some row =>
    rw [getOrCreateCaller_of_some hrow, Callers.updateLastSeen, hrow, FiniteMap.lookup_insert, if_pos rfl]
    rfl

theorem run_cons {s : CallerStore} {a : StoreAction} (hen : s.enabled a) (as : List StoreAction) :
    callerStore.run System.anyStep s (a :: as) = callerStore.run System.anyStep (s.next a) as :=
  if_pos ⟨hen, trivial⟩

theorem lookups_goto (s : CallerStore) (i : Nat) (pc : CallerPc) :
    (s.goto i pc).lookups i = { s.lookups i with pc := pc } := Function.update_self ..

theorem next_call (s : CallerStore) (i : Nat) (number : String) (now : Int64) :
    (s.next (.call i number now)).lookups i = ⟨number, now, .select⟩ := Function.update_self ..

theorem next_select_of_some {s : CallerStore} {i : Nat} {row : CallerRow}
    (hrow : s.callers.lookup (s.lookups i).phoneNumber = some row) : s.next (.select i) = s.goto i (.update row) := by
  rw [CallerStore.next, CallerStore.select, hrow]

theorem next_select_of_none {s : CallerStore} {i : Nat}
    (hnone : s.callers.lookup (s.lookups i).phoneNumber = none) : s.next (.select i) = s.goto i .generate := by
  rw [CallerStore.next, CallerStore.select, hnone]

theorem run_call_select (s : CallerStore) (i : Nat) (number : String) (now : UInt64)
    (hunstarted : (s.lookups i).pc = .unstarted) (as : List StoreAction) {pc : CallerPc}
    (hnext : (s.next (.call i number now.toInt64)).next (.select i)
      = (s.next (.call i number now.toInt64)).goto i pc) :
    callerStore.run System.anyStep s (.call i number now.toInt64 :: .select i :: as) =
      callerStore.run System.anyStep ((s.next (.call i number now.toInt64)).goto i pc) as := by
  have henabled : s.enabled (.call i number now.toInt64) := hunstarted
  have hselect : (s.next (.call i number now.toInt64)).enabled (.select i) := by
    show ((s.next (.call i number now.toInt64)).lookups i).pc = .select
    rw [next_call]
  rw [run_cons henabled, run_cons hselect, hnext]

/-- The statements for a known caller, taken one after the other, do the same. -/
theorem getOrCreateCaller_run_of_some {s : CallerStore} {row : CallerRow} {number : String}
    (hrow : s.callers.lookup number = some row) (i : Nat) (nickname : String) (now : UInt64)
    (hunstarted : (s.lookups i).pc = .unstarted) :
    ∃ as s', callerStore.run System.anyStep s as = some s' ∧
      s'.callers = (s.callers.getOrCreateCaller number nickname now).1 ∧
      (s'.lookups i).pc = .returned (s.callers.getOrCreateCaller number nickname now).2 := by
  have hcall := next_call s i number now.toInt64
  have hcallers : (s.next (.call i number now.toInt64)).callers = s.callers := rfl
  have hnext : (s.next (.call i number now.toInt64)).next (.select i)
      = (s.next (.call i number now.toInt64)).goto i (.update row) :=
    next_select_of_some (by rw [hcall, hcallers]; exact hrow)
  have hstart := run_call_select s i number now hunstarted [.update i] hnext
  generalize s.next (.call i number now.toInt64) = s₁ at hcall hcallers hstart
  have hlookup : (s₁.goto i (.update row)).lookups i = ⟨number, now.toInt64, .update row⟩ := by
    rw [lookups_goto, hcall]
  have hupdate : (s₁.goto i (.update row)).enabled (.update i) := by
    show ((s₁.goto i (.update row)).lookups i).pc.isUpdate = true
    rw [hlookup]
    rfl
  refine ⟨[.call i number now.toInt64, .select i, .update i], (s₁.goto i (.update row)).update i, ?_, ?_, ?_⟩
  · rw [hstart, run_cons hupdate]
    rfl
  · rw [getOrCreateCaller_of_some hrow]
    simp only [CallerStore.update, hlookup]
    exact congrArg (Callers.updateLastSeen · number now.toInt64) hcallers
  · rw [getOrCreateCaller_of_some hrow]
    simp only [CallerStore.update, hlookup, lookups_goto]

theorem getOrCreateCaller_run_of_none {s : CallerStore} {number name : String}
    (hnone : s.callers.lookup number = none) (hfree : s.callers.conflict (generateNickname name) = false)
    (i : Nat) (now : UInt64) (hunstarted : (s.lookups i).pc = .unstarted) :
    ∃ as s', callerStore.run System.anyStep s as = some s' ∧
      s'.callers = (s.callers.getOrCreateCaller number (generateNickname name) now).1 ∧
      (s'.lookups i).pc = .returned (s.callers.getOrCreateCaller number (generateNickname name) now).2 := by
  have hcall := next_call s i number now.toInt64
  have hcallers : (s.next (.call i number now.toInt64)).callers = s.callers := rfl
  have hnext : (s.next (.call i number now.toInt64)).next (.select i)
      = (s.next (.call i number now.toInt64)).goto i .generate :=
    next_select_of_none (by rw [hcall, hcallers]; exact hnone)
  have hstart := run_call_select s i number now hunstarted [.candidate i name, .insert i] hnext
  generalize s.next (.call i number now.toInt64) = s₁ at hcall hcallers hstart
  have hlookup : (s₁.goto i .generate).lookups i = ⟨number, now.toInt64, .generate⟩ := by
    rw [lookups_goto, hcall]
  have hcandidate : (s₁.goto i .generate).enabled (.candidate i name) := by
    show ((s₁.goto i .generate).lookups i).pc = .generate
    rw [hlookup]
  have hgenerated : (s₁.goto i .generate).next (.candidate i name) =
      (s₁.goto i .generate).goto i (.insert (generateNickname name)) := by
    have hconflict : (s₁.goto i .generate).callers.conflict (generateNickname name) = false :=
      (congrArg (Callers.conflict · (generateNickname name)) hcallers).trans hfree
    rw [CallerStore.next, CallerStore.candidate, hconflict]
    rfl
  generalize generateNickname name = nickname at hgenerated
  have hlookup' : ((s₁.goto i .generate).goto i (.insert nickname)).lookups i =
      ⟨number, now.toInt64, .insert nickname⟩ := by
    rw [lookups_goto, hlookup]
  have hinsert : ((s₁.goto i .generate).goto i (.insert nickname)).enabled (.insert i) := by
    show (((s₁.goto i .generate).goto i (.insert nickname)).lookups i).pc.isInsert = true
    rw [hlookup']
    rfl
  refine ⟨[.call i number now.toInt64, .select i, .candidate i name, .insert i],
    ((s₁.goto i .generate).goto i (.insert nickname)).insert i, ?_, ?_, ?_⟩
  · rw [hstart, run_cons hcandidate, hgenerated, run_cons hinsert]
    rfl
  · rw [getOrCreateCaller_of_none hnone]
    simp only [CallerStore.insert, hlookup']
    exact congrArg (Callers.insertCaller · number nickname now.toInt64) hcallers
  · rw [getOrCreateCaller_of_none hnone]
    simp only [CallerStore.insert, hlookup', lookups_goto]

/-! ### The history -/

theorem afterCalls_concat (days : UInt64) (number : String) (callers : Callers) (history : List IncomingCall)
    (call : IncomingCall) : afterCalls days number callers (history ++ [call]) =
      (onIncomingCall days number (afterCalls days number callers history) call).1 := by
  rw [afterCalls, List.foldl_append]
  rfl

theorem onIncomingCall_of_rejected (hstage : call.stage = .rejected) :
    onIncomingCall days number callers call = (callers, false) := if_pos hstage

theorem onIncomingCall_fst_of_ne (hstage : call.stage ≠ .rejected) :
    (onIncomingCall days number callers call).1 =
      (callers.getOrCreateCaller number call.nickname call.startedAt).1 := by
  simp only [onIncomingCall, if_neg hstage]
  split
  · rfl
  · rfl

theorem onIncomingCall_snd_of_hasMedia (hmedia : call.stage.hasMedia = true) :
    (onIncomingCall days number callers call).2 =
      shouldPlayIntro days (callers.getOrCreateCaller number call.nickname call.startedAt).2
        call.decidedAt := by
  have hstage : call.stage ≠ .rejected := by
    intro heq
    rw [heq] at hmedia
    cases hmedia
  simp only [onIncomingCall, if_neg hstage, if_pos hmedia]

theorem lookedUp_concat (history : List IncomingCall) (call : IncomingCall) : lookedUp (history ++ [call]) =
    if call.stage = .rejected then lookedUp history else lookedUp history ++ [call] := by
  rw [lookedUp, List.filter_append, ← lookedUp]
  split
  · rename_i hstage
    rw [List.filter_cons_of_neg (by rw [hstage]; decide), List.filter_nil, List.append_nil]
  · rename_i hstage
    have hkept : [call].filter (fun call => call.stage != .rejected) = [call] :=
      List.filter_cons_of_pos (bne_iff_ne.2 hstage)
    rw [hkept]

theorem lookup_afterCalls (hnew : callers.lookup number = none) (history : List IncomingCall) :
    ((afterCalls days number callers history).lookup number).map CallerRow.lastSeen =
      (lookedUp history).getLast?.map fun call => call.startedAt.toInt64 := by
  induction history using List.reverseRecOn with
  | nil =>
    show (callers.lookup number).map CallerRow.lastSeen = none
    rw [hnew]
    rfl
  | append_singleton history call ih =>
    rw [afterCalls_concat, lookedUp_concat]
    by_cases hstage : call.stage = .rejected
    · rw [onIncomingCall_of_rejected hstage, if_pos hstage]
      exact ih
    · rw [onIncomingCall_fst_of_ne hstage, if_neg hstage, lookup_getOrCreateCaller, List.getLast?_concat]
      rfl

/-! ### The decision -/

theorem le_secondsSince_iff (days : UInt64) {now lastSeen : UInt64} (hle : lastSeen ≤ now)
    (hperiod : days.toNat * 86400 < 2 ^ 64) :
    secondsSince now lastSeen ≥ days * secsPerDay ↔ lastSeen.toNat + days.toNat * 86400 ≤ now.toNat := by
  have hsub : (now - lastSeen).toNat = now.toNat - lastSeen.toNat := UInt64.toNat_sub_of_le _ _ hle
  have hmul : (days * secsPerDay).toNat = days.toNat * 86400 := by
    rw [UInt64.toNat_mul]
    exact Nat.mod_eq_of_lt hperiod
  rw [UInt64.le_iff_toNat_le] at hle
  rw [secondsSince, if_pos (UInt64.le_iff_toNat_le.2 hle), ge_iff_le, UInt64.le_iff_toNat_le, hsub, hmul]
  omega

theorem ClockRuns.previous_le (hclock : ClockRuns (history ++ [call])) (hprevious : previous ∈ history) :
    previous.startedAt ≤ call.decidedAt := by
  have hbetween := (List.pairwise_append.1 hclock.between).2.2 previous hprevious call List.mem_cons_self
  have hfirst := hclock.within previous (List.mem_append_left _ hprevious)
  have hlast := hclock.within call (List.mem_append_right _ List.mem_cons_self)
  exact UInt64.le_trans hfirst (UInt64.le_trans hbetween hlast)

/-- **The intro** starts in a call that gets its media exactly if no earlier call has been looked up, or the
last one that has been was started long enough before. -/
theorem intro_started_iff (days : UInt64) (number : String) (callers : Callers) (history : List IncomingCall)
    (call : IncomingCall) (hperiod : days.toNat * 86400 < 2 ^ 63) (hnew : callers.lookup number = none)
    (hclock : ClockRuns (history ++ [call])) (hmedia : call.stage.hasMedia = true) :
    (onIncomingCall days number (afterCalls days number callers history) call).2 = true ↔
      lookedUp history = [] ∨ ∃ previous, (lookedUp history).getLast? = some previous ∧
        previous.startedAt.toNat + days.toNat * 86400 ≤ call.decidedAt.toNat := by
  have htable : ((afterCalls days number callers history).lookup number).map CallerRow.lastSeen
      = (lookedUp history).getLast?.map fun call => call.startedAt.toInt64 := lookup_afterCalls hnew history
  rw [onIncomingCall_snd_of_hasMedia hmedia]
  cases hlast : (lookedUp history).getLast? with
  | none =>
    rw [hlast, Option.map_none, Option.map_eq_none_iff] at htable
    rw [getOrCreateCaller_of_none htable]
    exact iff_of_true rfl (.inl (List.getLast?_eq_none_iff.1 hlast))
  | some previous =>
    rw [hlast, Option.map_some, Option.map_eq_some_iff] at htable
    obtain ⟨row, hrow, hseen⟩ := htable
    have hmem : previous ∈ history := (List.mem_filter.1 (List.mem_of_getLast? hlast)).1
    have hdecision := le_secondsSince_iff days (hclock.previous_le hmem) (by omega)
    rw [getOrCreateCaller_of_some hrow]
    simp only [shouldPlayIntro, Bool.false_or, decide_eq_true_eq, hseen, UInt64.toUInt64_toInt64]
    rw [hdecision]
    constructor
    · intro hlong
      exact .inr ⟨previous, rfl, hlong⟩
    · rintro (hnil | ⟨previous', heq, hlong⟩)
      · rw [hnil] at hlast
        cases hlast
      · rw [Option.some.inj heq]
        exact hlong

/-- A month after a call that went through. -/
theorem intro_started_iff_month :
    (onIncomingCall 30 "7204919941" (afterCalls 30 "7204919941" ∅ [⟨1000, 1000, "Otter", .later⟩])
        ⟨2593000, 2593000, "Heron", .later⟩).2 = true ↔
      lookedUp [⟨1000, 1000, "Otter", .later⟩] = [] ∨ ∃ previous,
        (lookedUp [⟨1000, 1000, "Otter", .later⟩]).getLast? = some previous ∧
          previous.startedAt.toNat + (30 : UInt64).toNat * 86400 ≤ (2593000 : UInt64).toNat :=
  intro_started_iff 30 "7204919941" ∅ [⟨1000, 1000, "Otter", .later⟩] ⟨2593000, 2593000, "Heron", .later⟩
    (by decide) rfl ⟨by decide, by decide⟩ rfl

/-- The call starts the intro exactly if no earlier call has, or the call before it was long enough before. -/
def FirstTimeHears (days : UInt64) (number : String) (callers : Callers) (history : List IncomingCall)
    (call : IncomingCall) : Prop :=
  (onIncomingCall days number (afterCalls days number callers history) call).2 = true ↔
    (∀ played ∈ introsStarted days number callers history, played = false) ∨
      ∃ previous, history.getLast? = some previous ∧
        previous.startedAt.toNat + days.toNat * 86400 ≤ call.startedAt.toNat

/-- A caller who hangs up in the wait for media, and calls again a minute later, does not hear the intro. -/
theorem hung_up_not_heard : ¬∀ history call, ClockRuns (history ++ [call]) → call.stage.hasMedia = true →
    FirstTimeHears 30 "7204919941" ∅ history call := by
  intro hall
  have hagain := (hall [⟨1000, 1000, "Otter", .mediaWait⟩] ⟨1060, 1060, "Heron", .later⟩
    ⟨by decide, by decide⟩ rfl).2
  have hnone : ∀ played ∈ introsStarted 30 "7204919941" ∅ [⟨1000, 1000, "Otter", .mediaWait⟩],
      played = false := by
    decide
  have hplays := hagain (.inl hnone)
  revert hplays
  decide

end MumbleSip
