import Mathlib.Algebra.GroupWithZero.Nat
import MumbleSip.Sip.MediaPort

/-!
# Samples between a call and Mumble

Whatever the threads see of each other, and in whatever order they go, the samples that the encoder and
`port_get_frame` take out are those that the ring buffers have accepted, in order, and every sample that was not
accepted or not supplied is counted.
-/

namespace MumbleSip

open Transition

theorem trackSamples_eq (counter delta : UInt64) : trackSamples counter delta = counter + delta := by
  unfold trackSamples
  split
  · rename_i hzero
    rw [hzero, UInt64.add_zero]
  · rfl

theorem fillFrame_eq {buf popped : Pcm} (hle : popped.length ≤ buf.length) : fillFrame buf popped
    = (⟨if popped = [] then .none else .audio, some (popped ++ List.replicate (buf.length - popped.length) 0)⟩,
      buf.length - popped.length) := by
  unfold fillFrame
  by_cases hnone : popped = []
  · subst popped
    rfl
  · have hread : ¬ popped.length = 0 := fun h => hnone (List.eq_nil_of_length_eq_zero h)
    simp only [if_neg hread, if_neg hnone]
    by_cases hlt : popped.length < buf.length
    · rw [if_pos hlt, List.take_left]
    · have heq : buf.length - popped.length = 0 := by omega
      rw [if_neg hlt, heq, List.drop_eq_nil_of_le (by omega)]
      rfl

/-- The samples of an audio frame, if there are any. -/
def PjFrame.samples (frame : PjFrame) : Option Pcm :=
  if frame.type = .audio then frame.buf.filter (· ≠ []) else none

namespace PathAction

variable {ring : RingBuffer Int16}

/-- The samples that `port_put_frame` pushes. -/
def put : PathAction ring → Option Pcm
  | .putFrame frame => frame.samples
  | _ => none

/-- The frame that the mixed decoder pushes. -/
def pushed : PathAction ring → Option Pcm
  | .decoderPushes mixedFrame => some mixedFrame
  | _ => none

/-- The frame that `port_get_frame` is given. -/
def got : PathAction ring → Option PjFrame
  | .getFrame frame => some frame
  | _ => none

def isRead : PathAction ring → Bool
  | .encoderReads => true
  | _ => false

/-- What other calls add to the two counters. -/
def others : PathAction ring → UInt64 × UInt64
  | .otherCalls dropped underflow => (dropped, underflow)
  | _ => (0, 0)

end PathAction

namespace AudioPath

variable {ring : RingBuffer Int16} {frameSamples : Nat} {dropped underflow : UInt64} {s : AudioPath ring}

theorem portPutFrame_cases (s : AudioPath ring) (frame : PjFrame) :
    (frame.samples = none ∧ s.portPutFrame frame = s) ∨
    ∃ samples, frame.samples = some samples ∧ s.portPutFrame frame = { s with
      sipToMumble := ring.push s.sipToMumble samples
      putDelta := .ofNat (ring.pushed s.sipToMumble samples).lost
      puts := s.puts ++ [ring.pushed s.sipToMumble samples] } := by
  obtain ⟨type, buf⟩ := frame
  unfold portPutFrame
  by_cases htype : type = .audio
  · subst type
    cases buf with
    | none => exact .inl ⟨rfl, rfl⟩
    | some samples =>
      have hempty : PjFrame.size ⟨.audio, some samples⟩ = 0 ↔ samples = [] := by
        rw [PjFrame.size, Option.getD_some, ← List.length_eq_zero_iff]
        omega
      by_cases hsize : PjFrame.size ⟨.audio, some samples⟩ = 0
      · refine .inl ⟨?_, if_pos hsize⟩
        rw [hempty.1 hsize]
        rfl
      · refine .inr ⟨samples, ?_, ?_⟩
        · have hne : samples ≠ [] := fun h => hsize (hempty.2 h)
          rw [PjFrame.samples, if_pos rfl, Option.filter_some, if_pos (decide_eq_true hne)]
        have hcount : PjFrame.size ⟨.audio, some samples⟩ / 2 = samples.length :=
          Nat.mul_div_cancel_left _ (by decide)
        have hdelta : (if ring.written s.sipToMumble samples < samples.length then
            UInt64.ofNat (samples.length - ring.written s.sipToMumble samples) else 0)
              = .ofNat (ring.pushed s.sipToMumble samples).lost := by
          show _ = UInt64.ofNat (samples.length - ring.written s.sipToMumble samples)
          split
          · rfl
          · rw [show samples.length - ring.written s.sipToMumble samples = 0 by omega]
            rfl
        simp only [hsize, hcount, List.take_length, hdelta, ne_eq, not_true_eq_false, if_false]
  · exact .inl ⟨if_neg htype, if_pos htype⟩

/-- A frame without a buffer is given back without a sample; every other one takes what the ring buffer has. -/
theorem portGetFrame_cases (s : AudioPath ring) (frame : PjFrame) :
    (frame.buf.getD [] = [] ∧ s.portGetFrame frame
      = { s with gets := s.gets ++ [⟨frame, { frame with type := .none }, []⟩] }) ∨
    ∃ buf, frame.buf = some buf ∧ s.portGetFrame frame = { s with
      mumbleToSip := ring.pop s.mumbleToSip buf.length
      getDelta := .ofNat (fillFrame buf (ring.popped s.mumbleToSip buf.length)).2
      gets := s.gets ++ [⟨frame, (fillFrame buf (ring.popped s.mumbleToSip buf.length)).1,
        ring.popped s.mumbleToSip buf.length⟩] } := by
  obtain ⟨type, buf⟩ := frame
  unfold portGetFrame
  cases buf with
  | none => exact .inl ⟨rfl, rfl⟩
  | some buf =>
    by_cases hsize : PjFrame.size ⟨type, some buf⟩ = 0
    · refine .inl ⟨?_, if_pos hsize⟩
      have hlength : 2 * buf.length = 0 := hsize
      show buf = []
      exact List.eq_nil_of_length_eq_zero (by omega)
    · refine .inr ⟨buf, rfl, ?_⟩
      have hcount : PjFrame.size ⟨type, some buf⟩ / 2 = buf.length := Nat.mul_div_cancel_left _ (by decide)
      simp only [hsize, hcount, List.take_length, if_false]

theorem encoderReads_eq (hseen : frameSamples ≤ ring.occupiedLen s.sipToMumble)
    (hbuf : s.pcmBuf.length = frameSamples) :
    s.encoderReads frameSamples = { s with
      sipToMumble := ring.pop s.sipToMumble frameSamples
      encoderReading := false
      pcmBuf := ring.popped s.sipToMumble frameSamples
      reads := s.reads
        ++ [⟨ring.popped s.sipToMumble frameSamples, ring.popped s.sipToMumble frameSamples, false⟩] } := by
  have hread := ring.length_popped _ _ hseen
  unfold encoderReads
  simp only [hread, Nat.lt_irrefl, if_false, decide_false, List.drop_eq_nil_of_le (Nat.le_of_eq hbuf),
    List.append_nil]

/-- What holds between two steps. -/
structure Accounts (frameSamples : Nat) (dropped underflow : UInt64) (s : AudioPath ring) : Prop where
  fromSip : ring.Carries s.sipToMumble s.puts (s.reads.map EncoderRead.popped)
  toSip : ring.Carries s.mumbleToSip s.pushes (s.gets.map GotFrame.supplied)
  puts : s.sipToMumbleDropped + s.putDelta
    = dropped + s.otherDropped + .ofNat (s.puts.map RingBuffer.Pushed.lost).sum
  gets : s.mumbleToSipUnderflow + s.getDelta
    = underflow + s.otherUnderflow + .ofNat (s.gets.map GotFrame.missing).sum
  pushes : s.droppedSamples = .ofNat (s.pushes.map RingBuffer.Pushed.lost).sum
  reading : s.encoderReading = true → frameSamples ≤ ring.occupiedLen s.sipToMumble
  pcmBuf : s.pcmBuf.length = frameSamples
  reads : ∀ read ∈ s.reads,
    read.popped.length = frameSamples ∧ read.pcmBuf = read.popped ∧ read.zeroFilled = false
  filled : ∀ got ∈ s.gets, got.Filled

theorem accounts_start :
    (start ring frameSamples dropped underflow).Accounts frameSamples dropped underflow where
  fromSip := RingBuffer.carries_empty
  toSip := RingBuffer.carries_empty
  puts := (UInt64.add_zero _).symm
  gets := (UInt64.add_zero _).symm
  pushes := rfl
  reading := fun h => by cases h
  pcmBuf := List.length_replicate
  reads := fun _ h => by cases h
  filled := fun _ h => by cases h

theorem ofNat_sum_append {α : Type} (f : α → Nat) (xs : List α) (x : α) :
    UInt64.ofNat ((xs ++ [x]).map f).sum = .ofNat (xs.map f).sum + .ofNat (f x) := by
  rw [List.map_append, List.sum_append, List.map_singleton, List.sum_singleton, UInt64.ofNat_add]

theorem Accounts.putFrame (h : s.Accounts frameSamples dropped underflow) (hidle : s.putDelta = 0)
    (frame : PjFrame) : (s.portPutFrame frame).Accounts frameSamples dropped underflow := by
  rcases s.portPutFrame_cases frame with ⟨_, hsame⟩ | ⟨samples, _, hpush⟩
  · rw [hsame]
    exact h
  · rw [hpush]
    have hputs := h.puts
    rw [hidle, UInt64.add_zero] at hputs
    refine { h with fromSip := h.fromSip.push samples, puts := ?_, reading := ?_ }
    · show s.sipToMumbleDropped + _ = _
      rw [ofNat_sum_append, hputs, UInt64.add_assoc]
    · intro hreading
      exact Nat.le_trans (h.reading hreading) (ring.occupiedLen_push _ _)

theorem Accounts.give (h : s.Accounts frameSamples dropped underflow) {r : ring.State} {delta : UInt64}
    {got : GotFrame} (hcarries : ring.Carries r s.pushes (s.gets.map GotFrame.supplied ++ [got.supplied]))
    (hdelta : delta = s.getDelta + .ofNat got.missing) (hfilled : got.Filled) :
    ({ s with mumbleToSip := r, getDelta := delta, gets := s.gets ++ [got] } : AudioPath ring).Accounts
      frameSamples dropped underflow := by
  refine { h with toSip := ?_, gets := ?_, filled := ?_ }
  · show ring.Carries r s.pushes ((s.gets ++ [got]).map GotFrame.supplied)
    rw [List.map_append]
    exact hcarries
  · show s.mumbleToSipUnderflow + delta = underflow + s.otherUnderflow + _
    rw [ofNat_sum_append, ← UInt64.add_assoc, ← h.gets, hdelta, UInt64.add_assoc]
  · exact List.forall_mem_append.2 ⟨h.filled, List.forall_mem_singleton.2 hfilled⟩

theorem Accounts.getFrame (h : s.Accounts frameSamples dropped underflow) (hidle : s.getDelta = 0)
    (frame : PjFrame) : (s.portGetFrame frame).Accounts frameSamples dropped underflow := by
  rcases s.portGetFrame_cases frame with ⟨hempty, hget⟩ | ⟨buf, hbuf, hget⟩
  · have hmissing : GotFrame.missing ⟨frame, { frame with type := .none }, []⟩ = 0 := by
      rw [GotFrame.missing, hempty]
      rfl
    rw [hget]
    apply h.give h.toSip.pop_nil
    · rw [hmissing]
      exact (UInt64.add_zero _).symm
    · refine ⟨Nat.zero_le _, ?_⟩
      rw [hmissing]
      show frame.buf = frame.buf.map fun _ => []
      cases hbuf : frame.buf with
      | none => rfl
      | some buf =>
        rw [hbuf, Option.getD_some] at hempty
        rw [hempty]
        rfl
  · have hmissing : ∀ after supplied,
        GotFrame.missing ⟨frame, after, supplied⟩ = buf.length - supplied.length := by
      intro after supplied
      rw [GotFrame.missing, hbuf, Option.getD_some]
    have hle := ring.length_popped_le s.mumbleToSip buf.length
    rw [hget, fillFrame_eq hle]
    apply h.give (h.toSip.pop buf.length)
    · rw [hidle, UInt64.zero_add, hmissing]
    · refine ⟨?_, ?_⟩
      · rw [hbuf]
        exact hle
      · rw [hbuf, Option.map_some, hmissing]

theorem Accounts.encoderReads (h : s.Accounts frameSamples dropped underflow)
    (hreading : s.encoderReading = true) : (s.encoderReads frameSamples).Accounts frameSamples dropped underflow := by
  have hfull := ring.length_popped _ _ (h.reading hreading)
  rw [encoderReads_eq (h.reading hreading) h.pcmBuf]
  refine { h with fromSip := ?_, reading := ?_, pcmBuf := hfull, reads := ?_ }
  · show ring.Carries (ring.pop s.sipToMumble frameSamples) s.puts ((s.reads ++ [_]).map EncoderRead.popped)
    rw [List.map_append]
    exact h.fromSip.pop frameSamples
  · intro hagain
    cases hagain
  · exact List.forall_mem_append.2 ⟨h.reads, List.forall_mem_singleton.2 ⟨hfull, rfl, rfl⟩⟩

theorem Accounts.decoderPushes (h : s.Accounts frameSamples dropped underflow) (mixedFrame : Pcm) :
    (s.decoderPushes mixedFrame).Accounts frameSamples dropped underflow := by
  refine { h with toSip := h.toSip.push mixedFrame, pushes := ?_ }
  show (if ring.written s.mumbleToSip mixedFrame < mixedFrame.length then _ else s.droppedSamples)
    = UInt64.ofNat ((s.pushes ++ [_]).map RingBuffer.Pushed.lost).sum
  rw [ofNat_sum_append, ← h.pushes]
  show _ = s.droppedSamples + .ofNat (mixedFrame.length - ring.written s.mumbleToSip mixedFrame)
  split
  · rfl
  · rw [show mixedFrame.length - ring.written s.mumbleToSip mixedFrame = 0 by omega]
    exact (UInt64.add_zero _).symm

theorem counter_between {counter delta start other lost : UInt64} (h : counter + delta = start + other + lost)
    (added : UInt64) : counter + added + delta = start + (other + added) + lost := by
  calc counter + added + delta
      = counter + delta + added := by ac_rfl
    _ = start + other + lost + added := by rw [h]
    _ = start + (other + added) + lost := by ac_rfl

theorem Accounts.next (h : s.Accounts frameSamples dropped underflow) {a : PathAction ring}
    (henabled : s.enabled a) : (s.next frameSamples a).Accounts frameSamples dropped underflow := by
  cases a with
  | sipToMumbleSees view =>
    refine { h with fromSip := h.fromSip.see view, reading := ?_ }
    intro hreading
    exact Nat.le_trans (h.reading hreading) (ring.occupiedLen_see _ _)
  | mumbleToSipSees view => exact { h with toSip := h.toSip.see view }
  | putFrame frame => exact h.putFrame henabled frame
  | putFrameTracks =>
    refine { h with puts := ?_ }
    show trackSamples s.sipToMumbleDropped s.putDelta + 0 = _
    rw [trackSamples_eq, UInt64.add_zero]
    exact h.puts
  | encoderTick =>
    refine { h with reading := ?_ }
    intro hreading
    exact of_decide_eq_true hreading
  | encoderReads => exact h.encoderReads henabled
  | decoderPushes mixedFrame => exact h.decoderPushes mixedFrame
  | getFrame frame => exact h.getFrame henabled frame
  | getFrameTracks =>
    refine { h with gets := ?_ }
    show trackSamples s.mumbleToSipUnderflow s.getDelta + 0 = _
    rw [trackSamples_eq, UInt64.add_zero]
    exact h.gets
  | otherCalls dropped' underflow' =>
    refine { h with puts := ?_, gets := ?_ }
    · show trackSamples s.sipToMumbleDropped dropped' + s.putDelta = dropped + (s.otherDropped + dropped') + _
      rw [trackSamples_eq]
      exact counter_between h.puts dropped'
    · show trackSamples s.mumbleToSipUnderflow underflow' + s.getDelta
        = underflow + (s.otherUnderflow + underflow') + _
      rw [trackSamples_eq]
      exact counter_between h.gets underflow'

theorem accounts_of_reachable (hs : (audioPath ring frameSamples dropped underflow).Reachable s) :
    s.Accounts frameSamples dropped underflow := by
  apply hs.invariant (I := Accounts frameSamples dropped underflow)
  · rintro s rfl
    exact accounts_start
  · intro s a _ h henabled _
    exact h.next henabled

/-! ### What a run has done -/

/-- The lists say what the threads have done in the run, and the last two numbers what other calls have. -/
structure Recalls (actions : List (PathAction ring)) (s : AudioPath ring) : Prop where
  puts : s.puts.map RingBuffer.Pushed.elements = actions.filterMap PathAction.put
  reads : s.reads.length = actions.countP PathAction.isRead
  pushes : s.pushes.map RingBuffer.Pushed.elements = actions.filterMap PathAction.pushed
  gets : s.gets.map GotFrame.before = actions.filterMap PathAction.got
  otherDropped : s.otherDropped = actions.foldl (fun total a => total + a.others.1) 0
  otherUnderflow : s.otherUnderflow = actions.foldl (fun total a => total + a.others.2) 0

variable {actions : List (PathAction ring)}

theorem Recalls.concat (h : s.Recalls actions) {s' : AudioPath ring} {a : PathAction ring}
    (hputs : s'.puts.map RingBuffer.Pushed.elements = s.puts.map RingBuffer.Pushed.elements ++ a.put.toList)
    (hreads : s'.reads.length = s.reads.length + if a.isRead then 1 else 0)
    (hpushes : s'.pushes.map RingBuffer.Pushed.elements
      = s.pushes.map RingBuffer.Pushed.elements ++ a.pushed.toList)
    (hgets : s'.gets.map GotFrame.before = s.gets.map GotFrame.before ++ a.got.toList)
    (hothers : s'.otherDropped = s.otherDropped + a.others.1 ∧ s'.otherUnderflow = s.otherUnderflow + a.others.2) :
    s'.Recalls (actions ++ [a]) where
  puts := by rw [hputs, h.puts, System.filterMap_concat]
  reads := by rw [hreads, h.reads, List.countP_append, List.countP_singleton]
  pushes := by rw [hpushes, h.pushes, System.filterMap_concat]
  gets := by rw [hgets, h.gets, System.filterMap_concat]
  otherDropped := by rw [hothers.1, h.otherDropped, List.foldl_append, List.foldl_cons, List.foldl_nil]
  otherUnderflow := by rw [hothers.2, h.otherUnderflow, List.foldl_append, List.foldl_cons, List.foldl_nil]

theorem Recalls.pass (h : s.Recalls actions) {s' : AudioPath ring} {a : PathAction ring}
    (hnone : a.put = none ∧ a.isRead = false ∧ a.pushed = none ∧ a.got = none ∧ a.others = (0, 0))
    (hsame : s'.puts = s.puts ∧ s'.reads = s.reads ∧ s'.pushes = s.pushes ∧ s'.gets = s.gets ∧
      s'.otherDropped = s.otherDropped ∧ s'.otherUnderflow = s.otherUnderflow) : s'.Recalls (actions ++ [a]) := by
  obtain ⟨hput, hread, hpushed, hgot, hothers⟩ := hnone
  obtain ⟨hputs, hreads, hpushes, hgets, hdropped, hunderflow⟩ := hsame
  refine h.concat ?_ ?_ ?_ ?_ ⟨?_, ?_⟩
  · rw [hputs, hput, Option.toList_none, List.append_nil]
  · rw [hreads, hread]
    rfl
  · rw [hpushes, hpushed, Option.toList_none, List.append_nil]
  · rw [hgets, hgot, Option.toList_none, List.append_nil]
  · rw [hdropped, hothers, UInt64.add_zero]
  · rw [hunderflow, hothers, UInt64.add_zero]

theorem Recalls.next (h : s.Recalls actions) (a : PathAction ring) :
    (s.next frameSamples a).Recalls (actions ++ [a]) := by
  cases a with
  | sipToMumbleSees view => exact h.pass ⟨rfl, rfl, rfl, rfl, rfl⟩ ⟨rfl, rfl, rfl, rfl, rfl, rfl⟩
  | mumbleToSipSees view => exact h.pass ⟨rfl, rfl, rfl, rfl, rfl⟩ ⟨rfl, rfl, rfl, rfl, rfl, rfl⟩
  | putFrame frame =>
    show (s.portPutFrame frame).Recalls _
    rcases s.portPutFrame_cases frame with ⟨hnone, hsame⟩ | ⟨samples, hsome, hpush⟩
    · rw [hsame]
      exact h.pass ⟨hnone, rfl, rfl, rfl, rfl⟩ ⟨rfl, rfl, rfl, rfl, rfl, rfl⟩
    · rw [hpush]
      refine h.concat ?_ rfl (List.append_nil _).symm (List.append_nil _).symm
        ⟨(UInt64.add_zero _).symm, (UInt64.add_zero _).symm⟩
      show (s.puts ++ [ring.pushed s.sipToMumble samples]).map RingBuffer.Pushed.elements
        = _ ++ frame.samples.toList
      rw [List.map_append, hsome]
      rfl
  | putFrameTracks => exact h.pass ⟨rfl, rfl, rfl, rfl, rfl⟩ ⟨rfl, rfl, rfl, rfl, rfl, rfl⟩
  | encoderTick => exact h.pass ⟨rfl, rfl, rfl, rfl, rfl⟩ ⟨rfl, rfl, rfl, rfl, rfl, rfl⟩
  | encoderReads =>
    refine h.concat (List.append_nil _).symm ?_ (List.append_nil _).symm (List.append_nil _).symm
      ⟨(UInt64.add_zero _).symm, (UInt64.add_zero _).symm⟩
    exact List.length_append
  | decoderPushes mixedFrame =>
    exact h.concat (List.append_nil _).symm rfl List.map_append (List.append_nil _).symm
      ⟨(UInt64.add_zero _).symm, (UInt64.add_zero _).symm⟩
  | getFrame frame =>
    show (s.portGetFrame frame).Recalls _
    rcases s.portGetFrame_cases frame with ⟨_, hget⟩ | ⟨_, _, hget⟩
    · rw [hget]
      exact h.concat (List.append_nil _).symm rfl (List.append_nil _).symm List.map_append
        ⟨(UInt64.add_zero _).symm, (UInt64.add_zero _).symm⟩
    · rw [hget]
      exact h.concat (List.append_nil _).symm rfl (List.append_nil _).symm List.map_append
        ⟨(UInt64.add_zero _).symm, (UInt64.add_zero _).symm⟩
  | getFrameTracks => exact h.pass ⟨rfl, rfl, rfl, rfl, rfl⟩ ⟨rfl, rfl, rfl, rfl, rfl, rfl⟩
  | otherCalls dropped' underflow' =>
    exact h.concat (List.append_nil _).symm rfl (List.append_nil _).symm (List.append_nil _).symm ⟨rfl, rfl⟩

theorem recalls_of_trace (hs : (audioPath ring frameSamples dropped underflow).Trace System.anyStep actions s) :
    s.Recalls actions := by
  apply hs.invariant (I := fun actions s => s.Recalls actions)
  · rintro s rfl
    exact ⟨rfl, rfl, rfl, rfl, rfl, rfl⟩
  · intro actions s a _ h _ _
    exact h.next a

end AudioPath

/-- In every state that is reached: what the encoder and `port_get_frame` have taken out, with what is in the
ring buffers, is what was accepted of the frames, in order; the counters have grown by what was not accepted and
by what was not supplied, apart from a delta on its way and from other calls; every buffer that
`port_get_frame` has filled is full, with zeros at its end; and the encoder has read whole frames only. The frames
and the reads are those of the run. -/
theorem audioPath_conserves {ring : RingBuffer Int16} {frameSamples : Nat} {dropped underflow : UInt64}
    {s : AudioPath ring} (hs : (audioPath ring frameSamples dropped underflow).Reachable s) :
    (s.reads.flatMap EncoderRead.popped ++ ring.queue s.sipToMumble
        = s.puts.flatMap RingBuffer.Pushed.accepted ∧
      s.gets.flatMap GotFrame.supplied ++ ring.queue s.mumbleToSip
        = s.pushes.flatMap RingBuffer.Pushed.accepted) ∧
    (s.sipToMumbleDropped + s.putDelta
        = dropped + s.otherDropped + .ofNat (s.puts.map RingBuffer.Pushed.lost).sum ∧
      s.mumbleToSipUnderflow + s.getDelta
        = underflow + s.otherUnderflow + .ofNat (s.gets.map GotFrame.missing).sum ∧
      s.droppedSamples = .ofNat (s.pushes.map RingBuffer.Pushed.lost).sum) ∧
    (∀ got ∈ s.gets, got.Filled) ∧
    (∀ read ∈ s.reads,
      read.popped.length = frameSamples ∧ read.pcmBuf = read.popped ∧ read.zeroFilled = false) ∧
    ∀ actions, (audioPath ring frameSamples dropped underflow).Trace System.anyStep actions s →
      s.Recalls actions := by
  have h := AudioPath.accounts_of_reachable hs
  refine ⟨⟨?_, ?_⟩, ⟨h.puts, h.gets, h.pushes⟩, h.filled, h.reads, fun actions => AudioPath.recalls_of_trace⟩
  · rw [List.flatMap_def]
    exact h.fromSip
  · rw [List.flatMap_def]
    exact h.toSip

/-- The second frame comes between the check and the read of the encoder and is cut off; the last buffer is
filled up with zeros. -/
theorem audioPath_conserves_partial : ∃ s, (audioPath (.bounded Int16 3) 2 100 0).Reachable s ∧
    (s.sipToMumbleDropped = 102 ∧ s.mumbleToSipUnderflow = 2 ∧ s.gets.map GotFrame.after
      = [⟨.audio, some [7, 8, 0, 0]⟩]) ∧
    s.reads.flatMap EncoderRead.popped ++ RingBuffer.queue _ s.sipToMumble
      = s.puts.flatMap RingBuffer.Pushed.accepted ∧
    ∃ actions, (audioPath (.bounded Int16 3) 2 100 0).Trace System.anyStep actions s ∧
      s.puts.map RingBuffer.Pushed.elements = actions.filterMap PathAction.put := by
  obtain ⟨s, hs, hdone⟩ := System.exists_reaches_of_run (audioPath (.bounded Int16 3) 2 100 0) System.anyStep
    (s := .start _ 2 100 0) rfl
    [.putFrame ⟨.audio, some [1, 2]⟩, .sipToMumbleSees (0, 2), .encoderTick, .putFrame ⟨.audio, some [3, 4, 5]⟩,
      .encoderReads, .putFrameTracks, .decoderPushes [7, 8, 9, 10], .mumbleToSipSees (0, 2),
      .getFrame ⟨.audio, some [6, 6, 6, 6]⟩, .getFrameTracks]
    (fun s => decide (s.sipToMumbleDropped = 102) && decide (s.mumbleToSipUnderflow = 2) &&
      decide (s.gets.map GotFrame.after = [⟨.audio, some [7, 8, 0, 0]⟩])) (by decide)
  rw [Bool.and_eq_true, Bool.and_eq_true, decide_eq_true_iff, decide_eq_true_iff, decide_eq_true_iff] at hdone
  obtain ⟨⟨hqueue, _⟩, _, _, _, hrecalls⟩ := audioPath_conserves hs
  obtain ⟨actions, htrace⟩ := hs.exists_trace
  exact ⟨s, hs, ⟨hdone.1.1, hdone.1.2, hdone.2⟩, hqueue, actions, htrace, (hrecalls actions htrace).puts⟩

end MumbleSip
