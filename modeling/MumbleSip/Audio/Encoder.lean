import MumbleSip.Audio.Cache
import Mathlib.Data.Nat.Count
import Mathlib.Algebra.Order.Field.Rat
import Mathlib.Tactic.NormNum

/-!
# The encoder

The loop of `AudioBridge::spawn_encoder` in `bridge.rs`, over the full frames it reads from the ring buffer.
The gate is proved for any classification of the frames, and `spawnEncoder` is the loop with the one of the
bridge. What `encoder.encode` and `opus_tx.try_send` return is given with the frame.
-/

namespace MumbleSip

abbrev Bytes := List UInt8

/-- `FRAME_DURATION_MS`. -/
def frameDurationMs : Nat := 10

/-- `SILENCE_HOLD_FRAMES_MAX`. -/
def silenceHoldFramesMax : Nat := 200 / frameDurationMs

/-- `SILENCE_AVG_ABS_THRESHOLD`, as a rational: `0.001 * i16::MAX`. -/
def silenceAvgAbsThreshold : ℚ := 32767 / 1000

/-- `avg_abs`, as a rational. -/
def avgAbs (frameSamples : Nat) (pcm : Pcm) : ℚ :=
  ((pcm.map fun sample => sample.toInt.natAbs).sum : Nat) / (frameSamples : ℚ)

/-- `above_threshold`. A frame without a sample is not: its average is not a number. -/
def aboveThreshold (frameSamples : Nat) (pcm : Pcm) : Bool :=
  decide (silenceAvgAbsThreshold ≤ avgAbs frameSamples pcm)

inductive TransmitState
  | transmitting
  | terminator
  | silent
  deriving DecidableEq

/-- The variables of the gate. -/
structure Gate where
  wasTransmitting : Bool
  holdFrames : Nat
  deriving DecidableEq

def Gate.transmitState (gate : Gate) (aboveThreshold : Bool) : TransmitState × Gate :=
  if aboveThreshold then (.transmitting, ⟨true, 0⟩)
  else if gate.wasTransmitting && decide (gate.holdFrames < silenceHoldFramesMax) then
    (.transmitting, { gate with holdFrames := gate.holdFrames + 1 })
  else if gate.wasTransmitting then (.terminator, ⟨false, 0⟩)
  else (.silent, gate)

inductive SendResult
  | ok
  | full
  | closed
  deriving DecidableEq

/-- A frame of the ring buffer, with what `encode` makes of a buffer and what `try_send` returns. -/
structure Frame where
  pcm : Pcm
  encode : Pcm → Option Bytes
  trySend : SendResult

/-- `(seq_num, opus_data, end_of_transmission)`. -/
structure OpusFrame where
  seqNum : Nat
  opusData : Bytes
  endOfTransmission : Bool
  deriving DecidableEq

/-- The variables of the loop; `seq_num` does not get to the end of its `u64`. -/
structure Encoder where
  gate : Gate
  seqNum : Nat
  closed : Bool
  deriving DecidableEq

def Encoder.start : Encoder := ⟨⟨false, 0⟩, 0, false⟩

/-- What a run of the loop depends on. -/
structure EncoderInput where
  frameSamples : Nat
  aboveThreshold : Pcm → Bool
  frames : Nat → Frame

/-- The loop of the bridge. -/
def spawnEncoder (frameSamples : Nat) (frames : Nat → Frame) : EncoderInput :=
  ⟨frameSamples, aboveThreshold frameSamples, frames⟩

namespace EncoderInput

variable (input : EncoderInput)

/-- The buffer that is encoded, and `end_of_transmission`. -/
def frameToEncode (pcm : Pcm) : TransmitState → Option (Pcm × Bool)
  | .transmitting => some (pcm, false)
  | .terminator => some (List.replicate input.frameSamples 0, true)
  | .silent => none

def transmitState (e : Encoder) (frame : Frame) : TransmitState × Gate :=
  e.gate.transmitState (input.aboveThreshold frame.pcm)

/-- What is offered to the queue for a frame, and the answer of the queue. -/
def offer (e : Encoder) (frame : Frame) : Option (OpusFrame × SendResult) :=
  match input.frameToEncode frame.pcm (input.transmitState e frame).1 with
  | none => none
  | some (buffer, endOfTransmission) =>
    (frame.encode buffer).map fun opusData => (⟨e.seqNum, opusData, endOfTransmission⟩, frame.trySend)

/-- A turn of the loop. -/
def turn (e : Encoder) (frame : Frame) : Encoder where
  gate := (input.transmitState e frame).2
  seqNum := if (input.offer e frame).isSome then e.seqNum + 1 else e.seqNum
  closed := (input.offer e frame).any fun sent => sent.2 = .closed

/-- Before frame `n` is read. -/
def encoder : Nat → Encoder
  | 0 => .start
  | n + 1 => if (encoder n).closed then encoder n else input.turn (encoder n) (input.frames n)

/-- What the gate says of frame `n`, if the loop reads it. -/
def transmit (n : Nat) : Option TransmitState :=
  if (input.encoder n).closed then none
  else some (input.transmitState (input.encoder n) (input.frames n)).1

/-- What is offered to the queue for frame `n`, and the answer of the queue. -/
def sent (n : Nat) : Option (OpusFrame × SendResult) :=
  if (input.encoder n).closed then none else input.offer (input.encoder n) (input.frames n)

/-- Frame `n` is above the threshold. -/
def loud (n : Nat) : Prop := input.aboveThreshold (input.frames n).pcm = true

instance (n : Nat) : Decidable (input.loud n) := inferInstanceAs (Decidable (_ = _))

/-- A loud frame occurs among the frame and the twenty before it. -/
def Voice (n : Nat) : Prop := ∃ j, j ≤ n ∧ n ≤ j + 20 ∧ input.loud j

/-- The last loud frame is 21 frames ago. -/
def Terminates (n : Nat) : Prop := ∃ j, j + 21 = n ∧ input.loud j ∧ ∀ m, j < m → m ≤ n → ¬input.loud m

variable {input} {n : Nat}

/-! ### The gate -/

theorem open_of_succ (h : (input.encoder (n + 1)).closed = false) : (input.encoder n).closed = false := by
  cases hclosed : (input.encoder n).closed with
  | false => rfl
  | true =>
    simp only [encoder, hclosed, if_true] at h
    exact h

theorem encoder_succ (h : (input.encoder n).closed = false) :
    input.encoder (n + 1) = input.turn (input.encoder n) (input.frames n) := by
  simp only [encoder, h, Bool.false_eq_true, if_false]

theorem transmit_of_open (h : (input.encoder n).closed = false) :
    input.transmit n = some (input.transmitState (input.encoder n) (input.frames n)).1 := by
  simp only [transmit, h, Bool.false_eq_true, if_false]

theorem sent_of_open (h : (input.encoder n).closed = false) :
    input.sent n = input.offer (input.encoder n) (input.frames n) := by
  simp only [sent, h, Bool.false_eq_true, if_false]

theorem open_of_transmit {state : TransmitState} (h : input.transmit n = some state) :
    (input.encoder n).closed = false := by
  cases hclosed : (input.encoder n).closed with
  | false => rfl
  | true =>
    simp only [transmit, hclosed, if_true] at h
    cases h

theorem open_of_sent {sent : OpusFrame × SendResult} (h : input.sent n = some sent) :
    (input.encoder n).closed = false := by
  cases hclosed : (input.encoder n).closed with
  | false => rfl
  | true =>
    simp only [EncoderInput.sent, hclosed, if_true] at h
    cases h

/-- What the gate remembers of the frames before frame `n`: how long ago the last loud one was, or that it was
too long ago. -/
def Remembers (input : EncoderInput) (n : Nat) (gate : Gate) : Prop :=
  (∃ j, input.loud j ∧ (∀ m, j < m → m < n → ¬input.loud m) ∧ gate.wasTransmitting = true ∧
      j + 1 + gate.holdFrames = n ∧ gate.holdFrames ≤ silenceHoldFramesMax) ∨
    gate = ⟨false, 0⟩ ∧ ∀ j < n, input.loud j → j + 21 < n

/-- The gate's answer for frame `n` is the one the window calls for. -/
def Judged (input : EncoderInput) (n : Nat) (state : TransmitState) : Prop :=
  (state = .transmitting ∧ input.Voice n ∧ ¬input.Terminates n) ∨
    (state = .terminator ∧ ¬input.Voice n ∧ input.Terminates n) ∨
    (state = .silent ∧ ¬input.Voice n ∧ ¬input.Terminates n)

theorem transmitState_loud (gate : Gate) (hn : input.loud n) :
    input.Judged n (gate.transmitState true).1 ∧ input.Remembers (n + 1) (gate.transmitState true).2 := by
  refine ⟨.inl ⟨rfl, ⟨n, Nat.le_refl n, by omega, hn⟩, ?_⟩, .inl ⟨n, hn, ?_, rfl, rfl, Nat.zero_le _⟩⟩
  · rintro ⟨j, hj, _, hquiet⟩
    exact hquiet n (by omega) (Nat.le_refl n) hn
  · intro m hm hm'
    omega

/-- A quiet frame, when the last loud one is `j`. -/
theorem transmitState_held {gate : Gate} {j : Nat} (hj : input.loud j)
    (hlast : ∀ m, j < m → m < n + 1 → ¬input.loud m) (hwas : gate.wasTransmitting = true)
    (hage : j + 1 + gate.holdFrames = n) (hhold : gate.holdFrames ≤ silenceHoldFramesMax) :
    input.Judged n (gate.transmitState false).1 ∧ input.Remembers (n + 1) (gate.transmitState false).2 := by
  have hmax : silenceHoldFramesMax = 20 := rfl
  by_cases hmore : gate.holdFrames < silenceHoldFramesMax
  · have hstep : gate.transmitState false
        = (.transmitting, { gate with holdFrames := gate.holdFrames + 1 }) := by
      simp only [Gate.transmitState, hwas, hmore, decide_true, Bool.and_self, if_true,
        Bool.false_eq_true, if_false]
    rw [hstep]
    refine ⟨.inl ⟨rfl, ⟨j, by omega, by omega, hj⟩, ?_⟩, .inl ⟨j, hj, hlast, hwas, ?_, hmore⟩⟩
    · rintro ⟨j', hj', _, hquiet'⟩
      exact hquiet' j (by omega) (by omega) hj
    · show j + 1 + (gate.holdFrames + 1) = n + 1
      omega
  · have hstep : gate.transmitState false = (.terminator, ⟨false, 0⟩) := by
      simp only [Gate.transmitState, hwas, hmore, decide_false, Bool.and_false, if_true,
        Bool.false_eq_true, if_false]
    have hlatest : ∀ m ≤ n, input.loud m → m ≤ j := by
      intro m hm hm'
      by_contra hlt
      exact hlast m (by omega) (by omega) hm'
    rw [hstep]
    refine ⟨.inr (.inl ⟨rfl, ?_, ⟨j, by omega, hj, fun m hm hm' => hlast m hm (by omega)⟩⟩),
      .inr ⟨rfl, fun m hm hm' => ?_⟩⟩
    · rintro ⟨j', hj', hwindow, hloud'⟩
      have := hlatest j' hj' hloud'
      omega
    · have := hlatest m (by omega) hm'
      omega

theorem transmitState_idle (hold : ∀ j ≤ n, input.loud j → j + 21 < n) :
    input.Judged n ((⟨false, 0⟩ : Gate).transmitState false).1 ∧
      input.Remembers (n + 1) ((⟨false, 0⟩ : Gate).transmitState false).2 := by
  refine ⟨.inr (.inr ⟨rfl, ?_, ?_⟩), .inr ⟨rfl, fun j hj hj' => ?_⟩⟩
  · rintro ⟨j, hj, hwindow, hj'⟩
    have := hold j hj hj'
    omega
  · rintro ⟨j, hj, hj', _⟩
    have := hold j (by omega) hj'
    omega
  · have := hold j (by omega) hj'
    omega

theorem Remembers.transmitState {gate : Gate} (h : input.Remembers n gate) (loud : Bool)
    (hloud : input.loud n ↔ loud = true) :
    input.Judged n (gate.transmitState loud).1 ∧ input.Remembers (n + 1) (gate.transmitState loud).2 := by
  cases loud with
  | true => exact transmitState_loud gate (hloud.2 rfl)
  | false =>
    have hn : ¬input.loud n := fun hn => Bool.false_ne_true (hloud.1 hn)
    rcases h with ⟨j, hj, hlast, hwas, hage, hhold⟩ | ⟨hgate, hold⟩
    · apply transmitState_held hj _ hwas hage hhold
      intro m hm hm'
      rcases Nat.lt_succ_iff_lt_or_eq.1 hm' with hlt | heq
      · exact hlast m hm hlt
      · rw [heq]
        exact hn
    · rw [hgate]
      apply transmitState_idle
      intro j hj hj'
      rcases Nat.lt_or_eq_of_le hj with hlt | heq
      · exact hold j hlt hj'
      · rw [heq] at hj'
        exact absurd hj' hn

theorem remembers_encoder (hopen : (input.encoder n).closed = false) :
    input.Remembers n (input.encoder n).gate := by
  induction n with
  | zero => exact .inr ⟨rfl, fun j hj => absurd hj (Nat.not_lt_zero j)⟩
  | succ n ih =>
    have hopen' := open_of_succ hopen
    rw [encoder_succ hopen']
    exact ((ih hopen').transmitState (input.aboveThreshold (input.frames n).pcm) Iff.rfl).2

theorem transmit_cases (hopen : (input.encoder n).closed = false) :
    (input.transmit n = some .transmitting ∧ input.Voice n ∧ ¬input.Terminates n) ∨
      (input.transmit n = some .terminator ∧ ¬input.Voice n ∧ input.Terminates n) ∨
      (input.transmit n = some .silent ∧ ¬input.Voice n ∧ ¬input.Terminates n) := by
  have hgate := ((remembers_encoder hopen).transmitState
    (input.aboveThreshold (input.frames n).pcm) Iff.rfl).1
  rw [transmit_of_open hopen, Option.some_inj, Option.some_inj, Option.some_inj]
  exact hgate

theorem transmit_transmitting (hopen : (input.encoder n).closed = false) :
    input.transmit n = some .transmitting ↔ input.Voice n := by
  rcases transmit_cases hopen with ⟨heq, hvoice, _⟩ | ⟨heq, hvoice, _⟩ | ⟨heq, hvoice, _⟩
  · simp only [heq, hvoice]
  · simp only [heq, hvoice, iff_false]
    nofun
  · simp only [heq, hvoice, iff_false]
    nofun

theorem transmit_terminator (hopen : (input.encoder n).closed = false) :
    input.transmit n = some .terminator ↔ input.Terminates n := by
  rcases transmit_cases hopen with ⟨heq, _, hends⟩ | ⟨heq, _, hends⟩ | ⟨heq, _, hends⟩
  · simp only [heq, hends, iff_false]
    nofun
  · simp only [heq, hends]
  · simp only [heq, hends, iff_false]
    nofun

/-- Frame `n` is offered to the queue if the gate lets it through and it is encoded. -/
theorem sent_eq (hopen : (input.encoder n).closed = false) :
    (input.Voice n → input.sent n = ((input.frames n).encode (input.frames n).pcm).map
      fun opusData => (⟨(input.encoder n).seqNum, opusData, false⟩, (input.frames n).trySend)) ∧
    (input.Terminates n → input.sent n
      = ((input.frames n).encode (List.replicate input.frameSamples 0)).map
        fun opusData => (⟨(input.encoder n).seqNum, opusData, true⟩, (input.frames n).trySend)) ∧
    (¬input.Voice n → ¬input.Terminates n → input.sent n = none) := by
  have htransmit := transmit_of_open hopen
  rw [sent_of_open hopen, offer]
  rcases transmit_cases hopen with ⟨heq, hvoice, hends⟩ | ⟨heq, hvoice, hends⟩ | ⟨heq, hvoice, hends⟩ <;>
    rw [Option.some.inj (htransmit.symm.trans heq)]
  · exact ⟨fun _ => rfl, fun h => absurd h hends, fun h => absurd hvoice h⟩
  · exact ⟨fun h => absurd h hvoice, fun _ => rfl, fun _ h => absurd hends h⟩
  · exact ⟨fun h => absurd h hvoice, fun h => absurd h hends, fun _ _ => rfl⟩

/-! ### Sequence numbers -/

/-- The queue has taken what was offered for frame `n`. -/
def delivered (input : EncoderInput) (n : Nat) : Bool := (input.sent n).any fun sent => sent.2 = .ok

/-- What was offered for frame `n` has been dropped on a full queue. -/
def dropped (input : EncoderInput) (n : Nat) : Bool := (input.sent n).any fun sent => sent.2 = .full

/-- While the loop goes on, what is offered is taken or dropped. -/
theorem isSome_sent_iff (hopen : (input.encoder (n + 1)).closed = false) :
    (input.sent n).isSome = true ↔ input.delivered n = true ∨ input.dropped n = true := by
  have hopen' := open_of_succ hopen
  rw [encoder_succ hopen', turn, ← sent_of_open hopen'] at hopen
  simp only [delivered, dropped]
  cases hcase : input.sent n with
  | none => simp only [Option.isSome_none, Option.any_none, Bool.false_eq_true, or_self]
  | some sent =>
    rw [hcase, Option.any_some] at hopen
    rw [Option.isSome_some, Option.any_some, Option.any_some]
    cases hresult : sent.2 with
    | closed =>
      rw [hresult] at hopen
      cases hopen
    | _ => decide

theorem seqNum_encoder : (input.encoder n).seqNum = Nat.count (fun i => (input.sent i).isSome = true) n := by
  induction n with
  | zero => rfl
  | succ n ih =>
    rw [Nat.count_succ, ← ih]
    cases hclosed : (input.encoder n).closed with
    | true => simp only [encoder, sent, hclosed, if_true, Option.isSome_none, Bool.false_eq_true, if_false,
        Nat.add_zero]
    | false =>
      rw [encoder_succ hclosed, turn, ← sent_of_open hclosed]
      split <;> rfl

theorem seqNum_sent {frame : OpusFrame} {result : SendResult} (h : input.sent n = some (frame, result)) :
    frame.seqNum = Nat.count (fun i => (input.sent i).isSome = true) n := by
  rw [← seqNum_encoder]
  rw [sent_of_open (open_of_sent h), offer] at h
  split at h
  · cases h
  · obtain ⟨opusData, _, heq⟩ := Option.map_eq_some_iff.1 h
    rw [← (Prod.mk.inj heq).1]

/-- Between two frames, what is offered is what is dropped if nothing is taken. -/
theorem count_sent_between {m : Nat} (hle : m ≤ n) (hopen : (input.encoder n).closed = false)
    (hnone : ∀ i, m ≤ i → i < n → input.delivered i = false) :
    Nat.count (fun i => (input.sent i).isSome = true) n + Nat.count (fun i => input.dropped i = true) m
      = Nat.count (fun i => (input.sent i).isSome = true) m
        + Nat.count (fun i => input.dropped i = true) n := by
  induction n with
  | zero =>
    rw [Nat.le_zero.1 hle]
  | succ n ih =>
    rcases Nat.le_succ_iff.1 hle with hle' | heq
    · have hih := ih hle' (open_of_succ hopen) fun i hi hi' => hnone i hi (Nat.lt_succ_of_lt hi')
      have hsame : (input.sent n).isSome = true ↔ input.dropped n = true := by
        rw [isSome_sent_iff hopen, hnone n hle' (Nat.lt_succ_self n)]
        simp only [Bool.false_eq_true, false_or]
      rw [Nat.count_succ, Nat.count_succ, if_congr hsame rfl rfl]
      omega
    · rw [heq, Nat.add_comm]

/-! ### Talk spurts -/

theorem open_of_le {m : Nat} (hle : m ≤ n) (hopen : (input.encoder n).closed = false) :
    (input.encoder m).closed = false := by
  induction n with
  | zero =>
    rw [Nat.le_zero.1 hle]
    exact hopen
  | succ n ih =>
    rcases Nat.le_succ_iff.1 hle with hle' | heq
    · exact ih hle' (open_of_succ hopen)
    · rw [heq]
      exact hopen

theorem holdFrames_transmitState {gate : Gate} (h : gate.holdFrames ≤ silenceHoldFramesMax) (loud : Bool) :
    (gate.transmitState loud).2.holdFrames ≤ silenceHoldFramesMax := by
  unfold Gate.transmitState
  split
  · exact Nat.zero_le _
  · split
    · rename_i hmore
      exact of_decide_eq_true (Bool.and_eq_true_iff.1 hmore).2
    · split
      · exact Nat.zero_le _
      · exact h

theorem holdFrames_le : (input.encoder n).gate.holdFrames ≤ silenceHoldFramesMax := by
  induction n with
  | zero => exact Nat.zero_le _
  | succ n ih =>
    rw [encoder]
    split
    · exact ih
    · exact holdFrames_transmitState ih _

/-- After a voice frame, and up to the next one, the gate says `Terminator` exactly once: at the next frame. -/
theorem terminates_iff_succ {b : Nat} (hvoice : input.Voice b) (hlt : b < n)
    (hquiet : ∀ k, b < k → k ≤ n → ¬input.Voice k) : input.Terminates n ↔ n = b + 1 := by
  obtain ⟨j, hjb, hbj, hj⟩ := hvoice
  have hnext := hquiet (b + 1) (Nat.lt_succ_self b) hlt
  have hlatest : ∀ m ≤ b + 1, input.loud m → m ≤ j := by
    intro m hm hloud
    by_contra hjm
    exact hnext ⟨m, hm, by omega, hloud⟩
  have hage : j + 21 = b + 1 := by
    by_contra hne
    exact hnext ⟨j, by omega, by omega, hj⟩
  constructor
  · rintro ⟨j', hj', hloud', _⟩
    by_cases hle : j' ≤ b + 1
    · have := hlatest j' hle hloud'
      omega
    · exact absurd ⟨j', Nat.le_refl j', by omega, hloud'⟩ (hquiet j' (by omega) (by omega))
  · intro heq
    rw [heq]
    refine ⟨j, hage, hj, fun m hm hm' hloud => ?_⟩
    have := hlatest m hm' hloud
    omega

end EncoderInput

/-- A frame is sent as voice if a loud frame occurs among it and the twenty before it, as a silent terminator
if the last loud frame is 21 frames ago, and not at all otherwise. So a talk spurt that ends has one
terminator, right after its last voice frame. What is offered to the queue is numbered from 0, and the numbers
the queue takes leave out those it drops. -/
theorem gate_windowed (input : EncoderInput) {n : Nat} (hopen : (input.encoder n).closed = false) :
    ((input.transmit n = some .transmitting ↔ input.Voice n) ∧
      (input.transmit n = some .terminator ↔ input.Terminates n)) ∧
    ((input.Voice n → input.sent n = ((input.frames n).encode (input.frames n).pcm).map
        fun opusData => (⟨(input.encoder n).seqNum, opusData, false⟩, (input.frames n).trySend)) ∧
      (input.Terminates n → input.sent n
        = ((input.frames n).encode (List.replicate input.frameSamples 0)).map
          fun opusData => (⟨(input.encoder n).seqNum, opusData, true⟩, (input.frames n).trySend)) ∧
      (¬input.Voice n → ¬input.Terminates n → input.sent n = none)) ∧
    (input.encoder n).gate.holdFrames ≤ silenceHoldFramesMax ∧
    (∀ b < n, input.transmit b = some .transmitting →
      (∀ k, b < k → k ≤ n → input.transmit k ≠ some .transmitting) →
        (input.transmit n = some .terminator ↔ n = b + 1)) ∧
    (∀ frame result, input.sent n = some (frame, result) →
      frame.seqNum = Nat.count (fun i => (input.sent i).isSome = true) n) ∧
    ∀ m < n, ∀ frame frame', input.sent m = some (frame, .ok) → input.sent n = some (frame', .ok) →
      frame.seqNum < frame'.seqNum ∧
        ((∀ i, m < i → i < n → input.delivered i = false) → frame'.seqNum = frame.seqNum + 1
          + (Nat.count (fun i => input.dropped i = true) n
            - Nat.count (fun i => input.dropped i = true) m)) := by
  refine ⟨⟨EncoderInput.transmit_transmitting hopen, EncoderInput.transmit_terminator hopen⟩,
    EncoderInput.sent_eq hopen, EncoderInput.holdFrames_le, fun b hb hvoice hquiet => ?_,
    fun frame result => EncoderInput.seqNum_sent, fun m hm frame frame' hsent hsent' => ?_⟩
  · rw [EncoderInput.transmit_transmitting (EncoderInput.open_of_le (Nat.le_of_lt hb) hopen)] at hvoice
    rw [EncoderInput.transmit_terminator hopen]
    refine EncoderInput.terminates_iff_succ hvoice hb fun k hk hk' hvoice' => hquiet k hk hk' ?_
    exact (EncoderInput.transmit_transmitting (EncoderInput.open_of_le hk' hopen)).2 hvoice'
  · have hsome : (input.sent m).isSome = true := by
      rw [hsent]
      rfl
    have hdropped : input.dropped m = false := by
      rw [EncoderInput.dropped, hsent]
      rfl
    have hcount : Nat.count (fun i => (input.sent i).isSome = true) (m + 1)
        = Nat.count (fun i => (input.sent i).isSome = true) m + 1 :=
      Nat.count_succ_eq_succ_count_iff.2 hsome
    have hcount' : Nat.count (fun i => input.dropped i = true) (m + 1)
        = Nat.count (fun i => input.dropped i = true) m :=
      Nat.count_succ_eq_count_iff.2 (by rw [hdropped]; exact Bool.false_ne_true)
    rw [EncoderInput.seqNum_sent hsent, EncoderInput.seqNum_sent hsent']
    refine ⟨Nat.count_strict_mono hsome hm, fun hnone => ?_⟩
    have hbetween := EncoderInput.count_sent_between hm hopen fun i hi hi' => hnone i hi hi'
    have hmono := Nat.count_monotone (fun i => input.dropped i = true) (Nat.succ_le_of_lt hm)
    simp only [Nat.succ_eq_add_one] at hbetween hmono
    rw [hcount, hcount'] at hbetween
    rw [hcount'] at hmono
    omega

theorem aboveThreshold_iff {frameSamples : Nat} (hframe : 0 < frameSamples) (pcm : Pcm) :
    aboveThreshold frameSamples pcm = true ↔
      32767 * frameSamples ≤ 1000 * (pcm.map fun sample => sample.toInt.natAbs).sum := by
  have hpos : (0 : ℚ) < frameSamples := Nat.cast_pos.2 hframe
  rw [aboveThreshold, decide_eq_true_iff, avgAbs, silenceAvgAbsThreshold, div_le_div_iff₀ (by norm_num) hpos,
    mul_comm _ (1000 : ℚ)]
  exact_mod_cast Iff.rfl

/-- The gate of the bridge: a frame is sent as voice if and only if one of the last 21 frames has an average
absolute value of at least 32.767, and is the terminator if and only if the last such frame is 21 frames ago. -/
theorem transmit_spawnEncoder {frameSamples : Nat} (hframe : 0 < frameSamples) (frames : Nat → Frame) {n : Nat}
    (hopen : ((spawnEncoder frameSamples frames).encoder n).closed = false) :
    let loud i := 32767 * frameSamples ≤ 1000 * ((frames i).pcm.map fun sample => sample.toInt.natAbs).sum
    ((spawnEncoder frameSamples frames).transmit n = some .transmitting ↔ ∃ j, j ≤ n ∧ n ≤ j + 20 ∧ loud j) ∧
    ((spawnEncoder frameSamples frames).transmit n = some .terminator ↔
      ∃ j, j + 21 = n ∧ loud j ∧ ∀ m, j < m → m ≤ n → ¬loud m) := by
  have hloud : ∀ i, (spawnEncoder frameSamples frames).loud i ↔
      32767 * frameSamples ≤ 1000 * ((frames i).pcm.map fun sample => sample.toInt.natAbs).sum :=
    fun i => aboveThreshold_iff hframe (frames i).pcm
  rw [EncoderInput.transmit_transmitting hopen, EncoderInput.transmit_terminator hopen]
  simp only [EncoderInput.Voice, EncoderInput.Terminates, hloud, and_self]

/-- One loud frame and silence after it, on a queue that is full for frame 5. -/
def oneWord : EncoderInput :=
  spawnEncoder 2 fun n => ⟨if n = 0 then [1000, -1000] else [0, 0], fun pcm => some [pcm.length.toUInt8],
    if n = 5 then .full else .ok⟩

theorem gate_windowed_oneWord : oneWord.transmit 21 = some .terminator ∧
    (oneWord.sent 21).map (fun sent => sent.1.endOfTransmission) = some true ∧ oneWord.Terminates 21 := by
  have hends : oneWord.transmit 21 = some .terminator := by decide +kernel
  have hwindow := ((gate_windowed oneWord (n := 21) (by decide +kernel)).1.2).1 hends
  exact ⟨hends, by decide +kernel, hwindow⟩

end MumbleSip
