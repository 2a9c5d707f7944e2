import MumbleSip.Lib.Rounding
import MumbleSip.Audio.Wav

/-!
# Resampling

Two routines bring sound to another rate by linear interpolation, one for speech and one for the built-in
sounds. Floating-point numbers are read as rationals. An index that is out of bounds would panic, which is
`none` here, and so would a failed assertion.
-/

namespace MumbleSip

open Bytes Rounding

/-- The vector of what the turns of a loop push. -/
def collect {α : Type} (turn : ℕ → Option α) : ℕ → Option (List α)
  | 0 => some []
  | n + 1 => do
    let out ← collect turn n
    let sample ← turn n
    some (out ++ [sample])

/-- `left` of turn `i` -/
def leftIndex (ratio : ℚ) (i : ℕ) : ℕ := ⌊i / ratio⌋₊

/-- `right` of turn `i`, for an input of length `n` -/
def rightIndex (n : ℕ) (ratio : ℚ) (i : ℕ) : ℕ := min (leftIndex ratio i + 1) (n - 1)

/-- The ratio of two rates. -/
def rateRatio (inputRate outputRate : UInt32) : ℚ := outputRate.toNat / inputRate.toNat

/-- Turn `i` of the loop of `linear_resample`. -/
def linearSample (input : List ℚ) (ratio : ℚ) (i : ℕ) : Option ℚ := do
  let srcPos := i / ratio
  let left := leftIndex ratio i
  let right := rightIndex input.length ratio i
  let frac := srcPos - left
  let a ← input[left]?
  let b ← input[right]?
  some (a + (b - a) * frac)

def linearResample (input : List ℚ) (inputRate outputRate : UInt32) : Option (List ℚ) :=
  if input = [] ∨ inputRate = 0 ∨ outputRate = 0 then
    some []
  else if inputRate = outputRate then
    some input
  else
    let ratio := rateRatio inputRate outputRate
    let outputLen := (roundAway (input.length * ratio)).toNat
    collect (linearSample input ratio) outputLen

/-- `i16::from_le_bytes` on every two bytes; a single last byte is left out. -/
def pcmSamples : List UInt8 → List Int16
  | b₀ :: b₁ :: rest => (UInt16.ofNat (value [b₀, b₁])).toInt16 :: pcmSamples rest
  | _ => []

/-- `as i16` -/
def asI16 (n : ℤ) : Int16 := Int16.ofInt (max (-32768) (min n 32767))

/-- `idx` of turn `i` -/
def sourceIndex (ratio : ℚ) (i : ℕ) : ℕ := ⌊i * ratio⌋₊

/-- The sample after the one at `idx`, which stands for it at the end. -/
def nextSample (samples : List Int16) (idx : ℕ) (sample : Int16) : Int16 := samples[idx + 1]?.getD sample

/-- Turn `i` of the loop of `decode_wav_48k`. -/
def interpolatedSample (samples : List Int16) (ratio : ℚ) (i : ℕ) : Option Int16 := do
  let srcPos := i * ratio
  let idx := sourceIndex ratio i
  let frac := srcPos - idx
  let sample ← samples[idx]?
  let a : ℚ := sample.toInt
  let b : ℚ := (nextSample samples idx sample).toInt
  some (asI16 (roundAway (a + frac * (b - a))))

/-- The resampling at the end of `decode_wav_48k`. -/
def interpolate48k (samples : List Int16) (sampleRate : ℕ) : Option (List Int16) :=
  let ratio : ℚ := sampleRate / 48000
  let outLen := ⌈samples.length / ratio⌉₊
  collect (interpolatedSample samples ratio) outLen

def wavSampleRate (wavBytes : List UInt8) : ℕ := value (slice wavBytes 24 4)

/-- What `decode_wav_48k` asserts. -/
structure Pcm16Mono (wavBytes : List UInt8) : Prop where
  longEnough : wavBytes.length ≥ 44
  riff : slice wavBytes 0 4 = riffId
  wave : slice wavBytes 8 4 = waveId
  audioFormat : value (slice wavBytes 20 2) = 1
  channels : value (slice wavBytes 22 2) = 1
  sampleRate : wavSampleRate wavBytes > 0
  bitsPerSample : value (slice wavBytes 34 2) = 16

def decodeWav48k (wavBytes : List UInt8) : Option (List Int16) :=
  if wavBytes.length ≥ 44 ∧ slice wavBytes 0 4 = riffId ∧ slice wavBytes 8 4 = waveId then
    let audioFormat := value (slice wavBytes 20 2)
    let channels := value (slice wavBytes 22 2)
    let sampleRate := wavSampleRate wavBytes
    let bitsPerSample := value (slice wavBytes 34 2)
    if audioFormat = 1 ∧ channels = 1 ∧ sampleRate > 0 ∧ bitsPerSample = 16 then
      let samples := pcmSamples (wavBytes.drop 44)
      if sampleRate = 48000 then some samples else interpolate48k samples sampleRate
    else
      none
  else
    none

/-! ### Loops -/

theorem collect_eq_some {α : Type} {turn : ℕ → Option α} {n : ℕ} (h : ∀ i < n, ∃ a, turn i = some a) :
    ∃ out, collect turn n = some out ∧ out.length = n ∧ ∀ i < n, out[i]? = turn i := by
  induction n with
  | zero => exact ⟨[], rfl, rfl, fun i hi => absurd hi (Nat.not_lt_zero i)⟩
  | succ n ih =>
    obtain ⟨out, hout, hlength, hget⟩ := ih fun i hi => h i (Nat.lt_succ_of_lt hi)
    obtain ⟨sample, hsample⟩ := h n (Nat.lt_succ_self n)
    refine ⟨out ++ [sample], ?_, ?_, ?_⟩
    · rw [collect, hout, hsample]
      rfl
    · rw [List.length_append, hlength, List.length_singleton]
    · intro i hi
      by_cases hlast : i = n
      · rw [hlast, hsample, ← hlength, List.getElem?_concat_length]
      · rw [List.getElem?_append_left (by omega)]
        exact hget i (by omega)

/-! ### Resampling of speech -/

section

variable {input : List ℚ} {inputRate outputRate : UInt32} {ratio : ℚ} {n i : ℕ}

/-- `out` has a value for every turn, and each lies between the two samples that its turn reads. -/
def Interpolates (input : List ℚ) (ratio : ℚ) (out : List ℚ) : Prop :=
  ∀ i < out.length, leftIndex ratio i < input.length ∧ rightIndex input.length ratio i < input.length ∧
    ∃ a b y, input[leftIndex ratio i]? = some a ∧ input[rightIndex input.length ratio i]? = some b ∧
      out[i]? = some y ∧ min a b ≤ y ∧ y ≤ max a b

theorem rateRatio_pos (hin : 0 < inputRate) (hout : 0 < outputRate) : 0 < rateRatio inputRate outputRate := by
  have hin' : (0 : ℚ) < inputRate.toNat := Nat.cast_pos.2 (UInt32.lt_iff_toNat_lt.1 hin)
  have hout' : (0 : ℚ) < outputRate.toNat := Nat.cast_pos.2 (UInt32.lt_iff_toNat_lt.1 hout)
  exact div_pos hout' hin'

theorem rateRatio_self (hin : 0 < inputRate) : rateRatio inputRate inputRate = 1 := by
  have hin' : (0 : ℚ) < inputRate.toNat := Nat.cast_pos.2 (UInt32.lt_iff_toNat_lt.1 hin)
  exact div_self hin'.ne'

theorem leftIndex_lt (hratio : 0 < ratio) (hi : i < (roundAway (n * ratio)).toNat) :
    leftIndex ratio i < n := by
  have hpos : 0 ≤ n * ratio := mul_nonneg (Nat.cast_nonneg n) hratio.le
  have hlt : (i : ℚ) / ratio < n := (div_lt_iff₀ hratio).2 (lt_of_lt_roundAway hpos hi)
  have hsrc : 0 ≤ (i : ℚ) / ratio := div_nonneg (Nat.cast_nonneg i) hratio.le
  exact (Nat.floor_lt hsrc).2 hlt

theorem rightIndex_lt (hn : 0 < n) : rightIndex n ratio i < n := by
  unfold rightIndex
  omega

theorem toNat_roundAway {x : ℚ} (h : 0 ≤ x) : (roundAway x).toNat = ⌊x + 1 / 2⌋₊ := by
  rw [roundAway_of_nonneg h]
  exact Int.floor_toNat (x + 1 / 2)

/-- A turn within the bounds pushes a sample between the two that it reads. -/
theorem linearSample_eq (hratio : 0 < ratio) (hleft : leftIndex ratio i < input.length) :
    ∃ a b y, input[leftIndex ratio i]? = some a ∧ input[rightIndex input.length ratio i]? = some b ∧
      linearSample input ratio i = some y ∧ min a b ≤ y ∧ y ≤ max a b := by
  have hright : rightIndex input.length ratio i < input.length := rightIndex_lt (Nat.zero_lt_of_lt hleft)
  have ha := List.getElem?_eq_getElem hleft
  have hb := List.getElem?_eq_getElem hright
  have hsrc : 0 ≤ (i : ℚ) / ratio := div_nonneg (Nat.cast_nonneg i) hratio.le
  obtain ⟨h0, h1⟩ := sub_floor_mem hsrc
  refine ⟨_, _, _, ha, hb, ?_, min_le_interpolate h0 h1, interpolate_le_max h0 h1⟩
  rw [linearSample, ha, hb]
  rfl

theorem linearResample_of_ne (hinput : input ≠ []) (hin : 0 < inputRate) (hout : 0 < outputRate)
    (hne : inputRate ≠ outputRate) :
    ∃ out, linearResample input inputRate outputRate = some out ∧
      out.length = (roundAway (input.length * rateRatio inputRate outputRate)).toNat ∧
      Interpolates input (rateRatio inputRate outputRate) out := by
  have hratio := rateRatio_pos hin hout
  have hnot : ¬(input = [] ∨ inputRate = 0 ∨ outputRate = 0) := by
    rintro (hempty | hzero | hzero)
    · exact hinput hempty
    · exact absurd hin (hzero ▸ UInt32.lt_irrefl 0)
    · exact absurd hout (hzero ▸ UInt32.lt_irrefl 0)
  rw [linearResample, if_neg hnot, if_neg hne]
  generalize rateRatio inputRate outputRate = ratio at hratio ⊢
  have hleft := fun i hi => leftIndex_lt (n := input.length) (i := i) hratio hi
  obtain ⟨out, heq, hlength, hget⟩ := collect_eq_some fun i hi => by
    obtain ⟨_, _, y, _, _, hsample, _⟩ := linearSample_eq hratio (hleft i hi)
    exact ⟨y, hsample⟩
  refine ⟨out, heq, hlength, fun i hi => ?_⟩
  rw [hlength] at hi
  obtain ⟨a, b, y, ha, hb, hsample, hbetween⟩ := linearSample_eq hratio (hleft i hi)
  have hn := List.length_pos_iff.2 hinput
  exact ⟨hleft i hi, rightIndex_lt hn, a, b, y, ha, hb, (hget i hi).trans hsample, hbetween⟩

theorem interpolates_self (hinput : input ≠ []) : Interpolates input 1 input := by
  intro i hi
  have hn := List.length_pos_iff.2 hinput
  have hleft : leftIndex 1 i = i := by
    rw [leftIndex, div_one, Nat.floor_natCast]
  have hright : rightIndex input.length 1 i < input.length := rightIndex_lt hn
  rw [hleft]
  exact ⟨hi, hright, _, _, _, List.getElem?_eq_getElem hi, List.getElem?_eq_getElem hright,
    List.getElem?_eq_getElem hi, min_le_left _ _, le_max_left _ _⟩

theorem linearResample_spec (hinput : input ≠ []) (hin : 0 < inputRate) (hout : 0 < outputRate) :
    ∃ out, linearResample input inputRate outputRate = some out ∧
      out.length = ⌊(input.length * outputRate.toNat / inputRate.toNat + 1 / 2 : ℚ)⌋₊ ∧
      Interpolates input (rateRatio inputRate outputRate) out := by
  have hpos : 0 ≤ input.length * rateRatio inputRate outputRate :=
    mul_nonneg (Nat.cast_nonneg _) (rateRatio_pos hin hout).le
  rw [mul_div_assoc, ← rateRatio, ← toNat_roundAway hpos]
  by_cases hne : inputRate = outputRate
  · subst hne
    have hnot : ¬(input = [] ∨ inputRate = 0 ∨ inputRate = 0) := by
      rintro (hempty | hzero | hzero)
      · exact hinput hempty
      · exact absurd hin (hzero ▸ UInt32.lt_irrefl 0)
      · exact absurd hin (hzero ▸ UInt32.lt_irrefl 0)
    rw [rateRatio_self hin]
    refine ⟨input, ?_, ?_, interpolates_self hinput⟩
    · rw [linearResample, if_neg hnot, if_pos rfl]
    · have hround := roundAway_intCast input.length
      rw [Int.cast_natCast] at hround
      rw [mul_one, hround, Int.toNat_natCast]
  · exact linearResample_of_ne hinput hin hout hne

example : (linearResample [0, 1 / 2, 1, 1 / 2] 24000 48000).map List.length = some 8 := by decide +kernel

end

/-! ### Resampling of the built-in sounds -/

section

variable {samples : List Int16} {wavBytes : List UInt8} {ratio : ℚ} {n i rate : ℕ}

/-- `out` has a value for every turn, and each lies between the two samples that its turn reads. -/
def Interpolates48k (samples : List Int16) (ratio : ℚ) (out : List Int16) : Prop :=
  ∀ i < out.length, sourceIndex ratio i < samples.length ∧
    ∃ a y, samples[sourceIndex ratio i]? = some a ∧ out[i]? = some y ∧
      min a.toInt (nextSample samples (sourceIndex ratio i) a).toInt ≤ y.toInt ∧
      y.toInt ≤ max a.toInt (nextSample samples (sourceIndex ratio i) a).toInt

theorem sourceIndex_lt (hratio : 0 < ratio) (hi : i < ⌈n / ratio⌉₊) : sourceIndex ratio i < n := by
  have hlt : (i : ℚ) * ratio < n := (lt_div_iff₀ hratio).1 (Nat.lt_ceil.1 hi)
  have hsrc : 0 ≤ (i : ℚ) * ratio := mul_nonneg (Nat.cast_nonneg i) hratio.le
  exact (Nat.floor_lt hsrc).2 hlt

theorem toInt_asI16 {k : ℤ} {a b : Int16} (hlow : min a.toInt b.toInt ≤ k) (hhigh : k ≤ max a.toInt b.toInt) :
    (asI16 k).toInt = k := by
  have ha := a.le_toInt
  have hb := b.le_toInt
  have ha' := a.toInt_lt
  have hb' := b.toInt_lt
  rw [asI16, Int16.toInt_ofInt_of_le (by omega) (by omega)]
  omega

theorem interpolatedSample_eq (hratio : 0 < ratio) (hidx : sourceIndex ratio i < samples.length) :
    ∃ a y, samples[sourceIndex ratio i]? = some a ∧ interpolatedSample samples ratio i = some y ∧
      min a.toInt (nextSample samples (sourceIndex ratio i) a).toInt ≤ y.toInt ∧
      y.toInt ≤ max a.toInt (nextSample samples (sourceIndex ratio i) a).toInt := by
  obtain ⟨a, ha⟩ : ∃ a, samples[sourceIndex ratio i]? = some a := ⟨_, List.getElem?_eq_getElem hidx⟩
  have hsample : interpolatedSample samples ratio i = some (asI16 (roundAway
      (a.toInt + (i * ratio - ⌊i * ratio⌋₊) *
        ((nextSample samples (sourceIndex ratio i) a).toInt - a.toInt)))) := by
    rw [interpolatedSample, ha]
    rfl
  have hsrc : 0 ≤ (i : ℚ) * ratio := mul_nonneg (Nat.cast_nonneg i) hratio.le
  obtain ⟨h0, h1⟩ := sub_floor_mem hsrc
  refine ⟨a, _, ha, hsample, ?_⟩
  generalize nextSample samples (sourceIndex ratio i) a = b
  have hlow := min_le_interpolate (a := (a.toInt : ℚ)) (b := b.toInt) h0 h1
  have hhigh := interpolate_le_max (a := (a.toInt : ℚ)) (b := b.toInt) h0 h1
  rw [mul_comm, ← Int.cast_min] at hlow
  rw [mul_comm, ← Int.cast_max] at hhigh
  -- rounding keeps what is between two integers between them
  obtain ⟨hround, hround'⟩ := roundAway_mem hlow hhigh
  rw [toInt_asI16 hround hround']
  exact ⟨hround, hround'⟩

theorem interpolate48k_spec (hrate : 0 < rate) :
    ∃ out, interpolate48k samples rate = some out ∧ out.length = ⌈(samples.length * 48000 / rate : ℚ)⌉₊ ∧
      Interpolates48k samples (rate / 48000) out := by
  have hratio : (0 : ℚ) < rate / 48000 := div_pos (Nat.cast_pos.2 hrate) (by norm_num)
  have hlen : (samples.length : ℚ) * 48000 / rate = samples.length / (rate / 48000) :=
    (div_div_eq_mul_div _ _ _).symm
  rw [interpolate48k, hlen]
  generalize (rate : ℚ) / 48000 = ratio at hratio ⊢
  have hidx := fun i hi => sourceIndex_lt (n := samples.length) (i := i) hratio hi
  obtain ⟨out, heq, hlength, hget⟩ := collect_eq_some fun i hi => by
    obtain ⟨_, y, _, hsample, _⟩ := interpolatedSample_eq hratio (hidx i hi)
    exact ⟨y, hsample⟩
  refine ⟨out, heq, hlength, fun i hi => ?_⟩
  rw [hlength] at hi
  obtain ⟨a, y, ha, hsample, hbetween⟩ := interpolatedSample_eq hratio (hidx i hi)
  exact ⟨hidx i hi, a, y, ha, (hget i hi).trans hsample, hbetween⟩

theorem interpolates48k_self : Interpolates48k samples 1 samples := by
  intro i hi
  have hidx : sourceIndex 1 i = i := by
    rw [sourceIndex, mul_one, Nat.floor_natCast]
  rw [hidx]
  exact ⟨hi, _, _, List.getElem?_eq_getElem hi, List.getElem?_eq_getElem hi, min_le_left _ _,
    le_max_left _ _⟩

theorem decodeWav48k_spec (h : Pcm16Mono wavBytes) :
    ∃ out, decodeWav48k wavBytes = some out ∧
      out.length = ⌈((pcmSamples (wavBytes.drop 44)).length * 48000 / wavSampleRate wavBytes : ℚ)⌉₊ ∧
      Interpolates48k (pcmSamples (wavBytes.drop 44)) (wavSampleRate wavBytes / 48000) out := by
  have hfile : wavBytes.length ≥ 44 ∧ slice wavBytes 0 4 = riffId ∧ slice wavBytes 8 4 = waveId :=
    ⟨h.longEnough, h.riff, h.wave⟩
  have hformat : value (slice wavBytes 20 2) = 1 ∧ value (slice wavBytes 22 2) = 1 ∧
      wavSampleRate wavBytes > 0 ∧ value (slice wavBytes 34 2) = 16 :=
    ⟨h.audioFormat, h.channels, h.sampleRate, h.bitsPerSample⟩
  simp only [decodeWav48k, if_pos hfile, if_pos hformat]
  by_cases hrate : wavSampleRate wavBytes = 48000
  · have hratio : ((48000 : ℕ) : ℚ) / 48000 = 1 := by norm_num
    rw [if_pos hrate, hrate, mul_div_assoc, Nat.cast_ofNat, div_self (by norm_num), mul_one,
      Nat.ceil_natCast]
    exact ⟨_, rfl, rfl, interpolates48k_self⟩
  · rw [if_neg hrate]
    exact interpolate48k_spec h.sampleRate

end

/-- Resampling stays within its input, for every pair of rates. -/
theorem resampling_in_bounds :
    (∀ (input : List ℚ) (inputRate outputRate : UInt32), input ≠ [] → 0 < inputRate → 0 < outputRate →
      ∃ out, linearResample input inputRate outputRate = some out ∧
        out.length = ⌊(input.length * outputRate.toNat / inputRate.toNat + 1 / 2 : ℚ)⌋₊ ∧
        Interpolates input (rateRatio inputRate outputRate) out) ∧
      ∀ wavBytes, Pcm16Mono wavBytes → ∃ out, decodeWav48k wavBytes = some out ∧
        out.length = ⌈((pcmSamples (wavBytes.drop 44)).length * 48000 / wavSampleRate wavBytes : ℚ)⌉₊ ∧
        Interpolates48k (pcmSamples (wavBytes.drop 44)) (wavSampleRate wavBytes / 48000) out := by
  constructor
  · intro input inputRate outputRate hinput hin hout
    exact linearResample_spec hinput hin hout
  · intro wavBytes h
    exact decodeWav48k_spec h

/-- Two samples at 24 kHz. -/
def shortWav : List UInt8 :=
  riffId ++ Bytes.ofNat 4 40 ++ waveId ++ ['f', 'm', 't', ' '].map Char.toUInt8 ++ Bytes.ofNat 4 16 ++
    Bytes.ofNat 2 1 ++ Bytes.ofNat 2 1 ++ Bytes.ofNat 4 24000 ++ Bytes.ofNat 4 48000 ++ Bytes.ofNat 2 2 ++
    Bytes.ofNat 2 16 ++ dataId ++ Bytes.ofNat 4 4 ++ [1, 0, 2, 0]

theorem pcm16Mono_shortWav : Pcm16Mono shortWav := by
  constructor <;> decide

theorem resampling_in_bounds_shortWav :
    (∃ out, linearResample [0, 1 / 2, 1, 1 / 2] 24000 48000 = some out ∧
      out.length = ⌊((4 : ℕ) * (48000 : UInt32).toNat / (24000 : UInt32).toNat + 1 / 2 : ℚ)⌋₊ ∧
      Interpolates [0, 1 / 2, 1, 1 / 2] (rateRatio 24000 48000) out) ∧
    ∃ out, decodeWav48k shortWav = some out ∧
      out.length = ⌈((pcmSamples (shortWav.drop 44)).length * 48000 / wavSampleRate shortWav : ℚ)⌉₊ ∧
      Interpolates48k (pcmSamples (shortWav.drop 44)) (wavSampleRate shortWav / 48000) out :=
  ⟨resampling_in_bounds.1 [0, 1 / 2, 1, 1 / 2] 24000 48000 (List.cons_ne_nil _ _) (by decide) (by decide),
    resampling_in_bounds.2 shortWav pcm16Mono_shortWav⟩

end MumbleSip
