import Mathlib.Algebra.Order.Group.Int
import Mathlib.Algebra.Ring.Int.Defs
import MumbleSip.Audio.Conservation
import MumbleSip.Lib.RunningSum

/-!
# Saturation in the mixer

The samples of a frame are summed in `mix_accum`, an `i32` for each position, and clamped at the end. A build
that checks for overflows panics in an addition whose sum is not an `i32`; a release build wraps. How many
speakers there are is not bounded, so there are mixers for which an addition overflows.
-/

namespace MumbleSip

open Transition RunningSum

def i32Min : Int := -2147483648

def i32Max : Int := 2147483647

/-- `accum + sample as i32` in a build that checks for overflows. -/
def checkedAdd (accum : Int32) (sample : Int16) : Option Int32 :=
  if i32Min ≤ accum.toInt + sample.toInt ∧ accum.toInt + sample.toInt ≤ i32Max then
    some (accum + sample.toInt32)
  else none

/-- `addSamples` in a build that checks for overflows. -/
def checkedAddSamples : List Int32 → Pcm → Option (List Int32)
  | accum :: accums, sample :: samples =>
    (checkedAdd accum sample).bind fun sum => (checkedAddSamples accums samples).map fun sums => sum :: sums
  | accums, _ => some accums

/-- `mixFrame` in a build that checks for overflows. -/
def checkedMixFrame (frameSamples : Nat) (parts : List Pcm) : Option Pcm :=
  (parts.foldlM checkedAddSamples (List.replicate frameSamples 0)).map fun accums => accums.map clampSample

/-- A sample as a number; past the end there is none. -/
def amplitudeAt (i : Nat) (pcm : Pcm) : Int := (pcm[i]?.map Int16.toInt).getD 0

/-- The nearest sample. -/
def saturate (sum : Int) : Int16 := Int16.ofInt (max (-32768) (min sum 32767))

/-- The samples are the exact sums of what is in the frame, each clamped once. -/
def MixedFrame.Exact (frame : MixedFrame) (frameSamples : Nat) : Prop :=
  frame.samples = (List.range frameSamples).map fun i =>
    saturate ((frame.speakers.map Prod.snd ++ [frame.sound]).map (amplitudeAt i)).sum

/-! ### Sums -/

theorem clampSample_eq (accum : Int32) : clampSample accum = saturate accum.toInt := by
  have hlow : accum < -32768 ↔ accum.toInt < -32768 := Int32.lt_iff_toInt_lt
  have hhigh : 32767 < accum ↔ 32767 < accum.toInt := Int32.lt_iff_toInt_lt
  unfold clampSample saturate
  by_cases h : accum.toInt < -32768
  · rw [if_pos (hlow.2 h), min_eq_left (by omega), max_eq_left (by omega)]
    rfl
  · rw [if_neg fun h' => h (hlow.1 h')]
    by_cases h' : 32767 < accum.toInt
    · rw [if_pos (hhigh.2 h'), min_eq_right (by omega), max_eq_right (by omega)]
      rfl
    · rw [if_neg fun h'' => h' (hhigh.1 h''), min_eq_left (by omega), max_eq_right (by omega)]
      exact (Int16.ofInt_int32ToInt accum).symm

theorem toInt_range (accum : Int32) : i32Min ≤ accum.toInt ∧ accum.toInt ≤ i32Max := by
  have hle := accum.le_toInt
  have hlt := accum.toInt_lt
  unfold i32Min i32Max
  omega

theorem toInt_ofInt {sum : Int} (h : i32Min ≤ sum ∧ sum ≤ i32Max) : (Int32.ofInt sum).toInt = sum := by
  unfold i32Min i32Max at h
  exact Int32.toInt_ofInt_of_le (by omega) (by omega)

theorem sampleAt_eq (i : Nat) (pcm : Pcm) : sampleAt i pcm = Int32.ofInt (amplitudeAt i pcm) := by
  unfold sampleAt amplitudeAt
  cases pcm[i]? with
  | none => rfl
  | some sample => exact (Int32.ofInt_int16ToInt sample).symm

/-- With or without an overflow, the accumulator is the exact sum modulo 2³². -/
theorem foldl_sampleAt (i : Nat) (parts : List Pcm) (sum : Int) :
    parts.foldl (fun accum part => accum + sampleAt i part) (Int32.ofInt sum)
      = Int32.ofInt (sum + (parts.map (amplitudeAt i)).sum) := by
  induction parts generalizing sum with
  | nil => rw [List.map_nil, List.sum_nil, Int.add_zero, List.foldl_nil]
  | cons part parts ih =>
    rw [List.foldl_cons, sampleAt_eq, ← Int32.ofInt_add, ih, List.map_cons, List.sum_cons, Int.add_assoc]

theorem getElem_mixFrame_eq {n i : Nat} (hi : i < n) (parts : List Pcm) :
    (mixFrame n parts)[i]? = some (saturate (Int32.ofInt (parts.map (amplitudeAt i)).sum).toInt) := by
  rw [getElem_mixFrame hi, clampSample_eq, ← Int.zero_add (parts.map (amplitudeAt i)).sum, ← foldl_sampleAt]
  rfl

theorem mixFrame_eq_of_range {n : Nat} {parts : List Pcm} (h : ∀ i < n,
    i32Min ≤ (parts.map (amplitudeAt i)).sum ∧ (parts.map (amplitudeAt i)).sum ≤ i32Max) :
    mixFrame n parts = (List.range n).map fun i => saturate (parts.map (amplitudeAt i)).sum := by
  apply List.ext_getElem?
  intro i
  rw [List.getElem?_map]
  by_cases hi : i < n
  · rw [getElem_mixFrame_eq hi, toInt_ofInt (h i hi), List.getElem?_range hi, Option.map_some]
  · rw [List.getElem?_eq_none (by rw [length_mixFrame]; omega),
      List.getElem?_eq_none (by rw [List.length_range]; omega), Option.map_none]

/-! ### Overflows -/

theorem checkedAdd_eq_some {accum sum : Int32} {sample : Int16} : checkedAdd accum sample = some sum
    ↔ sum = accum + sample.toInt32 ∧
      i32Min ≤ accum.toInt + sample.toInt ∧ accum.toInt + sample.toInt ≤ i32Max := by
  unfold checkedAdd
  split
  · rename_i h
    rw [Option.some.injEq, eq_comm]
    exact (and_iff_left h).symm
  · rename_i h
    constructor
    · intro hnone
      cases hnone
    · intro hsum
      exact absurd hsum.2 h

theorem checkedAddSamples_eq_some (accums sums : List Int32) (pcm : Pcm) :
    checkedAddSamples accums pcm = some sums ↔ sums = addSamples accums pcm ∧
      ∀ i accum, accums[i]? = some accum →
        i32Min ≤ accum.toInt + amplitudeAt i pcm ∧ accum.toInt + amplitudeAt i pcm ≤ i32Max := by
  induction accums generalizing sums pcm with
  | nil =>
    show some [] = some sums ↔ sums = [] ∧ _
    rw [Option.some.injEq, eq_comm]
    exact (and_iff_left fun i accum h => by cases h).symm
  | cons accum accums ih =>
    cases pcm with
    | nil =>
      show some (accum :: accums) = some sums ↔ sums = accum :: accums ∧ _
      rw [Option.some.injEq, eq_comm]
      refine (and_iff_left ?_).symm
      intro i accum' _
      show i32Min ≤ accum'.toInt + 0 ∧ accum'.toInt + 0 ≤ i32Max
      rw [Int.add_zero]
      exact toInt_range accum'
    | cons sample samples =>
      simp only [checkedAddSamples, Option.bind_eq_some_iff, Option.map_eq_some_iff, checkedAdd_eq_some, ih]
      constructor
      · rintro ⟨sum, ⟨rfl, hfirst⟩, rest, ⟨rfl, hrest⟩, rfl⟩
        refine ⟨rfl, ?_⟩
        intro i accum' haccum
        cases i with
        | zero =>
          cases haccum
          exact hfirst
        | succ i => exact hrest i accum' haccum
      · rintro ⟨rfl, h⟩
        exact ⟨_, ⟨rfl, h 0 accum rfl⟩, _, ⟨rfl, fun i accum' haccum => h (i + 1) accum' haccum⟩, rfl⟩

/-- No addition overflows if and only if the sums over the first parts, as many as there are, are `i32`s. -/
theorem foldlM_eq_some (parts : List Pcm) (accums sums : List Int32) :
    parts.foldlM checkedAddSamples accums = some sums ↔ sums = parts.foldl addSamples accums ∧
      ∀ i accum, accums[i]? = some accum → Within i32Min i32Max (amplitudeAt i) accum.toInt parts := by
  induction parts generalizing accums with
  | nil =>
    show some accums = some sums ↔ sums = accums ∧ _
    rw [Option.some.injEq, eq_comm]
    exact (and_iff_left fun i accum _ => toInt_range accum).symm
  | cons part parts ih =>
    rw [List.foldlM_cons, Option.bind_eq_bind, Option.bind_eq_some_iff]
    have hnext : ∀ i accum,
        (i32Min ≤ accum.toInt + amplitudeAt i part ∧ accum.toInt + amplitudeAt i part ≤ i32Max) →
          (accum + sampleAt i part).toInt = accum.toInt + amplitudeAt i part := by
      intro i accum h
      rw [sampleAt_eq, ← toInt_ofInt h, Int32.ofInt_add, Int32.ofInt_toInt]
    constructor
    · rintro ⟨sums', hpart, hparts⟩
      obtain ⟨rfl, hrange⟩ := (checkedAddSamples_eq_some _ _ _).1 hpart
      obtain ⟨rfl, hwithin⟩ := (ih _).1 hparts
      refine ⟨rfl, ?_⟩
      intro i accum haccum
      have hrest := hwithin i (accum + sampleAt i part) (by rw [getElem_addSamples, haccum, Option.map_some])
      rw [hnext i accum (hrange i accum haccum)] at hrest
      exact ⟨toInt_range accum, hrest⟩
    · rintro ⟨rfl, h⟩
      refine ⟨_, (checkedAddSamples_eq_some _ _ _).2 ⟨rfl, ?_⟩, (ih _).2 ⟨rfl, ?_⟩⟩
      · exact fun i accum haccum => (h i accum haccum).2.start
      · intro i accum' haccum'
        rw [getElem_addSamples, Option.map_eq_some_iff] at haccum'
        obtain ⟨accum, haccum, rfl⟩ := haccum'
        rw [hnext i accum (h i accum haccum).2.start]
        exact (h i accum haccum).2

theorem checkedMixFrame_eq_some {n : Nat} {parts : List Pcm} {pcm : Pcm} : checkedMixFrame n parts = some pcm
    ↔ pcm = mixFrame n parts ∧ ∀ i < n, Within i32Min i32Max (amplitudeAt i) 0 parts := by
  have hzero : (∀ i accum, (List.replicate n (0 : Int32))[i]? = some accum →
      Within i32Min i32Max (amplitudeAt i) accum.toInt parts)
        ↔ ∀ i < n, Within i32Min i32Max (amplitudeAt i) 0 parts := by
    constructor
    · exact fun h i hi => h i 0 (List.getElem?_replicate_of_lt hi)
    · intro h i accum haccum
      rw [List.getElem?_replicate] at haccum
      split at haccum
      · cases haccum
        exact h i ‹_›
      · cases haccum
  rw [checkedMixFrame, Option.map_eq_some_iff]
  simp only [foldlM_eq_some, hzero]
  constructor
  · rintro ⟨accums, ⟨rfl, h⟩, rfl⟩
    exact ⟨rfl, h⟩
  · rintro ⟨rfl, h⟩
    exact ⟨_, ⟨rfl, h⟩, rfl⟩

namespace Mixer

variable {δ : Type} (opus : Opus δ) (config : MixerConfig)

/-- What a speaker puts into the frame of the next tick. -/
def ready (m : Mixer δ) (sessionId : UInt32) : Pcm :=
  (((m.filled opus config).lookup sessionId).map fun state =>
    state.pendingPcm.take config.frameSamples).getD []

/-- What a tick adds to `mix_accum`, in its order. -/
def sources (m : Mixer δ) (order : List UInt32) : List Pcm :=
  (m.parts opus config order).map Prod.snd ++ [m.soundQueue.take config.frameSamples]

/-- The amplitude of a speaker at a position of the next frame. -/
def amplitude (m : Mixer δ) (i : Nat) (sessionId : UInt32) : Int :=
  amplitudeAt i (m.ready opus config sessionId)

def exactSum (m : Mixer δ) (i : Nat) : Int :=
  (m.speakers.keys.map (m.amplitude opus config i)).sum + amplitudeAt i (m.soundQueue.take config.frameSamples)

/-- The samples that the next frame should have. -/
def exactFrame (m : Mixer δ) : Pcm :=
  (List.range config.frameSamples).map fun i => saturate (m.exactSum opus config i)

/-- In every order of the speakers, no addition of a tick overflows, and the samples are the exact ones. -/
def MixesExactly (m : Mixer δ) : Prop :=
  ∀ order : List UInt32, order.Perm m.speakers.keys →
    checkedMixFrame config.frameSamples (m.sources opus config order) = some (m.exactFrame opus config) ∧
      ∀ frame, m.frame opus config order = some frame → frame.samples = m.exactFrame opus config

/-- The positive amplitudes of the speakers alone, the negative ones alone, and all with the sound, add up to
an `i32` at each position. -/
def AmplitudesFit (m : Mixer δ) : Prop :=
  ∀ i < config.frameSamples,
    (i32Min ≤ - downs (m.amplitude opus config i) m.speakers.keys ∧
      ups (m.amplitude opus config i) m.speakers.keys ≤ i32Max) ∧
    i32Min ≤ m.exactSum opus config i ∧ m.exactSum opus config i ≤ i32Max

variable {opus config} {m : Mixer δ} {order : List UInt32}

theorem parts_eq : m.parts opus config order
    = (order.filter fun sessionId =>
        ((m.filled opus config).lookup sessionId).any fun state => !state.pendingPcm.isEmpty).map
          fun sessionId => (sessionId, m.ready opus config sessionId) := by
  induction order with
  | nil => rfl
  | cons sessionId order ih =>
    rw [parts, List.filterMap_cons, ← parts, ih, List.filter_cons]
    cases hstate : (m.filled opus config).lookup sessionId with
    | none => rfl
    | some state =>
      cases hempty : state.pendingPcm.isEmpty with
      | true => simp only [hempty, Option.any_some, Bool.not_true, Bool.false_eq_true, if_true, if_false]
      | false =>
        simp only [hempty, Option.any_some, Bool.not_false, Bool.false_eq_true, if_true, if_false,
          List.map_cons, ready, hstate, Option.map_some, Option.getD_some]

theorem amplitude_inactive (i : Nat) (sessionId : UInt32)
    (h : (((m.filled opus config).lookup sessionId).any fun state => !state.pendingPcm.isEmpty) = false) :
    m.amplitude opus config i sessionId = 0 := by
  unfold amplitude ready
  cases hstate : (m.filled opus config).lookup sessionId with
  | none => rfl
  | some state =>
    rw [hstate, Option.any_some, Bool.not_eq_false', List.isEmpty_iff] at h
    rw [Option.map_some, Option.getD_some, h, List.take_nil]
    rfl

theorem sum_sources (i : Nat) (hperm : order.Perm m.speakers.keys) :
    ((m.sources opus config order).map (amplitudeAt i)).sum = m.exactSum opus config i := by
  have hactive : ((order.filter fun sessionId =>
      ((m.filled opus config).lookup sessionId).any fun state => !state.pendingPcm.isEmpty).map
        (m.amplitude opus config i)).sum = (order.map (m.amplitude opus config i)).sum :=
    sum_filter (fun _ _ _ => rfl) fun sessionId _ => amplitude_inactive i sessionId
  rw [sources, List.map_append, List.sum_append, parts_eq, List.map_map, List.map_map, List.map_singleton,
    List.sum_singleton, exactSum, ← (hperm.map (m.amplitude opus config i)).sum_eq, ← hactive]
  rfl

/-- The sums while a tick visits the speakers, and the one with the sound. -/
theorem within_sources (i : Nat) (hperm : order.Perm m.speakers.keys) :
    Within i32Min i32Max (amplitudeAt i) 0 (m.sources opus config order)
      ↔ Within i32Min i32Max (m.amplitude opus config i) 0 order ∧
        i32Min ≤ m.exactSum opus config i ∧ m.exactSum opus config i ≤ i32Max := by
  have hspeakers : Within i32Min i32Max (amplitudeAt i) 0 ((m.parts opus config order).map Prod.snd)
      ↔ Within i32Min i32Max (m.amplitude opus config i) 0 order := by
    rw [parts_eq, List.map_map, within_map]
    exact within_filter fun sessionId _ => amplitude_inactive i sessionId
  have hsum : 0 + (((m.parts opus config order).map Prod.snd).map (amplitudeAt i)).sum
      + amplitudeAt i (m.soundQueue.take config.frameSamples) = m.exactSum opus config i := by
    rw [← sum_sources i hperm, sources, List.map_append, List.sum_append, List.map_singleton,
      List.sum_singleton, Int.zero_add]
  rw [sources, within_append, within_cons, within_nil, hsum, hspeakers]
  constructor
  · exact fun h => ⟨h.1, h.2.2⟩
  · intro h
    exact ⟨h.1, (hspeakers.2 h.1).sum, h.2⟩

theorem samples_eq {frame : MixedFrame} (hframe : m.frame opus config order = some frame) :
    frame.samples = mixFrame config.frameSamples (m.sources opus config order) ∧
      frame.speakers.map Prod.snd ++ [frame.sound] = m.sources opus config order := by
  rw [frame_eq] at hframe
  split at hframe
  · cases hframe
  · cases hframe
    exact ⟨rfl, rfl⟩

theorem mixFrame_sources (hperm : order.Perm m.speakers.keys) (hrange : ∀ i < config.frameSamples,
    i32Min ≤ m.exactSum opus config i ∧ m.exactSum opus config i ≤ i32Max) :
    mixFrame config.frameSamples (m.sources opus config order) = m.exactFrame opus config := by
  rw [mixFrame_eq_of_range]
  · simp only [sum_sources _ hperm]
    rfl
  · intro i hi
    rw [sum_sources i hperm]
    exact hrange i hi

theorem mixesExactly_iff : m.MixesExactly opus config ↔ m.AmplitudesFit opus config := by
  constructor
  · intro h i hi
    have hwithin : ∀ order : List UInt32, order.Perm m.speakers.keys →
        Within i32Min i32Max (m.amplitude opus config i) 0 order ∧
          i32Min ≤ m.exactSum opus config i ∧ m.exactSum opus config i ≤ i32Max := fun order hperm =>
      (within_sources i hperm).1 ((checkedMixFrame_eq_some.1 (h order hperm).1).2 i hi)
    refine ⟨?_, (hwithin _ (List.Perm.refl _)).2⟩
    rw [← Int.zero_sub, ← Int.zero_add (ups _ _)]
    exact forall_perm_within_iff.1 fun order hperm => (hwithin order hperm).1
  · intro h order hperm
    have hmix := mixFrame_sources hperm fun i hi => (h i hi).2
    refine ⟨checkedMixFrame_eq_some.2 ⟨hmix.symm, ?_⟩, fun frame hframe => (samples_eq hframe).1.trans hmix⟩
    intro i hi
    have hspan := (h i hi).1
    rw [← Int.zero_sub, ← Int.zero_add (ups _ _)] at hspan
    exact (within_sources i hperm).2 ⟨forall_perm_within_iff.2 hspan order hperm, (h i hi).2⟩

theorem exact_frame (h : m.AmplitudesFit opus config) (hperm : order.Perm m.speakers.keys) {frame : MixedFrame}
    (hframe : m.frame opus config order = some frame) : frame.Exact config.frameSamples := by
  rw [MixedFrame.Exact, (samples_eq hframe).1, (samples_eq hframe).2]
  simp only [sum_sources _ hperm]
  exact mixFrame_sources hperm fun i hi => (h i hi).2

/-- The ticks of a run, each taken in a state whose amplitudes fit. -/
def TicksFit (opus : Opus δ) (config : MixerConfig) (m : Mixer δ) (a : MixerAction δ) : Prop :=
  ∀ order now, a = .tick order now → m.AmplitudesFit opus config

theorem exact_of_reaches (hm : (mixedDecoder opus config).Reaches (TicksFit opus config) m) :
    ∀ frame ∈ m.emitted, frame.Exact config.frameSamples := by
  apply hm.invariant (I := fun m => ∀ frame ∈ m.emitted, frame.Exact config.frameSamples)
  · rintro m rfl frame hmem
    cases hmem
  · intro m a _ ih henabled hfit
    cases a with
    | tick order now =>
      intro frame hmem
      rcases List.mem_append.1 hmem with hbefore | hnew
      · exact ih frame hbefore
      · exact exact_frame (hfit order now rfl) henabled.2 (Option.mem_toList.1 hnew)
    | packet sessionId opusData decoder now =>
      show ∀ frame ∈ (m.packet config sessionId opusData decoder now).emitted, _
      have hemitted : (m.packet config sessionId opusData decoder now).emitted = m.emitted := by
        unfold packet
        split
        · rfl
        · cases decoder <;> rfl
      rw [hemitted]
      exact ih
    | packetsClosed => exact ih
    | sound pcm => exact ih
    | soundsClosed => exact ih

theorem amplitude_range (i : Nat) (pcm : Pcm) : -32768 ≤ amplitudeAt i pcm ∧ amplitudeAt i pcm ≤ 32767 := by
  unfold amplitudeAt
  cases pcm[i]? with
  | none => exact ⟨by decide, by decide⟩
  | some sample =>
    have hlow := sample.le_toInt
    have hhigh := sample.toInt_lt
    rw [Option.map_some, Option.getD_some]
    omega

/-- Fewer than 65536 speakers never overflow the accumulator, with or without a sound. -/
theorem amplitudesFit_of_size (hsize : m.speakers.size < 65536) : m.AmplitudesFit opus config := by
  intro i _
  have hups : ups (m.amplitude opus config i) m.speakers.keys ≤ m.speakers.size * 32767 := by
    rw [← Int.nsmul_eq_mul]
    exact ups_le_of_le (by decide) fun _ _ => (amplitude_range i _).2
  have hdowns : downs (m.amplitude opus config i) m.speakers.keys ≤ m.speakers.size * 32768 := by
    rw [← Int.nsmul_eq_mul]
    exact downs_le_of_le (by decide) fun _ _ => (amplitude_range i _).1
  have hwithin : Within (0 - downs (m.amplitude opus config i) m.speakers.keys)
      (0 + ups (m.amplitude opus config i) m.speakers.keys) (m.amplitude opus config i) 0 m.speakers.keys :=
    within_of_span (le_refl _) (le_refl _)
  have hsum := hwithin.sum
  have hsound := amplitude_range i (m.soundQueue.take config.frameSamples)
  unfold exactSum i32Min i32Max
  omega

end Mixer

/-- In a state in which the amplitudes fit, and only there, every tick mixes the exact samples without an
overflow, in every order of the speakers. They fit with fewer than 65536 speakers. In a run whose ticks are all
taken in such states, every frame has the exact samples. -/
theorem mixesExactly_iff_amplitudesFit {δ : Type} (opus : Opus δ) (config : MixerConfig) :
    (∀ m : Mixer δ, m.MixesExactly opus config ↔ m.AmplitudesFit opus config) ∧
    (∀ m : Mixer δ, m.speakers.size < 65536 → m.AmplitudesFit opus config) ∧
    ∀ m, (mixedDecoder opus config).Reaches (Mixer.TicksFit opus config) m →
      ∀ frame ∈ m.emitted, frame.Exact config.frameSamples :=
  ⟨fun _ => Mixer.mixesExactly_iff, fun _ hsize => Mixer.amplitudesFit_of_size hsize,
    fun _ hm => Mixer.exact_of_reaches hm⟩

/-- Every packet decodes to 10 ms at full scale. -/
def loudOpus : Opus Unit where
  decode decoder _ := (some (List.replicate 480 32767), decoder)

/-- A number of speakers, each with one packet that has not been decoded. -/
structure Crowd (n : Nat) (m : Mixer Unit) : Prop where
  running : m.stopped = false
  silent : m.soundQueue = []
  size : m.speakers.size = n
  ids : ∀ sessionId ∈ m.speakers.keys, sessionId.toNat < n
  waiting : ∀ sessionId state, m.speakers.lookup sessionId = some state →
    state.pendingPcm = [] ∧ state.pendingPackets = [[]]

theorem Crowd.packet {n : Nat} {m : Mixer Unit} (h : Crowd n m) (hn : n < 4294967296) (config : MixerConfig) :
    Crowd (n + 1) (m.packet config (UInt32.ofNat n) [] (some ()) 0) := by
  have hid : (UInt32.ofNat n).toNat = n := UInt32.toNat_ofNat_of_lt' hn
  have hfresh : UInt32.ofNat n ∉ m.speakers := by
    intro hmem
    have hlt := h.ids _ (AList.mem_keys.1 hmem)
    omega
  have hstate : m.packet config (UInt32.ofNat n) [] (some ()) 0 = { m with
      speakers := m.speakers.insert (UInt32.ofNat n)
        ⟨(), [[]], [], 0, ⟨(), m.emitted.length, [[]], []⟩⟩ } := by
    unfold Mixer.packet
    rw [AList.lookup_eq_none.2 hfresh]
    have hmax : ¬ config.maxPacketsPerSpeaker ≤ 0 := by
      have hfour : 4 ≤ config.maxPacketsPerSpeaker := Nat.le_max_right _ _
      omega
    simp only [SpeakerState.receive, SpeakerState.evict, List.length_nil, if_neg hmax, List.nil_append]
  have hkeys : (m.speakers.insert (UInt32.ofNat n)
      (⟨(), [[]], [], 0, ⟨(), m.emitted.length, [[]], []⟩⟩ : SpeakerState Unit)).keys
        = UInt32.ofNat n :: m.speakers.keys := by
    rw [AList.keys_insert, List.erase_of_not_mem fun hmem => hfresh (AList.mem_keys.2 hmem)]
  rw [hstate]
  refine ⟨h.running, h.silent, ?_, ?_, ?_⟩
  · show (AList.keys _).length = n + 1
    rw [hkeys, List.length_cons]
    exact congrArg (· + 1) h.size
  · intro sessionId hmem
    rw [hkeys, List.mem_cons] at hmem
    rcases hmem with rfl | hmem
    · omega
    · exact Nat.lt_succ_of_lt (h.ids sessionId hmem)
  · intro sessionId state hlookup
    rw [FiniteMap.lookup_insert] at hlookup
    split at hlookup
    · cases hlookup
      exact ⟨rfl, rfl⟩
    · exact h.waiting sessionId state hlookup

theorem exists_crowd (opus : Opus Unit) (config : MixerConfig) (n : Nat) (hn : n ≤ 4294967296) :
    ∃ m, (mixedDecoder opus config).Reachable m ∧ Crowd n m := by
  induction n with
  | zero =>
    refine ⟨.start, .init rfl, rfl, rfl, rfl, ?_, ?_⟩
    · intro sessionId hmem
      cases hmem
    · intro sessionId state hlookup
      cases hlookup
  | succ n ih =>
    obtain ⟨m, hm, hcrowd⟩ := ih (Nat.le_of_succ_le hn)
    exact ⟨_, hm.step (a := MixerAction.packet (UInt32.ofNat n) [] (some ()) 0) hcrowd.running trivial,
      hcrowd.packet hn config⟩

theorem Crowd.ready {n : Nat} {m : Mixer Unit} (h : Crowd n m) {sessionId : UInt32}
    (hmem : sessionId ∈ m.speakers.keys) :
    m.ready loudOpus ⟨48000, 6⟩ sessionId = List.replicate 480 32767 := by
  obtain ⟨state, hstate⟩ := Option.isSome_iff_exists.1 (AList.lookup_isSome.2 (AList.mem_keys.2 hmem))
  obtain ⟨hpcm, hpackets⟩ := h.waiting sessionId state hstate
  have hframe : MixerConfig.frameSamples ⟨48000, 6⟩ = 480 := rfl
  unfold Mixer.ready
  rw [Mixer.lookup_filled, hstate, hframe]
  simp only [SpeakerState.fill, hpackets, SpeakerState.decodeLoop, hpcm, loudOpus, Option.map_some,
    Option.getD_some, List.length_nil, List.nil_append, List.take_replicate, Nat.zero_lt_succ, if_true,
    SpeakerState.take, Nat.min_self]

theorem Crowd.exactSum {n : Nat} {m : Mixer Unit} (h : Crowd n m) {i : Nat} (hi : i < 480) :
    ups (m.amplitude loudOpus ⟨48000, 6⟩ i) m.speakers.keys = n * 32767 ∧
      m.exactSum loudOpus ⟨48000, 6⟩ i = n * 32767 := by
  have hamplitude : ∀ sessionId ∈ m.speakers.keys, m.amplitude loudOpus ⟨48000, 6⟩ i sessionId = 32767 := by
    intro sessionId hmem
    unfold Mixer.amplitude amplitudeAt
    rw [h.ready hmem, List.getElem?_replicate_of_lt hi]
    rfl
  have hsize : m.speakers.keys.length = n := h.size
  constructor
  · rw [ups, List.map_congr_left fun sessionId hmem => by rw [hamplitude sessionId hmem], List.map_const',
      List.sum_replicate, hsize, Int.nsmul_eq_mul]
    rfl
  · rw [Mixer.exactSum, List.map_congr_left hamplitude, List.map_const', List.sum_replicate, hsize, h.silent,
      List.take_nil, Int.nsmul_eq_mul]
    exact Int.add_zero _

/-- 65539 speakers at full scale: an addition overflows in every order, and a release build plays the other
end of the range. -/
theorem crowd_overflows : ∃ m, (mixedDecoder loudOpus ⟨48000, 6⟩).Reachable m ∧ m.speakers.size = 65539 ∧
    ¬ m.MixesExactly loudOpus ⟨48000, 6⟩ ∧
    (m.exactFrame loudOpus ⟨48000, 6⟩)[0]? = some 32767 ∧
    ∀ order : List UInt32, order.Perm m.speakers.keys →
      checkedMixFrame 480 (m.sources loudOpus ⟨48000, 6⟩ order) = none ∧
        (mixFrame 480 (m.sources loudOpus ⟨48000, 6⟩ order))[0]? = some (-32768 : Int16) := by
  obtain ⟨m, hm, hcrowd⟩ := exists_crowd loudOpus ⟨48000, 6⟩ 65539 (by decide)
  have hsum := (hcrowd.exactSum (show 0 < 480 by decide)).2
  have hoverflow : ∀ order : List UInt32, order.Perm m.speakers.keys →
      checkedMixFrame 480 (m.sources loudOpus ⟨48000, 6⟩ order) = none := by
    intro order hperm
    rw [Option.eq_none_iff_forall_not_mem]
    intro pcm hpcm
    have hrange := (Mixer.within_sources 0 hperm).1 ((checkedMixFrame_eq_some.1 hpcm).2 0 (by decide))
    rw [hsum] at hrange
    exact absurd hrange.2.2 (by decide)
  refine ⟨m, hm, hcrowd.size, ?_, ?_, ?_⟩
  · intro hexact
    have hsome := (hexact _ (List.Perm.refl _)).1
    rw [show MixerConfig.frameSamples ⟨48000, 6⟩ = 480 from rfl, hoverflow _ (List.Perm.refl _)] at hsome
    cases hsome
  · rw [Mixer.exactFrame, List.getElem?_map, List.getElem?_range (by decide), Option.map_some, hsum]
    decide
  · intro order hperm
    refine ⟨hoverflow order hperm, ?_⟩
    rw [getElem_mixFrame_eq (by decide), Mixer.sum_sources 0 hperm, hsum]
    decide

/-- Two speakers and a chime, in two ticks. -/
theorem mixesExactly_chime : ∃ m, (mixedDecoder silentOpus ⟨8000, 3⟩).Reachable m ∧
    m.emitted.length = 2 ∧ (∀ frame ∈ m.emitted, frame.Exact 80) ∧
    m.MixesExactly silentOpus ⟨8000, 3⟩ := by
  obtain ⟨m, hm, hdone⟩ := System.exists_reaches_of_run (mixedDecoder silentOpus ⟨8000, 3⟩)
    (fun m _ => m.speakers.size < 65536) (s := .start) rfl
    [.packet 5 [0xF0] (some ()) 0, .packet 7 [0xF0] (some ()) 0, .sound [1, -1], .tick [5, 7] 0,
      .packet 5 [0xF0] none 0, .tick [7, 5] 0]
    (fun m => decide (m.emitted.length = 2) && decide (m.speakers.size < 65536)) (by decide)
  rw [Bool.and_eq_true, decide_eq_true_iff, decide_eq_true_iff] at hdone
  have hfits := mixesExactly_iff_amplitudesFit silentOpus ⟨8000, 3⟩
  refine ⟨m, hm.reachable, hdone.1, ?_, (hfits.1 m).2 (hfits.2.1 m hdone.2)⟩
  exact hfits.2.2 m (hm.mono fun s a _ _ hsize order now _ => hfits.2.1 s hsize)

end MumbleSip
