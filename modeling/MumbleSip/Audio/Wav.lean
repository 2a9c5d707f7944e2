import Mathlib.Data.Nat.Init
import Mathlib.Tactic.ByContra
import MumbleSip.Lib.Riff

/-!
# Repair of a streamed WAV response

A streamed response may carry placeholder lengths. Before it is decoded, the length of the whole file and the
length of the first `data` chunk are set to what the response has. An index or a range that is out of bounds
would panic, which is `none` here.
-/

namespace MumbleSip

open Bytes Riff

def riffId : List UInt8 := ['R', 'I', 'F', 'F'].map Char.toUInt8

def waveId : List UInt8 := ['W', 'A', 'V', 'E'].map Char.toUInt8

def dataId : List UInt8 := ['d', 'a', 't', 'a'].map Char.toUInt8

def u32Max : Nat := 2 ^ 32 - 1

def usizeMax : Nat := 2 ^ 64 - 1

/-- `usize::saturating_add` -/
def saturatingAdd (a b : Nat) : Nat := min (a + b) usizeMax

/-- `out[start..stop].copy_from_slice(src)` -/
def copyFromSlice (out : List UInt8) (start stop : Nat) (src : List UInt8) : Option (List UInt8) :=
  if start ≤ stop ∧ stop ≤ out.length ∧ stop - start = src.length then some (patch out start src) else none

/-- The four bytes that are read one by one. -/
def readFour (out : List UInt8) (offset : Nat) : Option (List UInt8) := do
  let b₀ ← out[offset]?
  let b₁ ← out[offset + 1]?
  let b₂ ← out[offset + 2]?
  let b₃ ← out[offset + 3]?
  some [b₀, b₁, b₂, b₃]

/-- The loop over the chunks, from `offset` on. -/
def normalizeChunks (out : List UInt8) (offset : Nat) : Option (List UInt8) :=
  if _hheader : offset + 8 ≤ out.length then do
    let chunkId ← readFour out offset
    let declaredSize ← (readFour out (offset + 4)).map value
    let dataStart := offset + 8
    if dataStart > out.length then
      some out
    else if chunkId = dataId then
      let actualSize := min (out.length - dataStart) u32Max
      if declaredSize ≠ actualSize then
        copyFromSlice out (offset + 4) (offset + 8) (Bytes.ofNat 4 actualSize)
      else
        some out
    else
      let chunkTotal := saturatingAdd (saturatingAdd 8 declaredSize) (declaredSize % 2)
      if _hend : chunkTotal = 0 ∨ saturatingAdd offset chunkTotal > out.length then
        some out
      else
        normalizeChunks out (offset + chunkTotal)
  else
    some out
termination_by out.length - offset
decreasing_by
  rw [not_or] at _hend
  omega

def normalizeStreamedWav (wavBytes : List UInt8) : Option (List UInt8) :=
  if wavBytes.length < 12 ∨ slice wavBytes 0 4 ≠ riffId ∨ slice wavBytes 8 4 ≠ waveId then
    some wavBytes
  else do
    let riffSize := min (wavBytes.length - 8) u32Max
    let out ← copyFromSlice wavBytes 4 8 (Bytes.ofNat 4 riffSize)
    normalizeChunks out 12

variable {w out : List UInt8} {o o' : Nat}

/-- The magic of a WAV file. -/
structure IsWave (w : List UInt8) : Prop where
  header : 12 ≤ w.length
  riff : slice w 0 4 = riffId
  wave : slice w 8 4 = waveId

/-- The string with a size written at `i`. -/
def setSize (w : List UInt8) (i size : Nat) : List UInt8 := patch w i (Bytes.ofNat 4 size)

/-! ### One turn of the loop -/

theorem readFour_eq (h : o + 4 ≤ w.length) : readFour w o = some (slice w o 4) := by
  have hget : ∀ k, k < 4 → w[o + k]? = (slice w o 4)[k]? := by
    intro k hk
    rw [getElem?_slice, if_pos hk]
  have hlength := length_slice h
  rcases hs : slice w o 4 with - | ⟨b₀, - | ⟨b₁, - | ⟨b₂, - | ⟨b₃, rest⟩⟩⟩⟩
  all_goals rw [hs] at hlength
  all_goals simp only [List.length_cons, List.length_nil] at hlength
  all_goals try omega
  have hrest : rest = [] := List.length_eq_zero_iff.1 (by omega)
  subst hrest
  rw [hs] at hget
  have h₀ := hget 0 (by omega)
  have h₁ := hget 1 (by omega)
  have h₂ := hget 2 (by omega)
  have h₃ := hget 3 (by omega)
  rw [Nat.add_zero] at h₀
  unfold readFour
  rw [h₀, h₁, h₂, h₃]
  rfl

theorem copyFromSlice_eq (i size : Nat) (h : i + 4 ≤ w.length) :
    copyFromSlice w i (i + 4) (Bytes.ofNat 4 size) = some (setSize w i size) := by
  unfold copyFromSlice
  rw [length_ofNat, if_pos (by omega)]
  rfl

theorem length_setSize (i size : Nat) (h : i + 4 ≤ w.length) : (setSize w i size).length = w.length :=
  length_patch (by rwa [length_ofNat])

theorem getElem?_setSize {i size j : Nat} (h : i + 4 ≤ w.length) (hout : j < i ∨ i + 4 ≤ j) :
    (setSize w i size)[j]? = w[j]? := by
  apply getElem?_patch
  · rwa [length_ofNat]
  · rwa [length_ofNat]

theorem slice_setSize {i size j n : Nat} (h : i + 4 ≤ w.length) (hout : j + n ≤ i ∨ i + 4 ≤ j) :
    slice (setSize w i size) j n = slice w j n := by
  apply slice_patch_of_disjoint
  · rwa [length_ofNat]
  · rwa [length_ofNat]

theorem value_setSize {i size : Nat} (h : i + 4 ≤ w.length) (hsize : size < 2 ^ 32) :
    value (slice (setSize w i size) i 4) = size := by
  have hslice : slice (patch w i (Bytes.ofNat 4 size)) i (Bytes.ofNat 4 size).length = Bytes.ofNat 4 size :=
    slice_patch (by rwa [length_ofNat])
  rw [length_ofNat] at hslice
  rw [setSize, hslice]
  exact value_ofNat hsize

theorem setSize_self {i size : Nat} (h : i + 4 ≤ w.length) (hsize : value (slice w i 4) = size) :
    setSize w i size = w := by
  have hbytes := ofNat_value (slice w i 4)
  rw [length_slice h, hsize] at hbytes
  rw [setSize, hbytes]
  exact patch_slice h

theorem normalizeChunks_of_short (h : ¬o + 8 ≤ w.length) : normalizeChunks w o = some w := by
  rw [normalizeChunks, dif_neg h]

theorem normalizeChunks_of_header (h : o + 8 ≤ w.length) : normalizeChunks w o =
    if chunkId w o = dataId then
      if chunkSize w o ≠ min (w.length - (o + 8)) u32Max then
        copyFromSlice w (o + 4) (o + 8) (Bytes.ofNat 4 (min (w.length - (o + 8)) u32Max))
      else
        some w
    else
      let chunkTotal := saturatingAdd (saturatingAdd 8 (chunkSize w o)) (chunkSize w o % 2)
      if chunkTotal = 0 ∨ saturatingAdd o chunkTotal > w.length then some w
      else normalizeChunks w (o + chunkTotal) := by
  rw [normalizeChunks, dif_pos h, readFour_eq (by omega), readFour_eq (by omega)]
  have hnot : ¬o + 8 > w.length := by omega
  simp only [Option.map_some, Option.bind_eq_bind, Option.bind_some, if_neg hnot, dite_eq_ite]
  rfl

theorem normalizeChunks_of_data (hsmall : w.length < 2 ^ 32 + 8) (h : o + 8 ≤ w.length)
    (hdata : chunkId w o = dataId) :
    normalizeChunks w o = some (setSize w (o + 4) (w.length - (o + 8))) := by
  have hmin : min (w.length - (o + 8)) u32Max = w.length - (o + 8) := by
    rw [u32Max]
    omega
  rw [normalizeChunks_of_header h, if_pos hdata, hmin]
  split
  · exact copyFromSlice_eq (o + 4) _ (by omega)
  · rename_i hsize
    rw [setSize_self (by omega) (Decidable.not_not.1 hsize)]

theorem chunkTotal_eq (h : o + 8 ≤ w.length) :
    saturatingAdd (saturatingAdd 8 (chunkSize w o)) (chunkSize w o % 2) =
      8 + chunkSize w o + chunkSize w o % 2 := by
  have hsize := chunkSize_lt h
  simp only [saturatingAdd, usizeMax]
  omega

theorem normalizeChunks_of_other (hsmall : w.length < 2 ^ 32 + 8) (h : o + 8 ≤ w.length)
    (hother : chunkId w o ≠ dataId) :
    (∃ o', Next dataId w o o' ∧ normalizeChunks w o = normalizeChunks w o') ∨
      (∀ o', ¬Next dataId w o o') ∧ normalizeChunks w o = some w := by
  rw [normalizeChunks_of_header h, if_neg hother]
  simp only [chunkTotal_eq h]
  split
  · rename_i hend
    refine .inr ⟨fun o' hnext => ?_, rfl⟩
    have hstop := hnext.stop
    have hfits := hnext.fits
    simp only [saturatingAdd, usizeMax] at hend
    omega
  · rename_i hend
    refine .inl ⟨o + (8 + chunkSize w o + chunkSize w o % 2), ⟨hother, by omega, ?_⟩, rfl⟩
    simp only [saturatingAdd, usizeMax] at hend
    omega

/-! ### The whole loop -/

/-- The loop sets the size of the first `data` chunk, if it reaches one. -/
theorem normalizeChunks_spec (hsmall : w.length < 2 ^ 32 + 8) (start : Nat) :
    (∃ o, First dataId w start o ∧ normalizeChunks w start = some (setSize w (o + 4) (w.length - (o + 8)))) ∨
      (∀ o, ¬First dataId w start o) ∧ normalizeChunks w start = some w := by
  induction hn : w.length - start using Nat.strong_induction_on generalizing start with
  | _ n ih =>
    by_cases hheader : start + 8 ≤ w.length
    · by_cases hdata : chunkId w start = dataId
      · exact .inl ⟨start, ⟨.refl, hheader, hdata⟩, normalizeChunks_of_data hsmall hheader hdata⟩
      · rcases normalizeChunks_of_other hsmall hheader hdata with ⟨next, hnext, heq⟩ | ⟨hend, heq⟩
        · have hadvance := hnext.add_le
          rw [heq]
          rcases ih _ (by omega) next rfl with ⟨o, hfirst, hrest⟩ | ⟨hnone, hrest⟩
          · exact .inl ⟨o, hfirst.step hnext, hrest⟩
          · refine .inr ⟨fun o hfirst => ?_, hrest⟩
            rcases hfirst.cases with heq | ⟨a, hstep, hlater⟩
            · exact hdata (heq ▸ hfirst.found)
            · exact hnone o (hstep.unique hnext ▸ hlater)
        · refine .inr ⟨fun o hfirst => ?_, heq⟩
          rcases hfirst.cases with heq | ⟨a, hstep, _⟩
          · exact hdata (heq ▸ hfirst.found)
          · exact hend a hstep
    · refine .inr ⟨fun o hfirst => ?_, normalizeChunks_of_short hheader⟩
      have hle := hfirst.le
      have hlast := hfirst.header
      omega

/-! ### The whole repair -/

theorem normalizeStreamedWav_of_not_isWave (h : ¬IsWave w) : normalizeStreamedWav w = some w := by
  apply if_pos
  by_contra hnot
  rw [not_or, not_or] at hnot
  obtain ⟨hlength, hriff, hwave⟩ := hnot
  exact h ⟨by omega, Decidable.not_not.1 hriff, Decidable.not_not.1 hwave⟩

theorem IsWave.normalizeStreamedWav (h : IsWave w) (hsmall : w.length < 2 ^ 32 + 8) :
    normalizeStreamedWav w = normalizeChunks (setSize w 4 (w.length - 8)) 12 := by
  have hnot : ¬(w.length < 12 ∨ slice w 0 4 ≠ riffId ∨ slice w 8 4 ≠ waveId) := by
    rintro (hlength | hriff | hwave)
    · exact absurd h.header (by omega)
    · exact hriff h.riff
    · exact hwave h.wave
  have hmin : min (w.length - 8) u32Max = w.length - 8 := by
    rw [u32Max]
    omega
  have hheader := h.header
  have hcopy := copyFromSlice_eq 4 (w.length - 8) (show 4 + 4 ≤ w.length by omega)
  rw [MumbleSip.normalizeStreamedWav, if_neg hnot, hmin]
  exact congrArg (Option.bind · fun out => normalizeChunks out 12) hcopy

/-- The walk over the chunks does not read the size of the file. -/
theorem first_setSize_iff (h : 12 ≤ w.length) (size : Nat) :
    First dataId (setSize w 4 size) 12 o ↔ First dataId w 12 o := by
  have hlength := length_setSize (w := w) 4 size (by omega)
  have hsame : ∀ k, 12 ≤ k → (setSize w 4 size)[k]? = w[k]? := fun k hk =>
    getElem?_setSize (by omega) (.inr (by omega))
  constructor
  · intro hfirst
    exact hfirst.congr hlength fun k hk _ => hsame k hk
  · intro hfirst
    exact hfirst.congr hlength.symm fun k hk _ => (hsame k hk).symm

theorem IsWave.repair (h : IsWave w) (hsmall : w.length < 2 ^ 32 + 8) :
    (∃ o, First dataId w 12 o ∧ MumbleSip.normalizeStreamedWav w =
      some (setSize (setSize w 4 (w.length - 8)) (o + 4) (w.length - (o + 8)))) ∨
      (∀ o, ¬First dataId w 12 o) ∧
        MumbleSip.normalizeStreamedWav w = some (setSize w 4 (w.length - 8)) := by
  have hheader := h.header
  have hlength := length_setSize (w := w) 4 (w.length - 8) (by omega)
  have hspec := normalizeChunks_spec (w := setSize w 4 (w.length - 8)) (by omega) 12
  simp only [first_setSize_iff hheader, hlength] at hspec
  rw [h.normalizeStreamedWav hsmall]
  exact hspec

/-- What the repair of `w` may change, and what it brings about. -/
structure Repaired (w out : List UInt8) : Prop where
  length : out.length = w.length
  frame : ∀ i, out[i]? ≠ w[i]? → 4 ≤ i ∧ i < 8 ∨ ∃ o, First dataId w 12 o ∧ o + 4 ≤ i ∧ i < o + 8
  riffSize : IsWave w → value (slice out 4 4) = w.length - 8
  dataSize : IsWave w → ∀ o, First dataId w 12 o → value (slice out (o + 4) 4) = w.length - (o + 8)
  other : ¬IsWave w → out = w

theorem Repaired.of_not_isWave (h : ¬IsWave w) : Repaired w w where
  length := rfl
  frame := fun _ hne => absurd rfl hne
  riffSize := fun hwave => absurd hwave h
  dataSize := fun hwave => absurd hwave h
  other := fun _ => rfl

theorem IsWave.repaired_of_none (h : IsWave w) (hsmall : w.length < 2 ^ 32 + 8)
    (hnone : ∀ o, ¬First dataId w 12 o) : Repaired w (setSize w 4 (w.length - 8)) := by
  have hheader := h.header
  constructor
  · exact length_setSize 4 _ (by omega)
  · intro i hne
    by_contra hnot
    rw [not_or] at hnot
    exact hne (getElem?_setSize (by omega) (by omega))
  · intro _
    exact value_setSize (by omega) (by omega)
  · intro _ o hfirst
    exact absurd hfirst (hnone o)
  · intro hnot
    exact absurd h hnot

theorem IsWave.repaired_of_first (h : IsWave w) (hsmall : w.length < 2 ^ 32 + 8) (hfirst : First dataId w 12 o) :
    Repaired w (setSize (setSize w 4 (w.length - 8)) (o + 4) (w.length - (o + 8))) := by
  have hheader := h.header
  have hle := hfirst.le
  have hlast := hfirst.header
  have hlength := length_setSize (w := w) 4 (w.length - 8) (by omega)
  constructor
  · rw [length_setSize _ _ (by omega), hlength]
  · intro i hne
    by_contra hnot
    rw [not_or] at hnot
    have hout : i < o + 4 ∨ o + 8 ≤ i := by
      by_contra hin
      exact hnot.2 ⟨o, hfirst, by omega⟩
    apply hne
    rw [getElem?_setSize (by omega) hout, getElem?_setSize (by omega) (by omega)]
  · intro _
    rw [slice_setSize (by omega) (by omega)]
    exact value_setSize (by omega) (by omega)
  · intro _ o' hfirst'
    rw [← hfirst.unique hfirst']
    exact value_setSize (by omega) (by omega)
  · intro hnot
    exact absurd h hnot

theorem Repaired.isWave (hrepaired : Repaired w out) (h : IsWave w) : IsWave out := by
  have hsame : ∀ i, i < 12 → i < 4 ∨ 8 ≤ i → out[i]? = w[i]? := by
    intro i hi hout
    by_contra hne
    rcases hrepaired.frame i hne with hin | ⟨o, hfirst, hin⟩
    · omega
    · have := hfirst.le
      omega
  have hheader := h.header
  have hlength := hrepaired.length
  constructor
  · omega
  · rw [slice_congr fun k hk => hsame _ (by omega) (by omega)]
    exact h.riff
  · rw [slice_congr fun k hk => hsame _ (by omega) (by omega)]
    exact h.wave

theorem Repaired.first (hrepaired : Repaired w out) (hfirst : First dataId w 12 o) :
    First dataId out 12 o := by
  apply hfirst.congr hrepaired.length.symm
  intro k hk hk'
  by_contra hne
  rcases hrepaired.frame k (Ne.symm hne) with hin | ⟨o', hfirst', hin⟩
  · omega
  · have := hfirst.unique hfirst'
    omega

/-- The walk over the repaired string reaches the same header. -/
theorem Repaired.first_iff (hrepaired : Repaired w out) : First dataId out 12 o ↔ First dataId w 12 o := by
  constructor
  · intro hfirst
    apply hfirst.congr hrepaired.length
    intro k hk hk'
    by_contra hne
    rcases hrepaired.frame k hne with hin | ⟨o', hfirst', hin⟩
    · omega
    · have := hfirst.unique (hrepaired.first hfirst')
      omega
  · exact hrepaired.first

theorem IsWave.repaired (h : IsWave w) (hsmall : w.length < 2 ^ 32 + 8) :
    ∃ out, MumbleSip.normalizeStreamedWav w = some out ∧ Repaired w out := by
  rcases h.repair hsmall with ⟨o, hfirst, heq⟩ | ⟨hnone, heq⟩
  · exact ⟨_, heq, h.repaired_of_first hsmall hfirst⟩
  · exact ⟨_, heq, h.repaired_of_none hsmall hnone⟩

theorem IsWave.normalizeStreamedWav_self (h : IsWave w) (hsmall : w.length < 2 ^ 32 + 8)
    (hriff : value (slice w 4 4) = w.length - 8)
    (hdata : ∀ o, First dataId w 12 o → value (slice w (o + 4) 4) = w.length - (o + 8)) :
    MumbleSip.normalizeStreamedWav w = some w := by
  have hheader := h.header
  have hself := setSize_self (show 4 + 4 ≤ w.length by omega) hriff
  rcases h.repair hsmall with ⟨o, hfirst, heq⟩ | ⟨_, heq⟩
  · have hlast := hfirst.header
    rw [heq, hself, setSize_self (by omega) (hdata o hfirst)]
  · rw [heq, hself]

/-- The repair is local, complete and idempotent, on every string. -/
theorem normalizeStreamedWav_repaired (w : List UInt8) (hsmall : w.length < 2 ^ 32) :
    ∃ out, normalizeStreamedWav w = some out ∧ Repaired w out ∧ normalizeStreamedWav out = some out := by
  by_cases h : IsWave w
  · obtain ⟨out, heq, hrepaired⟩ := h.repaired (by omega)
    have hlength := hrepaired.length
    refine ⟨out, heq, hrepaired, ?_⟩
    apply (hrepaired.isWave h).normalizeStreamedWav_self (by omega)
    · rw [hrepaired.riffSize h, hlength]
    · intro o hfirst
      rw [hrepaired.dataSize h o (hrepaired.first_iff.1 hfirst), hlength]
  · have heq := normalizeStreamedWav_of_not_isWave h
    exact ⟨w, heq, .of_not_isWave h, heq⟩

/-- A response of two samples with placeholder lengths. -/
def streamedWav : List UInt8 :=
  riffId ++ Bytes.ofNat 4 0x7fffff00 ++ waveId ++ dataId ++ Bytes.ofNat 4 0x7fffff00 ++ [1, 0, 2, 0]

theorem normalizeStreamedWav_repaired_streamedWav :
    ∃ out, normalizeStreamedWav streamedWav = some out ∧ Repaired streamedWav out ∧
      normalizeStreamedWav out = some out :=
  normalizeStreamedWav_repaired streamedWav (by decide)

end MumbleSip
