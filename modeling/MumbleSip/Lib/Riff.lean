import Mathlib.Logic.Relation
import MumbleSip.Lib.Bytes

/-!
# Chunks

A chunk is an identifier and a size of four bytes each, a payload of that size, and a byte of padding if the
size is odd. A reader that looks for one kind of chunk walks over the others by their sizes.
-/

namespace Riff

open Bytes

variable {id w w' pre rest : List UInt8} {a b o o' start : Nat}

def chunkId (w : List UInt8) (o : Nat) : List UInt8 := slice w o 4

def chunkSize (w : List UInt8) (o : Nat) : Nat := value (slice w (o + 4) 4)

/-- A chunk of another kind than `id` lies at `o`, and ends at `o'`. -/
structure Next (id w : List UInt8) (o o' : Nat) : Prop where
  other : chunkId w o ≠ id
  stop : o' = o + 8 + chunkSize w o + chunkSize w o % 2
  fits : o' ≤ w.length

/-- The header of the first chunk `id` that a walk from `start` reaches. -/
structure First (id w : List UInt8) (start o : Nat) : Prop where
  reached : Relation.ReflTransGen (Next id w) start o
  header : o + 8 ≤ w.length
  found : chunkId w o = id

/-! ### The walk -/

theorem chunkSize_lt (h : o + 8 ≤ w.length) : chunkSize w o < 2 ^ 32 := by
  have hlt := value_lt (slice w (o + 4) 4)
  rw [length_slice (by omega)] at hlt
  exact hlt

theorem Next.add_le (h : Next id w o o') : o + 8 ≤ o' := by
  have := h.stop
  omega

theorem Next.unique (h : Next id w o a) (h' : Next id w o b) : a = b := h.stop.trans h'.stop.symm

theorem Next.congr (h : Next id w o o') (hlength : w.length = w'.length)
    (hsame : ∀ k, o ≤ k → k < o + 8 → w[k]? = w'[k]?) : Next id w' o o' := by
  have hid : chunkId w o = chunkId w' o := slice_congr fun k hk => hsame _ (by omega) (by omega)
  have hsize : chunkSize w o = chunkSize w' o := by
    unfold chunkSize
    rw [slice_congr fun k hk => hsame _ (by omega) (by omega)]
  constructor
  · rw [← hid]
    exact h.other
  · rw [← hsize]
    exact h.stop
  · rw [← hlength]
    exact h.fits

theorem First.step (h : First id w a o) (hstep : Next id w start a) : First id w start o :=
  ⟨h.reached.head hstep, h.header, h.found⟩

/-- **Induction over a walk** that ends at the chunk it looks for. -/
theorem First.induction {motive : (start : Nat) → First id w start o → Prop}
    (found : ∀ h, motive o h)
    (next : ∀ a b (hstep : Next id w a b) (hrest : First id w b o),
      motive b hrest → motive a (hrest.step hstep))
    (h : First id w start o) : motive start h := by
  have hreached := h.reached
  induction hreached using Relation.ReflTransGen.head_induction_on with
  | refl => exact found h
  | head hstep hrest ih =>
    have hlater : First id w _ o := ⟨hrest, h.header, h.found⟩
    exact next _ _ hstep hlater (ih hlater)

theorem First.cases (h : First id w start o) : start = o ∨ ∃ a, Next id w start a ∧ First id w a o := by
  induction h using First.induction with
  | found => exact .inl rfl
  | next a b hstep hrest => exact .inr ⟨b, hstep, hrest⟩

theorem First.le (h : First id w start o) : start ≤ o := by
  induction h using First.induction with
  | found => exact Nat.le_refl o
  | next a b hstep _ ih =>
    have := hstep.add_le
    omega

theorem First.unique (h : First id w start a) (h' : First id w start b) : a = b := by
  have hdeterministic : Relator.RightUnique (Next id w) := fun _ _ _ hx hy => hx.unique hy
  have hend : ∀ {x y z}, First id w x y → Relation.ReflTransGen (Next id w) y z → y = z := by
    intro x y z hfirst hwalk
    rcases hwalk.cases_head with heq | ⟨m, hstep, _⟩
    · exact heq
    · exact absurd hfirst.found hstep.other
  rcases Relation.ReflTransGen.total_of_right_unique hdeterministic h.reached h'.reached with hwalk | hwalk
  · exact hend h hwalk
  · exact (hend h' hwalk).symm

theorem First.congr (h : First id w start o) (hlength : w.length = w'.length)
    (hsame : ∀ k, start ≤ k → k < o + 4 → w[k]? = w'[k]?) : First id w' start o := by
  induction h using First.induction with
  | found h =>
    have hid : chunkId w o = chunkId w' o := slice_congr fun k hk => hsame _ (by omega) (by omega)
    exact ⟨.refl, hlength ▸ h.header, hid ▸ h.found⟩
  | next a b hstep hrest ih =>
    have hle := hstep.add_le
    have hlast := hrest.le
    have hlater := ih fun k hk hk' => hsame k (by omega) hk'
    exact hlater.step (hstep.congr hlength fun k hk hk' => hsame k hk (by omega))

/-! ### Encoded chunks -/

structure Chunk where
  id : List UInt8
  payload : List UInt8
  pad : UInt8
  idLength : id.length = 4
  sizeLt : payload.length < 2 ^ 32

namespace Chunk

variable (c : Chunk)

def size : Nat := c.payload.length

def padding : List UInt8 := if c.size % 2 = 1 then [c.pad] else []

def bytes : List UInt8 := c.id ++ (ofNat 4 c.size ++ (c.payload ++ c.padding))

theorem length_padding : c.padding.length = c.size % 2 := by
  unfold padding
  split
  · rename_i hodd
    exact hodd.symm
  · rename_i heven
    rw [List.length_nil]
    omega

theorem length_bytes : c.bytes.length = 8 + c.size + c.size % 2 := by
  rw [bytes, List.length_append, List.length_append, List.length_append, length_ofNat, length_padding,
    c.idLength, size]
  omega

theorem chunkId_append (pre rest : List UInt8) : chunkId (pre ++ (c.bytes ++ rest)) pre.length = c.id := by
  have hslice := slice_append pre c.id (ofNat 4 c.size ++ (c.payload ++ c.padding) ++ rest)
  rw [c.idLength, ← List.append_assoc c.id] at hslice
  exact hslice

theorem chunkSize_append (pre rest : List UInt8) :
    chunkSize (pre ++ (c.bytes ++ rest)) pre.length = c.size := by
  have hslice := slice_append (pre ++ c.id) (ofNat 4 c.size) (c.payload ++ c.padding ++ rest)
  have hassoc : pre ++ c.id ++ (ofNat 4 c.size ++ (c.payload ++ c.padding ++ rest)) =
      pre ++ (c.bytes ++ rest) := by
    simp only [bytes, List.append_assoc]
  rw [hassoc, List.length_append, c.idLength, length_ofNat] at hslice
  rw [chunkSize, hslice]
  exact value_ofNat c.sizeLt

theorem next_append (pre rest : List UInt8) (hother : c.id ≠ id) :
    Next id (pre ++ (c.bytes ++ rest)) pre.length (pre ++ c.bytes).length := by
  constructor
  · rw [chunkId_append]
    exact hother
  · rw [chunkSize_append, List.length_append, length_bytes]
    omega
  · rw [← List.append_assoc]
    exact (List.prefix_append _ _).length_le

theorem header_le (pre rest : List UInt8) : pre.length + 8 ≤ (pre ++ (c.bytes ++ rest)).length := by
  rw [List.length_append, List.length_append, length_bytes]
  omega

theorem first_flatMap (before : List Chunk) (hother : ∀ b ∈ before, b.id ≠ id) (hid : c.id = id)
    (pre rest : List UInt8) :
    First id (pre ++ (before.flatMap bytes ++ (c.bytes ++ rest))) pre.length
      (pre ++ before.flatMap bytes).length := by
  induction before generalizing pre with
  | nil =>
    rw [List.flatMap_nil, List.nil_append, List.append_nil]
    exact ⟨.refl, c.header_le pre rest, (c.chunkId_append pre rest).trans hid⟩
  | cons b before ih =>
    have hrest := ih (fun x hx => hother x (List.mem_cons_of_mem _ hx)) (pre ++ b.bytes)
    have hstep := b.next_append pre (before.flatMap bytes ++ (c.bytes ++ rest)) (hother b List.mem_cons_self)
    rw [List.append_assoc, List.append_assoc] at hrest
    rw [List.flatMap_cons, List.append_assoc]
    exact hrest.step hstep

end Chunk

end Riff
