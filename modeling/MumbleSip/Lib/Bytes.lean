import Mathlib.Algebra.Group.Nat.Defs

/-!
# Byte strings

Little-endian numbers of any width, and the part of a string that is read or written in place.
-/

namespace Bytes

/-- The number whose bytes these are, the lowest first. -/
def value : List UInt8 → Nat
  | [] => 0
  | b :: bs => b.toNat + 256 * value bs

/-- The `width` lowest bytes of a number. -/
def ofNat : Nat → Nat → List UInt8
  | 0, _ => []
  | width + 1, n => UInt8.ofNat n :: ofNat width (n / 256)

@[simp] theorem length_ofNat (width n : Nat) : (ofNat width n).length = width := by
  induction width generalizing n with
  | zero => rfl
  | succ width ih => rw [ofNat, List.length_cons, ih]

theorem value_lt (bs : List UInt8) : value bs < 256 ^ bs.length := by
  induction bs with
  | nil => exact Nat.one_pos
  | cons b bs ih =>
    have hb := b.toNat_lt
    rw [value, List.length_cons, Nat.pow_succ]
    omega

theorem value_ofNat {width n : Nat} (h : n < 256 ^ width) : value (ofNat width n) = n := by
  induction width generalizing n with
  | zero =>
    rw [Nat.pow_zero] at h
    rw [ofNat, value]
    omega
  | succ width ih =>
    rw [Nat.pow_succ] at h
    rw [ofNat, value, UInt8.toNat_ofNat', ih (by omega)]
    omega

theorem ofNat_value (bs : List UInt8) : ofNat bs.length (value bs) = bs := by
  induction bs with
  | nil => rfl
  | cons b bs ih =>
    have hb := b.toNat_lt
    have hlow : UInt8.ofNat (b.toNat + 256 * value bs) = b := by
      apply UInt8.toNat.inj
      rw [UInt8.toNat_ofNat']
      omega
    have hhigh : (b.toNat + 256 * value bs) / 256 = value bs := by omega
    rw [List.length_cons, value, ofNat, hlow, hhigh, ih]

/-! ### Parts of a string -/

section

variable {α : Type*} {l new : List α} {i j n : Nat}

/-- The `n` elements from position `i` on. -/
def slice (l : List α) (i n : Nat) : List α := (l.drop i).take n

/-- The list with `new` written over what is at position `i`. -/
def patch (l : List α) (i : Nat) (new : List α) : List α := l.take i ++ new ++ l.drop (i + new.length)

theorem length_slice (h : i + n ≤ l.length) : (slice l i n).length = n := by
  rw [slice, List.length_take, List.length_drop]
  omega

theorem getElem?_slice (l : List α) (i n k : Nat) : (slice l i n)[k]? = if k < n then l[i + k]? else none := by
  rw [slice, List.getElem?_take, List.getElem?_drop]

theorem slice_append (l new rest : List α) : slice (l ++ (new ++ rest)) l.length new.length = new := by
  rw [slice, List.drop_left, List.take_left]

theorem slice_congr {l' : List α} (h : ∀ k < n, l[i + k]? = l'[i + k]?) : slice l i n = slice l' i n := by
  apply List.ext_getElem?
  intro k
  rw [getElem?_slice, getElem?_slice]
  split
  · rename_i hk
    exact h k hk
  · rfl

theorem length_patch (h : i + new.length ≤ l.length) : (patch l i new).length = l.length := by
  rw [patch, List.length_append, List.length_append, List.length_take, List.length_drop]
  omega

theorem getElem?_patch (h : i + new.length ≤ l.length) (hout : j < i ∨ i + new.length ≤ j) :
    (patch l i new)[j]? = l[j]? := by
  have htake : (l.take i).length = i := by
    rw [List.length_take]
    omega
  rw [patch, List.append_assoc]
  by_cases hj : j < i
  · rw [List.getElem?_append_left (by omega), List.getElem?_take_of_lt hj]
  · rw [List.getElem?_append_right (by omega), List.getElem?_append_right (by omega), List.getElem?_drop]
    congr 1
    omega

theorem slice_patch (h : i + new.length ≤ l.length) : slice (patch l i new) i new.length = new := by
  have htake : (l.take i).length = i := by
    rw [List.length_take]
    omega
  have hslice := slice_append (l.take i) new (l.drop (i + new.length))
  rw [htake, ← List.append_assoc] at hslice
  exact hslice

theorem slice_patch_of_disjoint (h : i + new.length ≤ l.length) (hout : j + n ≤ i ∨ i + new.length ≤ j) :
    slice (patch l i new) j n = slice l j n := by
  apply slice_congr
  intro k hk
  apply getElem?_patch h
  omega

theorem patch_slice (h : i + n ≤ l.length) : patch l i (slice l i n) = l := by
  rw [patch, length_slice h, slice, ← List.drop_drop, List.append_assoc, List.take_append_drop,
    List.take_append_drop]

end

end Bytes
