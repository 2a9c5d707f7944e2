import Mathlib.Algebra.Order.Floor.Semiring
import Mathlib.Data.Rat.Floor
import Mathlib.Tactic.Linarith

/-!
# Rounding and interpolation

Rounding to the nearest integer with halves away from zero, and points between two others.
-/

namespace Rounding

variable {x y : ℚ}

/-- The nearest integer, where halves are rounded away from zero. -/
def roundAway (x : ℚ) : ℤ := if 0 ≤ x then ⌊x + 1 / 2⌋ else -⌊-x + 1 / 2⌋

theorem roundAway_of_nonneg (h : 0 ≤ x) : roundAway x = ⌊x + 1 / 2⌋ := if_pos h

theorem roundAway_of_neg (h : x < 0) : roundAway x = -⌊-x + 1 / 2⌋ := if_neg (not_le.2 h)

theorem roundAway_nonneg (h : 0 ≤ x) : 0 ≤ roundAway x := by
  rw [roundAway_of_nonneg h]
  apply Int.floor_nonneg.2
  linarith

theorem roundAway_nonpos (h : x < 0) : roundAway x ≤ 0 := by
  rw [roundAway_of_neg h]
  have hfloor : 0 ≤ ⌊-x + 1 / 2⌋ := Int.floor_nonneg.2 (by linarith)
  omega

theorem roundAway_mono (h : x ≤ y) : roundAway x ≤ roundAway y := by
  by_cases hx : 0 ≤ x
  · rw [roundAway_of_nonneg hx, roundAway_of_nonneg (hx.trans h)]
    apply Int.floor_le_floor
    linarith
  · rw [not_le] at hx
    by_cases hy : 0 ≤ y
    · exact (roundAway_nonpos hx).trans (roundAway_nonneg hy)
    · rw [not_le] at hy
      rw [roundAway_of_neg hx, roundAway_of_neg hy]
      apply neg_le_neg
      apply Int.floor_le_floor
      linarith

theorem floor_add_half (k : ℤ) : ⌊(k : ℚ) + 1 / 2⌋ = k := by
  apply Int.floor_eq_iff.2
  constructor
  · linarith
  · linarith

theorem roundAway_intCast (k : ℤ) : roundAway k = k := by
  by_cases h : (0 : ℚ) ≤ k
  · rw [roundAway_of_nonneg h, floor_add_half]
  · rw [not_le] at h
    have hneg := floor_add_half (-k)
    rw [Int.cast_neg] at hneg
    rw [roundAway_of_neg h, hneg, neg_neg]

theorem roundAway_mem {m n : ℤ} (hm : (m : ℚ) ≤ x) (hn : x ≤ n) : m ≤ roundAway x ∧ roundAway x ≤ n := by
  have hlow := roundAway_mono hm
  have hhigh := roundAway_mono hn
  rw [roundAway_intCast] at hlow hhigh
  exact ⟨hlow, hhigh⟩

theorem lt_of_lt_roundAway {i : ℕ} (hx : 0 ≤ x) (h : i < (roundAway x).toNat) : (i : ℚ) < x := by
  rw [roundAway_of_nonneg hx] at h
  have hle : ((i + 1 : ℤ) : ℚ) ≤ x + 1 / 2 := Int.le_floor.1 (by omega)
  rw [Int.cast_add, Int.cast_one, Int.cast_natCast] at hle
  linarith

/-! ### Interpolation -/

variable {a b t : ℚ}

theorem min_le_interpolate (h0 : 0 ≤ t) (h1 : t ≤ 1) : min a b ≤ a + (b - a) * t := by
  rcases le_total a b with hab | hab
  · rw [min_eq_left hab]
    have := mul_nonneg (sub_nonneg.2 hab) h0
    linarith
  · rw [min_eq_right hab]
    have := mul_nonneg (sub_nonneg.2 hab) (sub_nonneg.2 h1)
    linarith

theorem interpolate_le_max (h0 : 0 ≤ t) (h1 : t ≤ 1) : a + (b - a) * t ≤ max a b := by
  rcases le_total a b with hab | hab
  · rw [max_eq_right hab]
    have := mul_nonneg (sub_nonneg.2 hab) (sub_nonneg.2 h1)
    linarith
  · rw [max_eq_left hab]
    have := mul_nonneg (sub_nonneg.2 hab) h0
    linarith

theorem sub_floor_mem (hx : 0 ≤ x) : 0 ≤ x - ⌊x⌋₊ ∧ x - ⌊x⌋₊ ≤ 1 := by
  have hle := Nat.floor_le hx
  have hlt := Nat.lt_floor_add_one x
  constructor
  · linarith
  · linarith

end Rounding
