import Mathlib.Algebra.Group.Nat.Defs

/-!
# Checked arithmetic

Unsigned arithmetic in a width of so many bits. What overflows, or divides by zero, has no result.
-/

namespace Checked

def mul (bits a b : Nat) : Option Nat := if a * b < 2 ^ bits then some (a * b) else none

def div (a b : Nat) : Option Nat := if b = 0 then none else some (a / b)

theorem mul_eq_some {bits a b c : Nat} : mul bits a b = some c ↔ a * b < 2 ^ bits ∧ c = a * b := by
  unfold mul
  split
  · rename_i h
    rw [Option.some.injEq, eq_comm]
    exact (and_iff_right h).symm
  · rename_i h
    constructor
    · intro hnone
      cases hnone
    · intro hsome
      exact absurd hsome.1 h

theorem mul_of_lt {bits a b : Nat} (h : a * b < 2 ^ bits) : mul bits a b = some (a * b) :=
  mul_eq_some.2 ⟨h, rfl⟩

theorem mul_of_le {bits a b m n : Nat} (ha : a ≤ m) (hb : b ≤ n) (h : m * n < 2 ^ bits) :
    mul bits a b = some (a * b) :=
  mul_of_lt (Nat.lt_of_le_of_lt (Nat.mul_le_mul ha hb) h)

theorem div_of_pos (a : Nat) {b : Nat} (hb : 0 < b) : div a b = some (a / b) := if_neg (Nat.ne_of_gt hb)

end Checked
