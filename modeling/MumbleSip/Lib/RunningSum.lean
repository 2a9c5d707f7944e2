import Mathlib.Algebra.Order.Group.PosPart
import Mathlib.Algebra.Order.BigOperators.Group.List
import Mathlib.Algebra.Order.Monoid.Defs
import Mathlib.Data.List.Perm.Basic

/-!
# Running sums between two bounds

A sum is computed term by term in an accumulator that has a least and a greatest value. Whether every value of
it fits depends on the order of the terms. In every order it does if and only if the positive terms alone and
the negative terms alone do.
-/

namespace RunningSum

variable {α ι : Type*} [AddCommGroup α] {f : ι → α} {a : α} {x : ι} {xs : List ι}

theorem sum_filter {g : ι → α} {p : ι → Bool} (hkept : ∀ x ∈ xs, p x = true → f x = g x)
    (hzero : ∀ x ∈ xs, p x = false → g x = 0) : ((xs.filter p).map f).sum = (xs.map g).sum := by
  induction xs with
  | nil => rfl
  | cons x xs ih =>
    have hxs := ih (fun y hy => hkept y (List.mem_cons_of_mem _ hy))
      fun y hy => hzero y (List.mem_cons_of_mem _ hy)
    cases hp : p x with
    | true =>
      rw [List.filter_cons_of_pos hp, List.map_cons, List.map_cons, List.sum_cons, List.sum_cons, hxs,
        hkept x List.mem_cons_self hp]
    | false =>
      rw [List.filter_cons_of_neg (by rw [hp]; exact Bool.false_ne_true), List.map_cons, List.sum_cons,
        hzero x List.mem_cons_self hp, zero_add, hxs]

variable [LinearOrder α] {lo hi : α}

/-- What the terms above zero add. -/
def ups (f : ι → α) (xs : List ι) : α := (xs.map fun x => (f x)⁺).sum

/-- What the terms below zero take away. -/
def downs (f : ι → α) (xs : List ι) : α := (xs.map fun x => (f x)⁻).sum

/-- Every value of the accumulator lies between the bounds, from its first one on. -/
def Within (lo hi : α) (f : ι → α) : α → List ι → Prop
  | a, [] => lo ≤ a ∧ a ≤ hi
  | a, x :: xs => (lo ≤ a ∧ a ≤ hi) ∧ Within lo hi f (a + f x) xs

theorem within_nil : Within lo hi f a [] ↔ lo ≤ a ∧ a ≤ hi := Iff.rfl

theorem within_cons : Within lo hi f a (x :: xs) ↔ (lo ≤ a ∧ a ≤ hi) ∧ Within lo hi f (a + f x) xs := Iff.rfl

theorem Within.start (h : Within lo hi f a xs) : lo ≤ a ∧ a ≤ hi := by
  cases xs with
  | nil => exact h
  | cons x xs => exact h.1

theorem within_append (ys : List ι) : Within lo hi f a (xs ++ ys)
    ↔ Within lo hi f a xs ∧ Within lo hi f (a + (xs.map f).sum) ys := by
  induction xs generalizing a with
  | nil =>
    rw [List.nil_append, List.map_nil, List.sum_nil, add_zero]
    exact ⟨fun h => ⟨h.start, h⟩, fun h => h.2⟩
  | cons x xs ih =>
    rw [List.cons_append, within_cons, within_cons, ih, List.map_cons, List.sum_cons, ← add_assoc,
      and_assoc (a := lo ≤ a ∧ a ≤ hi)]

theorem Within.sum (h : Within lo hi f a xs) : lo ≤ a + (xs.map f).sum ∧ a + (xs.map f).sum ≤ hi := by
  rw [← List.append_nil xs, within_append] at h
  exact h.2

theorem within_map {κ : Type*} (g : κ → ι) (ks : List κ) :
    Within lo hi f a (ks.map g) ↔ Within lo hi (fun k => f (g k)) a ks := by
  induction ks generalizing a with
  | nil => exact Iff.rfl
  | cons k ks ih => rw [List.map_cons, within_cons, within_cons, ih]

theorem within_filter {p : ι → Bool} (hzero : ∀ x ∈ xs, p x = false → f x = 0) :
    Within lo hi f a (xs.filter p) ↔ Within lo hi f a xs := by
  induction xs generalizing a with
  | nil => exact Iff.rfl
  | cons x xs ih =>
    have hxs := fun a => ih (a := a) fun y hy => hzero y (List.mem_cons_of_mem _ hy)
    cases hp : p x with
    | true => rw [List.filter_cons_of_pos hp, within_cons, within_cons, hxs]
    | false =>
      rw [List.filter_cons_of_neg (by rw [hp]; exact Bool.false_ne_true), within_cons,
        hzero x List.mem_cons_self hp, add_zero, hxs]
      exact ⟨fun h => ⟨h.start, h⟩, fun h => h.2⟩

theorem ups_cons : ups f (x :: xs) = (f x)⁺ + ups f xs := by
  rw [ups, List.map_cons, List.sum_cons, ← ups]

theorem downs_cons : downs f (x :: xs) = (f x)⁻ + downs f xs := by
  rw [downs, List.map_cons, List.sum_cons, ← downs]

theorem ups_perm {ys : List ι} (h : ys.Perm xs) : ups f ys = ups f xs := (h.map _).sum_eq

theorem downs_perm {ys : List ι} (h : ys.Perm xs) : downs f ys = downs f xs := (h.map _).sum_eq

theorem sum_filter_pos : ((xs.filter fun x => decide (0 < f x)).map f).sum = ups f xs := by
  apply sum_filter
  · intro x _ hx
    rw [posPart_of_nonneg (of_decide_eq_true hx).le]
  · intro x _ hx
    exact posPart_of_nonpos (not_lt.1 (of_decide_eq_false hx))

variable [IsOrderedAddMonoid α]

theorem ups_nonneg (f : ι → α) (xs : List ι) : 0 ≤ ups f xs := by
  apply List.sum_nonneg
  intro y hy
  obtain ⟨x, _, rfl⟩ := List.mem_map.1 hy
  exact posPart_nonneg _

theorem downs_nonneg (f : ι → α) (xs : List ι) : 0 ≤ downs f xs := by
  apply List.sum_nonneg
  intro y hy
  obtain ⟨x, _, rfl⟩ := List.mem_map.1 hy
  exact negPart_nonneg _

theorem sum_filter_neg : ((xs.filter fun x => decide (f x < 0)).map f).sum = - downs f xs := by
  rw [downs, List.sum_neg, List.map_map]
  apply sum_filter
  · intro x _ hx
    rw [Function.comp_apply, negPart_of_nonpos (of_decide_eq_true hx).le, neg_neg]
  · intro x _ hx
    rw [Function.comp_apply, negPart_of_nonneg (not_lt.1 (of_decide_eq_false hx)), neg_zero]

theorem ups_le_of_le {b : α} (hb : 0 ≤ b) (hle : ∀ x ∈ xs, f x ≤ b) : ups f xs ≤ xs.length • b := by
  have hsum := List.sum_le_card_nsmul (xs.map fun x => (f x)⁺) b
  rw [List.length_map] at hsum
  apply hsum
  intro y hy
  obtain ⟨x, hx, rfl⟩ := List.mem_map.1 hy
  exact max_le (hle x hx) hb

theorem downs_le_of_le {b : α} (hb : 0 ≤ b) (hle : ∀ x ∈ xs, -b ≤ f x) : downs f xs ≤ xs.length • b := by
  have hsum := List.sum_le_card_nsmul (xs.map fun x => (f x)⁻) b
  rw [List.length_map] at hsum
  apply hsum
  intro y hy
  obtain ⟨x, hx, rfl⟩ := List.mem_map.1 hy
  exact max_le (neg_le.1 (hle x hx)) hb

/-- The accumulator never leaves what the positive and the negative terms alone span. -/
theorem start_of_span (hlo : lo ≤ a - downs f xs) (hhi : a + ups f xs ≤ hi) : lo ≤ a ∧ a ≤ hi :=
  ⟨hlo.trans (sub_le_self a (downs_nonneg f xs)), (le_add_of_nonneg_right (ups_nonneg f xs)).trans hhi⟩

theorem within_of_span (hlo : lo ≤ a - downs f xs) (hhi : a + ups f xs ≤ hi) : Within lo hi f a xs := by
  induction xs generalizing a with
  | nil => exact start_of_span hlo hhi
  | cons x xs ih =>
    refine ⟨start_of_span hlo hhi, ih (hlo.trans ?_) (le_trans ?_ hhi)⟩
    · rw [downs_cons, ← sub_sub, sub_eq_add_neg a]
      exact sub_le_sub_right (add_le_add_right (neg_le.1 (neg_le_negPart _)) a) _
    · rw [ups_cons, ← add_assoc]
      exact add_le_add_left (add_le_add_right (le_posPart _) a) _

/-- **Every order.** The accumulator stays between the bounds in every order of the terms if and only if it
does with the positive ones first and with the negative ones first. -/
theorem forall_perm_within_iff : (∀ ys : List ι, ys.Perm xs → Within lo hi f a ys)
    ↔ lo ≤ a - downs f xs ∧ a + ups f xs ≤ hi := by
  constructor
  · intro h
    constructor
    · have hneg := h _ (List.filter_append_perm (fun x => decide (f x < 0)) xs)
      have hsum := ((within_append _).1 hneg).1.sum.1
      rwa [sum_filter_neg, ← sub_eq_add_neg] at hsum
    · have hpos := h _ (List.filter_append_perm (fun x => decide (0 < f x)) xs)
      have hsum := ((within_append _).1 hpos).1.sum.2
      rwa [sum_filter_pos] at hsum
  · rintro ⟨hlo, hhi⟩ ys hperm
    rw [← downs_perm hperm] at hlo
    rw [← ups_perm hperm] at hhi
    exact within_of_span hlo hhi

end RunningSum
