import Mathlib.Data.List.Destutter

/-!
# Consecutive repetitions

A list without consecutive elements of one key, and what becomes of it when the list grows at its end.
-/

namespace List

variable {α κ : Type*} [DecidableEq κ] {key : α → κ}

theorem destutter'_concat (a x : α) (l : List α) : (l ++ [x]).destutter' (fun a b => key a ≠ key b) a
    = if key ((a :: l).getLast (cons_ne_nil a l)) = key x then l.destutter' (fun a b => key a ≠ key b) a
      else l.destutter' (fun a b => key a ≠ key b) a ++ [x] := by
  induction l generalizing a with
  | nil =>
    rw [nil_append, destutter'_singleton, ite_not]
    rfl
  | cons b l ih =>
    rw [cons_append, getLast_cons (cons_ne_nil b l)]
    by_cases hkey : key a = key b
    · have hlast : key ((a :: l).getLast (cons_ne_nil a l)) = key ((b :: l).getLast (cons_ne_nil b l)) := by
        cases l with
        | nil => exact hkey
        | cons c l => rfl
      rw [destutter'_cons_neg _ (not_not.2 hkey), destutter'_cons_neg _ (not_not.2 hkey), ih a]
      by_cases hx : key ((b :: l).getLast (cons_ne_nil b l)) = key x
      · rw [if_pos hx, if_pos (hlast.trans hx)]
      · rw [if_neg hx, if_neg fun h => hx (hlast.symm.trans h)]
    · rw [destutter'_cons_pos _ hkey, destutter'_cons_pos _ hkey, ih b, cons_append]
      split_ifs <;> rfl

theorem destutter_concat (x : α) (l : List α) : (l ++ [x]).destutter (fun a b => key a ≠ key b)
    = if l.getLast?.map key = some (key x) then l.destutter (fun a b => key a ≠ key b)
      else l.destutter (fun a b => key a ≠ key b) ++ [x] := by
  cases l with
  | nil => rfl
  | cons a l =>
    rw [cons_append, destutter_cons', destutter_cons', destutter'_concat,
      getLast?_eq_some_getLast (cons_ne_nil a l)]
    simp only [Option.map_some, Option.some.injEq]

end List
