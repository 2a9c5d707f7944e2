import Mathlib.Data.List.Basic
import Mathlib.Data.List.Induction

/-!
# The last word

A history in which some entries have a word on a matter, and what follows from the last of them. A state that
takes every word over and keeps what it has otherwise holds the last word.
-/

namespace History

variable {ε ω σ : Type*} {f : ε → Option ω} {xs ys : List ε} {w : ω}

/-- The last word in the history, where `f` is what an entry says. -/
def lastWord (f : ε → Option ω) (xs : List ε) : Option ω := (xs.filterMap f).getLast?

theorem lastWord_nil : lastWord f [] = none := rfl

theorem lastWord_concat (x : ε) : lastWord f (xs ++ [x]) = (f x).or (lastWord f xs) := by
  rw [lastWord, List.filterMap_append]
  cases hx : f x with
  | none =>
    rw [List.filterMap_cons_none hx, List.filterMap_nil, List.append_nil, Option.none_or]
    rfl
  | some w => rw [List.filterMap_cons_some hx, List.filterMap_nil, List.getLast?_concat, Option.some_or]

theorem lastWord_append : lastWord f (xs ++ ys) = (lastWord f ys).or (lastWord f xs) := by
  induction ys using List.reverseRecOn with
  | nil => rw [List.append_nil, lastWord_nil, Option.none_or]
  | append_singleton ys y ih => rw [← List.append_assoc, lastWord_concat, ih, lastWord_concat, Option.or_assoc]

theorem lastWord_eq_none : lastWord f xs = none ↔ ∀ x ∈ xs, f x = none := by
  rw [lastWord, List.getLast?_eq_none_iff, List.filterMap_eq_nil_iff]

theorem lastWord_map {ω' : Type*} (g : ω → ω') (xs : List ε) :
    lastWord (fun x => (f x).map g) xs = (lastWord f xs).map g := by
  rw [lastWord, ← List.map_filterMap, List.getLast?_map]
  rfl

/-- **A state that takes every word over** holds the last one. -/
theorem foldl_lastWord (view : σ → ω) {step : σ → ε → σ} (hstep : ∀ s x, view (step s x) = (f x).getD (view s))
    (s : σ) (xs : List ε) : view (xs.foldl step s) = (lastWord f xs).getD (view s) := by
  induction xs using List.reverseRecOn with
  | nil => rfl
  | append_singleton xs x ih =>
    rw [List.foldl_append, List.foldl_cons, List.foldl_nil, hstep, ih, lastWord_concat]
    cases f x <;> rfl

theorem lastWord_filterMap {δ : Type*} (g : δ → Option ε) (ds : List δ) :
    lastWord f (ds.filterMap g) = lastWord (fun d => (g d).bind f) ds := by
  rw [lastWord, List.filterMap_filterMap]
  rfl

/-- **One entry more**: what holds of every entry and those before it. -/
theorem forall_split_concat {P : List ε → ε → Prop} {x : ε} :
    (∀ before y after, xs ++ [x] = before ++ y :: after → P before y) ↔
      (∀ before y after, xs = before ++ y :: after → P before y) ∧ P xs x := by
  constructor
  · intro h
    refine ⟨fun before y after heq => h before y (after ++ [x]) ?_, h xs x [] rfl⟩
    rw [heq, List.append_assoc, List.cons_append]
  · rintro ⟨hxs, hx⟩ before y after heq
    rcases List.eq_nil_or_concat' after with rfl | ⟨after, z, rfl⟩
    · obtain ⟨rfl, hlast⟩ := List.append_inj' heq rfl
      cases hlast
      exact hx
    · rw [← List.cons_append, ← List.append_assoc] at heq
      exact hxs before y after (List.append_inj' heq rfl).1

/-! ### Words within words -/

variable {ω' : Type*} {g : ω → Option ω'} {w' : ω'}

theorem lastWord_bind_of_some (h : lastWord f xs = some w) (hw : g w = some w') :
    lastWord (fun x => (f x).bind g) xs = some w' := by
  induction xs using List.reverseRecOn with
  | nil => cases h
  | append_singleton xs x ih =>
    rw [lastWord_concat] at h ⊢
    cases hx : f x with
    | none =>
      rw [hx, Option.none_or] at h
      exact ih h
    | some word =>
      rw [hx, Option.some_or] at h
      cases h
      rw [Option.bind_some, hw, Option.some_or]

theorem lastWord_bind_of_none (h : lastWord f xs = none) : lastWord (fun x => (f x).bind g) xs = none := by
  rw [lastWord_eq_none] at h ⊢
  intro x hx
  rw [h x hx]
  rfl

end History
