import MumbleSip.Lib.Transition

/-!
# Observers of transition systems

A part of the state that follows from some of the actions alone: each of these updates it in one way, and the
others leave it. Two runs that agree on these actions agree on the part, whatever else happens in them and in
whichever order.
-/

namespace Transition

universe u v w

namespace System

variable {σ : Type u} {α : Type v} {τ : Type w} {β : Type*} {T : System σ α} {ok : σ → α → Prop}

/-- The part `f` of the state depends on what is seen of the actions, by the function `g`. -/
structure Observes (T : System σ α) (seen : α → Option β) (f : σ → τ) (g : τ → β → τ) : Prop where
  update : ∀ s a b, T.enabled s a → seen a = some b → f (T.next s a) = g (f s) b
  keep : ∀ s a, T.enabled s a → seen a = none → f (T.next s a) = f s

variable {seen : α → Option β} {f : σ → τ} {g : τ → β → τ} [∀ s a, Decidable (T.enabled s a)]
  [∀ s a, Decidable (ok s a)]

/-- **Projection of a run.** -/
theorem Observes.run (h : T.Observes seen f g) {as : List α} {s s' : σ} (hrun : T.run ok s as = some s') :
    f s' = (as.filterMap seen).foldl g (f s) := by
  induction as generalizing s with
  | nil =>
    cases hrun
    rfl
  | cons a as ih =>
    simp only [System.run] at hrun
    split at hrun
    · rename_i hstep
      cases hseen : seen a with
      | none => rw [List.filterMap_cons_none hseen, ih hrun, h.keep s a hstep.1 hseen]
      | some b => rw [List.filterMap_cons_some hseen, List.foldl_cons, ih hrun, h.update s a b hstep.1 hseen]
    · cases hrun

/-- **Noninterference.** Runs in which the same is seen end with the same part. -/
theorem Observes.run_eq (h : T.Observes seen f g) {as as' : List α} {s₁ s₂ s₁' s₂' : σ} (hstart : f s₁ = f s₂)
    (hrun : T.run ok s₁ as = some s₁') (hrun' : T.run ok s₂ as' = some s₂')
    (hseen : as.filterMap seen = as'.filterMap seen) : f s₁' = f s₂' := by
  rw [h.run hrun, h.run hrun', hseen, hstart]

end System

end Transition
