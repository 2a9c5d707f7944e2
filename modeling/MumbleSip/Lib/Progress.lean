import MumbleSip.Lib.Transition
import Mathlib.Algebra.BigOperators.Group.Finset.Basic
import Mathlib.Algebra.BigOperators.Intervals
import Mathlib.Algebra.Order.BigOperators.Group.Finset
import Mathlib.Tactic.ByContra

/-!
# Progress of transition systems

A run whose steps meet `ok`, counted. Where each such step takes something from a measure, a run has no more
steps than the measure had at its start; and where a state with something left has a step to take, whoever
stops has nothing left. The work of a system with numbered parts is a sum over the parts, of which a step
changes one.
-/

namespace Transition

universe u v

namespace System

variable {σ : Type u} {α : Type v} {T : System σ α} {ok fair : σ → α → Prop} {I : σ → Prop} {μ : σ → Nat}

variable (T) in
/-- A number of steps that all meet `ok` leads from one state to the other. -/
inductive Steps (ok : σ → α → Prop) (s : σ) : Nat → σ → Prop
  | refl : Steps ok s 0 s
  | step {n : Nat} {s' : σ} {a : α} (hs : Steps ok s n s') (hen : T.enabled s' a) (hok : ok s' a) :
      Steps ok s (n + 1) (T.next s' a)

variable (T) in
/-- No step that meets `ok` can be taken. -/
def Stuck (ok : σ → α → Prop) (s : σ) : Prop := ∀ a, T.enabled s a → ¬ok s a

/-- A measure that the `ok` steps of the states with `I` decrease. -/
structure Decreases (T : System σ α) (ok : σ → α → Prop) (I : σ → Prop) (μ : σ → Nat) : Prop where
  keeps : ∀ s a, I s → T.enabled s a → ok s a → I (T.next s a)
  lt : ∀ s a, I s → T.enabled s a → ok s a → μ (T.next s a) < μ s

theorem Decreases.mono (h : T.Decreases ok I μ) (himp : ∀ s a, fair s a → ok s a) :
    T.Decreases fair I μ where
  keeps s a hI hen hfair := h.keeps s a hI hen (himp s a hfair)
  lt s a hI hen hfair := h.lt s a hI hen (himp s a hfair)

theorem Steps.reaches {s s' : σ} {n : Nat} (hs : T.Steps ok s n s') : (T.startingAt s).Reaches ok s' := by
  induction hs with
  | refl => exact .init rfl
  | step _ hen hok ih => exact ih.step hen hok

theorem Steps.trans {s s' s'' : σ} {m n : Nat} (hs : T.Steps ok s m s') (hs' : T.Steps ok s' n s'') :
    T.Steps ok s (m + n) s'' := by
  induction hs' with
  | refl => exact hs
  | step _ hen hok ih => exact ih.step hen hok

theorem Steps.invariant (h : T.Decreases ok I μ) {s s' : σ} {n : Nat} (hI : I s) (hs : T.Steps ok s n s') :
    I s' :=
  hs.reaches.stable hI h.keeps

theorem Steps.run [∀ s a, Decidable (T.enabled s a)] [∀ s a, Decidable (ok s a)] {s s' s'' : σ} {n : Nat}
    {as : List α} (hs : T.Steps ok s n s') (hrun : T.run ok s' as = some s'') :
    T.Steps ok s (n + as.length) s'' := by
  induction as generalizing n s' with
  | nil =>
    cases hrun
    exact hs
  | cons a as ih =>
    simp only [System.run] at hrun
    split at hrun
    · rename_i hstep
      rw [List.length_cons, Nat.add_comm as.length 1, ← Nat.add_assoc]
      exact ih (hs.step hstep.1 hstep.2) hrun
    · cases hrun

theorem run_cons [∀ s a, Decidable (T.enabled s a)] [∀ s a, Decidable (ok s a)] {s : σ} {a : α}
    (hen : T.enabled s a) (hok : ok s a) (as : List α) : T.run ok s (a :: as) = T.run ok (T.next s a) as := by
  rw [System.run, if_pos ⟨hen, hok⟩]

/-- **Bounded runs.** The steps taken and what is left are at most what there was. -/
theorem Steps.add_le (h : T.Decreases ok I μ) {s s' : σ} {n : Nat} (hI : I s) (hs : T.Steps ok s n s') :
    n + μ s' ≤ μ s := by
  induction hs with
  | refl => rw [Nat.zero_add]
  | @step n s' a hs hen hok ih =>
    have hlt := h.lt s' a (Steps.invariant h hI hs) hen hok
    omega

/-- **Completion.** Where every state with something left has a step to take, some run ends with nothing
left. -/
theorem Decreases.exists_steps (h : T.Decreases ok I μ)
    (hstep : ∀ s, I s → μ s ≠ 0 → ∃ a, T.enabled s a ∧ ok s a) {s : σ} (hI : I s) :
    ∃ n s', T.Steps ok s n s' ∧ μ s' = 0 := by
  induction hμ : μ s using Nat.strong_induction_on generalizing s with
  | h k ih =>
    by_cases hzero : μ s = 0
    · exact ⟨0, s, .refl, hzero⟩
    · obtain ⟨a, hen, hok⟩ := hstep s hI hzero
      have hlt := h.lt s a hI hen hok
      rw [hμ] at hlt
      obtain ⟨n, s', hsteps, hdone⟩ := ih _ hlt (h.keeps s a hI hen hok) rfl
      exact ⟨1 + n, s', (Steps.refl.step hen hok).trans hsteps, hdone⟩

/-- From every state some run goes on until no step is left. -/
theorem Decreases.exists_stuck (h : T.Decreases ok I μ) {s : σ} (hI : I s) :
    ∃ n s', T.Steps ok s n s' ∧ T.Stuck ok s' := by
  induction hμ : μ s using Nat.strong_induction_on generalizing s with
  | h k ih =>
    by_cases hstuck : T.Stuck ok s
    · exact ⟨0, s, .refl, hstuck⟩
    · obtain ⟨a, hen, hok⟩ : ∃ a, T.enabled s a ∧ ok s a := by
        by_contra hnone
        exact hstuck fun a hen hok => hnone ⟨a, hen, hok⟩
      have hlt := h.lt s a hI hen hok
      rw [hμ] at hlt
      obtain ⟨n, s', hsteps, hdone⟩ := ih _ hlt (h.keeps s a hI hen hok) rfl
      exact ⟨1 + n, s', (Steps.refl.step hen hok).trans hsteps, hdone⟩

end System

/-! ### Work in numbered parts -/

section Parts

variable {f g : Nat → Nat} {n i : Nat}

theorem sum_range_change (hi : i < n) (h : ∀ j, j ≠ i → g j = f j) :
    ∑ j ∈ Finset.range n, g j + f i = ∑ j ∈ Finset.range n, f j + g i := by
  have hmem : i ∈ Finset.range n := Finset.mem_range.2 hi
  have hrest : ∑ j ∈ (Finset.range n).erase i, g j = ∑ j ∈ (Finset.range n).erase i, f j :=
    Finset.sum_congr rfl fun j hj => h j (Finset.ne_of_mem_erase hj)
  rw [← Finset.add_sum_erase _ _ hmem, ← Finset.add_sum_erase _ f hmem, hrest]
  omega

theorem sum_range_lt (hi : i < n) (h : ∀ j, j ≠ i → g j = f j) (hlt : g i < f i) :
    ∑ j ∈ Finset.range n, g j < ∑ j ∈ Finset.range n, f j := by
  have hchange := sum_range_change hi h
  omega

theorem sum_range_succ_change (h : ∀ j, j < n → g j = f j) :
    ∑ j ∈ Finset.range (n + 1), g j = ∑ j ∈ Finset.range n, f j + g n := by
  rw [Finset.sum_range_succ]
  congr 1
  exact Finset.sum_congr rfl fun j hj => h j (Finset.mem_range.1 hj)

theorem exists_of_sum_range_ne_zero (h : ∑ j ∈ Finset.range n, f j ≠ 0) : ∃ j, j < n ∧ f j ≠ 0 := by
  obtain ⟨j, hj, hne⟩ := Finset.exists_ne_zero_of_sum_ne_zero h
  exact ⟨j, Finset.mem_range.1 hj, hne⟩

theorem eq_zero_of_sum_range {j : Nat} (h : ∑ j ∈ Finset.range n, f j = 0) (hj : j < n) : f j = 0 :=
  Finset.sum_eq_zero_iff.1 h j (Finset.mem_range.2 hj)

theorem sum_range_le {b : Nat} (h : ∀ j, f j ≤ b) (n : Nat) : ∑ j ∈ Finset.range n, f j ≤ n * b := by
  have hle := Finset.sum_le_card_nsmul (Finset.range n) f b fun j _ => h j
  rwa [Finset.card_range, Nat.nsmul_eq_mul] at hle

end Parts

end Transition
