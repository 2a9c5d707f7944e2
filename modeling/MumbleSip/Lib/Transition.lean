import Mathlib.Logic.Relation

/-!
# Guarded transition systems

A system is a set of initial states, a guard and a successor function. A run may be restricted to
the steps that meet a condition `ok`: a fact proved of `Reaches ok` holds in every state of every run
whose steps all meet it, and `Reachable` is the unrestricted case. Where it matters which actions a run has
taken, `Trace` lists them. The guard and the conditions of a concrete run are decidable, so `run` replays a
list of actions and `reaches_of_run` turns the replay into a reachable state.
-/

namespace Transition

universe u v

/-- States, actions, and what an action does where its guard lets it be taken. -/
structure System (σ : Type u) (α : Type v) where
  init : σ → Prop
  enabled : σ → α → Prop
  next : σ → α → σ

namespace System

variable {σ : Type u} {α : Type v} (T : System σ α)

/-- The states of the runs whose steps all meet `ok`. -/
inductive Reaches (ok : σ → α → Prop) : σ → Prop
  | init {s : σ} (hinit : T.init s) : Reaches ok s
  | step {s : σ} {a : α} (hs : Reaches ok s) (hen : T.enabled s a) (hok : ok s a) :
      Reaches ok (T.next s a)

/-- The condition every step meets. -/
def anyStep (_ : σ) (_ : α) : Prop := True

instance (s : σ) (a : α) : Decidable (anyStep s a) := inferInstanceAs (Decidable True)

/-- The states of all runs. -/
abbrev Reachable (s : σ) : Prop := T.Reaches anyStep s

/-- The same system, started in `s`. -/
def startingAt (s : σ) : System σ α := { T with init := fun s' => s' = s }

variable {T} {ok ok' : σ → α → Prop}

theorem Reaches.mono (himp : ∀ s a, T.Reaches ok s → T.enabled s a → ok s a → ok' s a) {s : σ}
    (hs : T.Reaches ok s) : T.Reaches ok' s := by
  induction hs with
  | init hinit => exact .init hinit
  | step hs hen hok ih => exact .step ih hen (himp _ _ hs hen hok)

theorem Reaches.reachable {s : σ} (hs : T.Reaches ok s) : T.Reachable s :=
  hs.mono fun _ _ _ _ _ => trivial

/-- **Induction over runs.** An initial property kept by the steps that meet `ok` holds in every state of
every run made of such steps. -/
theorem Reaches.invariant {I : σ → Prop} (hinit : ∀ s, T.init s → I s)
    (hstep : ∀ s a, T.Reaches ok s → I s → T.enabled s a → ok s a → I (T.next s a)) {s : σ}
    (hs : T.Reaches ok s) : I s := by
  induction hs with
  | init h => exact hinit _ h
  | step hs hen hok ih => exact hstep _ _ hs ih hen hok

/-- A property that `ok` steps keep, once it holds, holds in every later state. -/
theorem Reaches.stable {P : σ → Prop} {s₀ : σ} (hP : P s₀)
    (hstep : ∀ s a, P s → T.enabled s a → ok s a → P (T.next s a)) {s : σ}
    (hs : (T.startingAt s₀).Reaches ok s) : P s := by
  apply hs.invariant (I := P)
  · rintro s rfl
    exact hP
  · intro s a _ hP hen hok
    exact hstep s a hP hen hok

theorem Reaches.trans {s₀ s : σ} (h₀ : T.Reaches ok s₀) (hs : (T.startingAt s₀).Reaches ok s) :
    T.Reaches ok s := by
  apply hs.invariant (I := T.Reaches ok)
  · rintro s rfl
    exact h₀
  · intro s a _ ih hen hok
    exact ih.step hen hok

/-- **Simulation.** If every step is matched in `U`, under `f`, by a step or by staying, then the image
of a reached state is reached. -/
theorem Reaches.map {τ : Type*} {β : Type*} {U : System τ β} {okU : τ → β → Prop} (f : σ → τ)
    (hinit : ∀ s, T.init s → U.init (f s))
    (hstep : ∀ s a, T.enabled s a → ok s a → f (T.next s a) = f s ∨
      ∃ b, U.enabled (f s) b ∧ okU (f s) b ∧ U.next (f s) b = f (T.next s a))
    {s : σ} (hs : T.Reaches ok s) : U.Reaches okU (f s) := by
  induction hs with
  | init h => exact .init (hinit _ h)
  | @step s a _ hen hok ih =>
    rcases hstep s a hen hok with heq | ⟨b, hben, hbok, hb⟩
    · rw [heq]
      exact ih
    · rw [← hb]
      exact ih.step hben hbok

/-! ### The actions of a run -/

variable (T) (ok) in
/-- The runs whose steps all meet `ok`, with their actions in order. -/
inductive Trace : List α → σ → Prop
  | init {s : σ} (hinit : T.init s) : Trace [] s
  | step {as : List α} {s : σ} {a : α} (hs : Trace as s) (hen : T.enabled s a) (hok : ok s a) :
      Trace (as ++ [a]) (T.next s a)

theorem filterMap_concat {β : Type*} (f : α → Option β) (as : List α) (a : α) :
    (as ++ [a]).filterMap f = as.filterMap f ++ (f a).toList := by
  rw [List.filterMap_append]
  cases hf : f a with
  | none => rw [List.filterMap_cons_none hf, List.filterMap_nil, Option.toList_none]
  | some b => rw [List.filterMap_cons_some hf, List.filterMap_nil, Option.toList_some]

theorem Reaches.exists_trace {s : σ} (hs : T.Reaches ok s) : ∃ as, T.Trace ok as s := by
  induction hs with
  | init hinit => exact ⟨[], .init hinit⟩
  | step _ hen hok ih =>
    obtain ⟨as, has⟩ := ih
    exact ⟨_, has.step hen hok⟩

/-- **Induction over runs**, for a property of the state and of the actions that have led to it. -/
theorem Trace.invariant {I : List α → σ → Prop} (hinit : ∀ s, T.init s → I [] s)
    (hstep : ∀ as s a, T.Trace ok as s → I as s → T.enabled s a → ok s a → I (as ++ [a]) (T.next s a))
    {as : List α} {s : σ} (hs : T.Trace ok as s) : I as s := by
  induction hs with
  | init h => exact hinit _ h
  | step hs hen hok ih => exact hstep _ _ _ hs ih hen hok

/-! ### Replaying a run -/

section Replay

variable (T) (ok) [∀ s a, Decidable (T.enabled s a)] [∀ s a, Decidable (ok s a)]

/-- Take the listed actions one after another, while each is enabled and meets `ok`. -/
def run : σ → List α → Option σ
  | s, [] => some s
  | s, a :: as => if T.enabled s a ∧ ok s a then run (T.next s a) as else none

variable {T ok} in
theorem Reaches.run {s : σ} (hs : T.Reaches ok s) {as : List α} {s' : σ}
    (hrun : T.run ok s as = some s') : T.Reaches ok s' := by
  induction as generalizing s with
  | nil =>
    cases hrun
    exact hs
  | cons a as ih =>
    simp only [System.run] at hrun
    split at hrun
    · rename_i hstep
      exact ih (hs.step hstep.1 hstep.2) hrun
    · cases hrun

theorem exists_reaches_of_run {s : σ} (hinit : T.init s) (as : List α) (P : σ → Bool)
    (hrun : (T.run ok s as).any P = true) : ∃ s', T.Reaches ok s' ∧ P s' = true := by
  obtain ⟨hsome, hP⟩ := (Option.any_eq_true_iff_get P _).1 hrun
  exact ⟨_, (Reaches.init hinit).run (Option.some_get hsome).symm, hP⟩

end Replay

end System

end Transition
