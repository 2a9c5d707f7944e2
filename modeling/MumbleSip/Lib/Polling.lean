import Mathlib.Tactic.ByContra

/-!
# Polling

A loop that makes one attempt after another, pauses after each that fails, and gives up when a condition on the
attempts made so far no longer holds. How long the attempts and the pauses take is any function of their number,
so what is shown of a run holds whatever the other side does.
-/

namespace Polling

structure Attempt where
  ok : Bool
  duration : Nat
  /-- The pause after the attempt, if there is another one. -/
  pause : Nat

variable (attempts : Nat → Attempt) (start : Nat)

def startedAt : Nat → Nat
  | 0 => start
  | i + 1 => startedAt i + (attempts i).duration + (attempts i).pause

def endedAt (i : Nat) : Nat := startedAt attempts start i + (attempts i).duration

/-- The last attempt of a run has this outcome; `more` says whether there is another one after a failure. -/
structure Ran (more : Nat → Prop) (last : Nat) (ok : Bool) : Prop where
  before : ∀ i < last, (attempts i).ok = false ∧ more i
  outcome : (attempts last).ok = ok
  stops : ok = false → ¬more last

variable {attempts start} {more : Nat → Prop} {last : Nat} {ok : Bool}

theorem startedAt_succ (i : Nat) : startedAt attempts start (i + 1)
    = startedAt attempts start i + (attempts i).duration + (attempts i).pause := rfl

theorem le_startedAt (attempts : Nat → Attempt) (start : Nat) {pause : Nat}
    (hpause : ∀ i, pause ≤ (attempts i).pause) (i : Nat) : start + i * pause ≤ startedAt attempts start i := by
  induction i with
  | zero => simp only [startedAt, Nat.zero_mul, Nat.add_zero, Nat.le_refl]
  | succ i ih =>
    have hi := hpause i
    rw [startedAt_succ, Nat.succ_mul]
    omega

/-- **What a run finds.** A run succeeds exactly if an attempt would that nothing before it stops. -/
theorem Ran.ok_iff (h : Ran attempts more last ok) :
    ok = true ↔ ∃ i, (attempts i).ok = true ∧ ∀ j < i, more j := by
  constructor
  · rintro rfl
    exact ⟨last, h.outcome, fun j hj => (h.before j hj).2⟩
  · rintro ⟨i, hi, hmore⟩
    by_contra hne
    have hfalse : ok = false := Bool.of_not_eq_true hne
    have hlast := h.outcome
    rw [hfalse] at hlast
    rcases Nat.lt_trichotomy i last with hlt | rfl | hgt
    · rw [(h.before i hlt).1] at hi
      cases hi
    · rw [hlast] at hi
      cases hi
    · exact h.stops hfalse (hmore last hgt)

theorem Ran.le (h : Ran attempts more last ok) {bound : Nat} (hmore : ∀ i, more i → i < bound) : last ≤ bound := by
  cases last with
  | zero => exact Nat.zero_le _
  | succ last => exact hmore last (h.before last (Nat.lt_succ_self last)).2

theorem Ran.endedAt_le (h : Ran attempts more last ok) {duration pause time : Nat}
    (hduration : ∀ i, (attempts i).duration ≤ duration) (hpause : ∀ i, (attempts i).pause ≤ pause)
    (hstart : start ≤ time) (hmore : ∀ i, more i → endedAt attempts start i ≤ time) :
    endedAt attempts start last ≤ time + pause + duration := by
  have hstarted : startedAt attempts start last ≤ time + pause := by
    cases last with
    | zero => exact Nat.le_trans hstart (Nat.le_add_right _ _)
    | succ last => exact Nat.add_le_add (hmore last (h.before last (Nat.lt_succ_self last)).2) (hpause last)
  exact Nat.add_le_add hstarted (hduration last)

/-- A run that goes on up to some time succeeds if the attempts from then on do. -/
theorem Ran.found (h : Ran attempts more last ok) (time : Nat)
    (hok : ∀ i, time ≤ startedAt attempts start i → (attempts i).ok = true)
    (hmore : ∀ i, startedAt attempts start i < time → more i) : ok = true := by
  by_contra hne
  have hfalse : ok = false := Bool.of_not_eq_true hne
  have hearly : startedAt attempts start last < time := by
    by_contra hlate
    have hlast := hok last (Nat.le_of_not_lt hlate)
    rw [h.outcome, hfalse] at hlast
    cases hlast
  exact h.stops hfalse (hmore last hearly)

end Polling
