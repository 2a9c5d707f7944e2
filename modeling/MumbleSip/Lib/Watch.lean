import Mathlib.Tactic.TypeStar

/-!
# Watch channels

A channel that keeps the last value sent, for one sender and any number of receivers. A receiver carries the
version it has seen: it waits until a later one has been sent, and fails once the sender is gone and there is
none. A clone of a receiver has seen what the receiver had.
-/

/-- A value sent while there is no receiver is kept here too: nobody is left who could read it. -/
structure Watch (α : Type*) where
  value : α
  version : Nat
  closed : Bool
  deriving DecidableEq

namespace Watch

variable {α : Type*}

/-- What a receiver that waits for a change gets. -/
inductive Change
  | version (n : Nat)
  | closed
  deriving DecidableEq

def channel (a : α) : Watch α := ⟨a, 0, false⟩

def send (w : Watch α) (a : α) : Watch α := { w with value := a, version := w.version + 1 }

/-- The sender is dropped. -/
def close (w : Watch α) : Watch α := { w with closed := true }

/-- A change that has not been seen comes before the end of the channel. -/
def changed (w : Watch α) (seen : Nat) : Option Change :=
  if w.version ≠ seen then some (.version w.version)
  else if w.closed then some .closed
  else none

theorem changed_channel (a : α) : (channel a).changed 0 = none := rfl

/-- A receiver that was up to date before sees a value that has been sent. -/
theorem changed_send {w : Watch α} {seen : Nat} (hle : seen ≤ w.version) (a : α) :
    (w.send a).changed seen = some (.version (w.version + 1)) := by
  have hne : w.version + 1 ≠ seen := by omega
  exact if_pos hne

theorem changed_close {w : Watch α} {seen n : Nat} (h : w.changed seen = some (.version n)) :
    w.close.changed seen = some (.version n) := by
  unfold changed at h ⊢
  split at h
  · rename_i hne
    rw [← h]
    exact if_pos hne
  · split at h <;> cases h

end Watch
