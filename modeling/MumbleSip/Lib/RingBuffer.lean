/-!
# Ring buffers between two threads

One thread pushes and one pops. Each knows of the other only what it has last seen, which may be out of date:
the thread that pushes may see less room than there is, and the one that pops fewer elements. What both rely on
is that the elements accepted come out in order, and that the consumer gets the elements it has seen.
-/

/-- A single-producer single-consumer queue, with what its users rely on. -/
structure RingBuffer (α : Type) where
  State : Type
  /-- How far a thread sees what the other one has done. -/
  View : Type
  empty : State
  queue : State → List α
  /-- The number of elements that the consumer has seen. -/
  occupiedLen : State → Nat
  /-- How many of the elements a push accepts. -/
  written : State → List α → Nat
  push : State → List α → State
  /-- The elements that a pop of at most so many takes out. -/
  popped : State → Nat → List α
  pop : State → Nat → State
  see : State → View → State
  queue_empty : queue empty = []
  written_le : ∀ r xs, written r xs ≤ xs.length
  queue_push : ∀ r xs, queue (push r xs) = queue r ++ xs.take (written r xs)
  occupiedLen_push : ∀ r xs, occupiedLen r ≤ occupiedLen (push r xs)
  length_popped_le : ∀ r n, (popped r n).length ≤ n
  length_popped : ∀ r n, n ≤ occupiedLen r → (popped r n).length = n
  popped_append : ∀ r n, popped r n ++ queue (pop r n) = queue r
  queue_see : ∀ r v, queue (see r v) = queue r
  occupiedLen_see : ∀ r v, occupiedLen r ≤ occupiedLen (see r v)

namespace RingBuffer

variable {α : Type}

/-! ### Accounts -/

/-- What the producer has pushed at once, and how much of it was accepted. -/
structure Pushed (α : Type) where
  elements : List α
  written : Nat

namespace Pushed

variable (p : Pushed α)

def accepted : List α := p.elements.take p.written

def lost : Nat := p.elements.length - p.written

end Pushed

section

variable (ring : RingBuffer α)

/-- What the producer notes of a push. -/
def pushed (r : ring.State) (xs : List α) : Pushed α := ⟨xs, ring.written r xs⟩

/-- What was popped and what is still queued is what was accepted, in order. -/
def Carries (r : ring.State) (pushes : List (Pushed α)) (pops : List (List α)) : Prop :=
  pops.flatten ++ ring.queue r = pushes.flatMap Pushed.accepted

end

variable {ring : RingBuffer α} {r : ring.State} {pushes : List (Pushed α)} {pops : List (List α)}

theorem carries_empty : ring.Carries ring.empty [] [] := ring.queue_empty

theorem Carries.push (h : ring.Carries r pushes pops) (xs : List α) :
    ring.Carries (ring.push r xs) (pushes ++ [ring.pushed r xs]) pops := by
  unfold Carries at h ⊢
  rw [ring.queue_push, ← List.append_assoc, h, List.flatMap_append, List.flatMap_singleton]
  rfl

theorem Carries.pop (h : ring.Carries r pushes pops) (n : Nat) :
    ring.Carries (ring.pop r n) pushes (pops ++ [ring.popped r n]) := by
  unfold Carries at h ⊢
  rw [List.flatten_append, List.flatten_singleton, List.append_assoc, ring.popped_append, h]

theorem Carries.pop_nil (h : ring.Carries r pushes pops) : ring.Carries r pushes (pops ++ [[]]) := by
  unfold Carries at h ⊢
  rw [List.flatten_append, List.flatten_singleton, List.append_nil, h]

theorem Carries.see (h : ring.Carries r pushes pops) (v : ring.View) :
    ring.Carries (ring.see r v) pushes pops := by
  unfold Carries at h ⊢
  rw [ring.queue_see, h]

/-! ### Buffers of a capacity -/

/-- A queue with the room that the producer has seen and the number of elements that the consumer has. -/
structure Bounded (α : Type) (capacity : Nat) where
  queue : List α
  occupied : Nat
  vacant : Nat
  occupied_le : occupied ≤ queue.length
  vacant_le : vacant + queue.length ≤ capacity

namespace Bounded

variable {capacity : Nat}

def empty (capacity : Nat) : Bounded α capacity where
  queue := []
  occupied := 0
  vacant := capacity
  occupied_le := Nat.le_refl 0
  vacant_le := Nat.le_refl capacity

def written (r : Bounded α capacity) (xs : List α) : Nat := min xs.length r.vacant

def push (r : Bounded α capacity) (xs : List α) : Bounded α capacity where
  queue := r.queue ++ xs.take (r.written xs)
  occupied := r.occupied
  vacant := r.vacant - r.written xs
  occupied_le := by
    rw [List.length_append]
    exact Nat.le_add_right_of_le r.occupied_le
  vacant_le := by
    have hle := r.vacant_le
    rw [List.length_append, List.length_take]
    unfold written
    omega

def popped (r : Bounded α capacity) (n : Nat) : List α := r.queue.take (min n r.occupied)

def pop (r : Bounded α capacity) (n : Nat) : Bounded α capacity where
  queue := r.queue.drop (min n r.occupied)
  occupied := r.occupied - min n r.occupied
  vacant := r.vacant
  occupied_le := by
    have hle := r.occupied_le
    rw [List.length_drop]
    omega
  vacant_le := by
    have hle := r.vacant_le
    rw [List.length_drop]
    omega

/-- The producer sees up to `vacant` places of the room there is, the consumer up to `occupied` elements, and
both no fewer than before. -/
def see (r : Bounded α capacity) (vacant occupied : Nat) : Bounded α capacity where
  queue := r.queue
  occupied := max r.occupied (min occupied r.queue.length)
  vacant := max r.vacant (min vacant (capacity - r.queue.length))
  occupied_le := by
    have hle := r.occupied_le
    omega
  vacant_le := by
    have hle := r.vacant_le
    omega

theorem length_popped (r : Bounded α capacity) (n : Nat) : (r.popped n).length = min n r.occupied := by
  have hle := r.occupied_le
  rw [popped, List.length_take]
  omega

end Bounded

/-- The ring buffer of a capacity. -/
def bounded (α : Type) (capacity : Nat) : RingBuffer α where
  State := Bounded α capacity
  View := Nat × Nat
  empty := .empty capacity
  queue := Bounded.queue
  occupiedLen := Bounded.occupied
  written := Bounded.written
  push := Bounded.push
  popped := Bounded.popped
  pop := Bounded.pop
  see r v := r.see v.1 v.2
  queue_empty := rfl
  written_le _ _ := Nat.min_le_left _ _
  queue_push _ _ := rfl
  occupiedLen_push _ _ := Nat.le_refl _
  length_popped_le r n := by
    rw [r.length_popped]
    exact Nat.min_le_left _ _
  length_popped r n h := by rw [r.length_popped, Nat.min_eq_left h]
  popped_append _ _ := List.take_append_drop _ _
  queue_see _ _ := rfl
  occupiedLen_see _ _ := Nat.le_max_left _ _

end RingBuffer
