import Mathlib.Data.List.Nodup

/-!
# Least recently used

What a bounded map with eviction of the least recently used key is for. All keys that were ever used are kept
in the order of their last use, the most recent first, and each has the value stored for it last; a map of
capacity `n` holds the first `n` of them.
-/

/-- The keys by their last use, and what was stored for each last. -/
structure Lru (K V : Type*) where
  recent : List K
  stored : K → Option V

namespace Lru

variable {K V : Type*} [DecidableEq K] {capacity : Nat} {k k' : K} {l : List K}

inductive Op (K V : Type*)
  | get (k : K)
  | insert (k : K) (v : V)

def empty : Lru K V := ⟨[], fun _ => none⟩

/-- The key becomes the one used last. -/
def use (k : K) (l : List K) : List K := k :: l.erase k

/-- The keys held, the most recently used first. -/
def held (capacity : Nat) (m : Lru K V) : List K := m.recent.take capacity

/-- A key that is not held cannot be got, and is not used by the attempt. -/
def step (capacity : Nat) (m : Lru K V) : Op K V → Lru K V
  | .get k => if k ∈ m.held capacity then { m with recent := use k m.recent } else m
  | .insert k v => ⟨use k m.recent, fun k' => if k' = k then some v else m.stored k'⟩

def lookup (capacity : Nat) (m : Lru K V) (k : K) : Option V :=
  if k ∈ m.held capacity then m.stored k else none

theorem nodup_use (h : l.Nodup) : (use k l).Nodup :=
  List.nodup_cons.2 ⟨h.not_mem_erase, h.erase k⟩

theorem mem_use : k' ∈ use k l ↔ k' = k ∨ k' ∈ l := by
  rw [use, List.mem_cons]
  by_cases heq : k' = k
  · simp only [heq, true_or]
  · simp only [heq, false_or, List.mem_erase_of_ne heq]

/-! ### The window -/

theorem take_erase_of_mem {n : Nat} (h : k ∈ l.take (n + 1)) :
    (l.erase k).take n = (l.take (n + 1)).erase k := by
  induction l generalizing n with
  | nil => cases h
  | cons k' l ih =>
    by_cases heq : k' = k
    · subst k'
      rw [List.erase_cons_head, List.take_succ_cons, List.erase_cons_head]
    · have hbeq : ¬(k' == k) = true := by rwa [beq_iff_eq]
      rw [List.take_succ_cons, List.mem_cons] at h
      have hmem := h.resolve_left (Ne.symm heq)
      rw [List.erase_cons_tail hbeq, List.take_succ_cons, List.erase_cons_tail hbeq]
      cases n with
      | zero => cases hmem
      | succ n => rw [List.take_succ_cons, ih hmem]

theorem take_erase_of_not_mem {n : Nat} (h : k ∉ l.take n) : (l.erase k).take n = l.take n := by
  induction l generalizing n with
  | nil => rfl
  | cons k' l ih =>
    cases n with
    | zero => rfl
    | succ n =>
      rw [List.take_succ_cons, List.mem_cons, not_or] at h
      have hbeq : ¬(k' == k) = true := by
        rw [beq_iff_eq]
        exact Ne.symm h.1
      rw [List.erase_cons_tail hbeq, List.take_succ_cons, List.take_succ_cons, ih h.2]

theorem take_use_of_mem (h : k ∈ l.take capacity) : (use k l).take capacity = use k (l.take capacity) := by
  cases capacity with
  | zero => cases h
  | succ n => rw [use, use, List.take_succ_cons, take_erase_of_mem h]

/-- The use of another key pushes it in, and the last one out of a window that is full. -/
theorem take_use_of_not_mem (hpos : 0 < capacity) (h : k ∉ l.take capacity) :
    (use k l).take capacity = k :: l.take (capacity - 1) := by
  obtain ⟨n, rfl⟩ : ∃ n, capacity = n + 1 := ⟨capacity - 1, by omega⟩
  rw [use, List.take_succ_cons, Nat.add_sub_cancel]
  have hnot : k ∉ l.take n := fun hmem => h (List.mem_of_mem_take (i := n) (by
    rwa [List.take_take, Nat.min_eq_left (Nat.le_succ n)]))
  rw [take_erase_of_not_mem hnot]

theorem nodup_step {m : Lru K V} (h : m.recent.Nodup) (op : Op K V) :
    (m.step capacity op).recent.Nodup := by
  cases op with
  | get k =>
    rw [step]
    split
    · exact nodup_use h
    · exact h
  | insert k v => exact nodup_use h

theorem stored_step {m : Lru K V} (h : ∀ k ∈ m.recent, (m.stored k).isSome) (op : Op K V) :
    ∀ k ∈ (m.step capacity op).recent, ((m.step capacity op).stored k).isSome := by
  cases op with
  | get k =>
    rw [step]
    split
    · rename_i hheld
      intro k' hk'
      rcases mem_use.1 hk' with rfl | hmem
      · exact h k' (List.mem_of_mem_take hheld)
      · exact h k' hmem
    · exact h
  | insert k v =>
    intro k' hk'
    simp only [step] at hk' ⊢
    split
    · rfl
    · rename_i hne
      exact h k' ((mem_use.1 hk').resolve_left hne)

end Lru
