import Mathlib.Data.List.Infix
import Mathlib.Tactic.TypeStar

/-!
# Channels with one receiver

A queue that any number of senders put elements in and one receiver takes them out of, with or without a
capacity. Once the receiver is dropped, what is queued is lost, and nothing is taken any more. What was sent and
what was received is kept: it is received in the order in which it was sent, and while the receiver is there the
rest is in the queue.
-/

structure Mpsc (α : Type*) where
  capacity : Option Nat
  queue : List α
  /-- The receiver is gone. -/
  closed : Bool
  sent : List α
  received : List α
  carries : closed = false → received ++ queue = sent
  ordered : received <+: sent
  emptied : closed = true → queue = []
  within : ∀ n, capacity = some n → queue.length ≤ n

namespace Mpsc

variable {α : Type*}

def channel (capacity : Option Nat) : Mpsc α where
  capacity := capacity
  queue := []
  closed := false
  sent := []
  received := []
  carries _ := rfl
  ordered := List.prefix_rfl
  emptied _ := rfl
  within _ _ := Nat.zero_le _

def isFull (c : Mpsc α) : Bool := c.capacity.any fun n => decide (n ≤ c.queue.length)

/-- Whether an element that is sent now is taken. -/
def takes (c : Mpsc α) : Bool := !c.closed && !c.isFull

theorem takes_iff {c : Mpsc α} : c.takes = true ↔ c.closed = false ∧ c.isFull = false := by
  rw [takes, Bool.and_eq_true, Bool.not_eq_true', Bool.not_eq_true']

theorem takes_unbounded {c : Mpsc α} (h : c.capacity = none) : c.takes = !c.closed := by
  rw [takes, isFull, h, Option.any_none, Bool.not_false, Bool.and_true]

/-- An element that is not taken goes back to the sender. -/
def send (c : Mpsc α) (a : α) : Mpsc α :=
  if h : c.takes = true then
    { c with
      queue := c.queue ++ [a]
      sent := c.sent ++ [a]
      carries := fun hopen => by rw [← List.append_assoc, c.carries hopen]
      ordered := c.ordered.trans (List.prefix_append _ _)
      emptied := fun hclosed => by
        rw [(takes_iff.1 h).1] at hclosed
        cases hclosed
      within := fun n hn => by
        have hfull := (takes_iff.1 h).2
        rw [isFull, hn, Option.any_some, decide_eq_false_iff_not] at hfull
        rw [List.length_append, List.length_singleton]
        omega }
  else c

/-- The first element of the queue, if there is one, is received. -/
def recv (c : Mpsc α) : Mpsc α where
  capacity := c.capacity
  queue := c.queue.tail
  closed := c.closed
  sent := c.sent
  received := c.received ++ c.queue.head?.toList
  carries hopen := by
    rw [List.append_assoc, ← c.carries hopen]
    cases c.queue <;> rfl
  ordered := by
    cases hclosed : c.closed with
    | true =>
      rw [c.emptied hclosed, List.head?_nil, Option.toList_none, List.append_nil]
      exact c.ordered
    | false =>
      refine ⟨c.queue.tail, ?_⟩
      rw [List.append_assoc, ← c.carries hclosed]
      cases c.queue <;> rfl
  emptied hclosed := by rw [c.emptied hclosed, List.tail_nil]
  within n hn := by
    rw [List.length_tail]
    exact Nat.le_trans (Nat.sub_le _ _) (c.within n hn)

/-- The receiver is dropped, and what it has not received is lost. -/
def close (c : Mpsc α) : Mpsc α where
  capacity := c.capacity
  queue := []
  closed := true
  sent := c.sent
  received := c.received
  carries hopen := by cases hopen
  ordered := c.ordered
  emptied _ := rfl
  within _ _ := Nat.zero_le _

variable {c : Mpsc α} {a : α}

theorem send_of_takes (h : c.takes = true) :
    (c.send a).queue = c.queue ++ [a] ∧ (c.send a).sent = c.sent ++ [a] ∧ (c.send a).received = c.received ∧
      (c.send a).closed = c.closed := by
  rw [send, dif_pos h]
  exact ⟨rfl, rfl, rfl, rfl⟩

theorem send_of_not_takes (h : c.takes = false) : c.send a = c := by
  rw [send, dif_neg]
  rw [h]
  exact Bool.false_ne_true

@[simp] theorem capacity_send : (c.send a).capacity = c.capacity := by
  unfold send
  split <;> rfl

@[simp] theorem closed_send : (c.send a).closed = c.closed := by
  unfold send
  split <;> rfl

@[simp] theorem received_send : (c.send a).received = c.received := by
  unfold send
  split <;> rfl

@[simp] theorem capacity_recv : c.recv.capacity = c.capacity := rfl

@[simp] theorem closed_recv : c.recv.closed = c.closed := rfl

@[simp] theorem sent_recv : c.recv.sent = c.sent := rfl

theorem received_recv {rest : List α} (h : c.queue = a :: rest) : c.recv.received = c.received ++ [a] := by
  show c.received ++ c.queue.head?.toList = _
  rw [h]
  rfl

@[simp] theorem sent_close : c.close.sent = c.sent := rfl

@[simp] theorem received_close : c.close.received = c.received := rfl

@[simp] theorem closed_close : c.close.closed = true := rfl

@[simp] theorem capacity_close : c.close.capacity = c.capacity := rfl

end Mpsc
