import Mathlib.Data.List.Basic

/-!
# Bounded first-in first-out queues

The abstract queue that the ring buffers and lock-free queues implement: a
list of at most `capacity` items, refusing a push when full and a pop when
empty.  A client's operations and their outcomes are values of their own, so
that an implementation is compared with this queue outcome by outcome.
-/

namespace ReactiveToolbox.Lib

universe u

/-- A list of held items that never exceeds the capacity. -/
structure BoundedFifo (Item : Type u) (capacity : Nat) where
  items : List Item
  bounded : items.length ≤ capacity

/-- What a client asks of a queue. -/
inductive QueueOp (Item : Type u) where
  | push (item : Item)
  | pop
  deriving DecidableEq

/-- What a queue answers: whether a push was accepted, or the item popped. -/
inductive QueueOutcome (Item : Type u) where
  | pushed (accepted : Bool)
  | popped (item : Option Item)
  deriving DecidableEq

namespace BoundedFifo

variable {Item : Type u} {capacity : Nat}

@[ext]
theorem ext {left right : BoundedFifo Item capacity}
    (equal : left.items = right.items) : left = right := by
  cases left
  cases right
  cases equal
  rfl

/-- A queue without elements. -/
def empty (Item : Type u) (capacity : Nat) : BoundedFifo Item capacity :=
  ⟨[], Nat.zero_le _⟩

theorem length_snoc_le {items : List Item} (item : Item)
    (room : items.length < capacity) : (items ++ [item]).length ≤ capacity := by
  rw [List.length_append]
  exact room

/-- Append an item unless the queue is full. -/
def push (queue : BoundedFifo Item capacity) (item : Item) :
    BoundedFifo Item capacity × Bool :=
  if room : queue.items.length < capacity then
    (⟨queue.items ++ [item], length_snoc_le item room⟩, true)
  else (queue, false)

/-- Remove the oldest item unless the queue is empty. -/
def pop (queue : BoundedFifo Item capacity) :
    BoundedFifo Item capacity × Option Item :=
  match held : queue.items with
  | [] => (queue, none)
  | item :: rest =>
      (⟨rest, by
        have bounded := queue.bounded
        rw [held, List.length_cons] at bounded
        omega⟩, some item)

/-- What is pushed goes behind the others. -/
theorem push_of_room
    {queue : BoundedFifo Item capacity} (item : Item)
    (room : queue.items.length < capacity) :
    (queue.push item).1.items = queue.items ++ [item] ∧
      (queue.push item).2 = true := by
  simp [push, room]

/-- Nothing is pushed to a full queue. -/
theorem push_of_full
    {queue : BoundedFifo Item capacity} (item : Item)
    (full : queue.items.length = capacity) :
    queue.push item = (queue, false) := by
  simp [push, full]

theorem pop_of_nil
    {queue : BoundedFifo Item capacity} (nil : queue.items = []) :
    queue.pop = (queue, none) := by
  unfold pop
  split
  · rfl
  · simp_all

/-- The first element is popped. -/
theorem pop_of_cons
    {queue : BoundedFifo Item capacity} {item : Item} {rest : List Item}
    (held : queue.items = item :: rest) :
    queue.pop.1.items = rest ∧ queue.pop.2 = some item := by
  unfold pop
  split
  · simp_all
  · simp_all

/-- Append an item, in place of the oldest one when the queue is full. -/
def pushOver (queue : BoundedFifo Item capacity) (item : Item) : BoundedFifo Item capacity :=
  ⟨(queue.items ++ [item]).drop (queue.items.length + 1 - capacity), by
    rw [List.length_drop, List.length_append, List.length_singleton]
    omega⟩

/-- Append an item, where a full queue either drops its oldest one or refuses. -/
def offer (overwrite : Bool) (queue : BoundedFifo Item capacity) (item : Item) :
    BoundedFifo Item capacity × Bool :=
  if overwrite then (queue.pushOver item, true) else queue.push item

theorem pushOver_of_room
    {queue : BoundedFifo Item capacity} (item : Item)
    (room : queue.items.length < capacity) :
    (queue.pushOver item).items = queue.items ++ [item] := by
  have none : queue.items.length + 1 - capacity = 0 := by omega
  simp only [pushOver, none, List.drop_zero]

/-- Where the queue is full the first element makes room. -/
theorem pushOver_of_full
    {queue : BoundedFifo Item capacity} (item : Item) (positive : 0 < capacity)
    (full : queue.items.length = capacity) :
    (queue.pushOver item).items = queue.items.drop 1 ++ [item] := by
  have one : queue.items.length + 1 - capacity = 1 := by omega
  simp only [pushOver, one]
  exact List.drop_append_of_le_length (by omega)

/-- A queue is longer by one item behind an offer, up to its capacity. -/
theorem length_offer
    {overwrite : Bool} {queue : BoundedFifo Item capacity} (item : Item) :
    (queue.offer overwrite item).1.items.length = min (queue.items.length + 1) capacity := by
  have bounded := queue.bounded
  cases overwrite with
  | true =>
      simp only [offer, pushOver, if_true, List.length_drop, List.length_append,
        List.length_singleton]
      omega
  | false =>
      rcases Nat.lt_or_eq_of_le bounded with room | full
      · simp only [offer, if_false, Bool.false_eq_true, (push_of_room item room).1,
          List.length_append, List.length_singleton]
        omega
      · simp only [offer, if_false, Bool.false_eq_true, push_of_full item full]
        omega

/-- `pop` drops the first element, if there is one. -/
theorem items_pop (queue : BoundedFifo Item capacity) :
    queue.pop.1.items = queue.items.drop 1 ∧ queue.pop.2 = queue.items.head? := by
  cases held : queue.items with
  | nil =>
      rw [pop_of_nil held]
      exact ⟨held, rfl⟩
  | cons item rest => exact pop_of_cons held

/-- One operation, with its outcome. -/
def apply (queue : BoundedFifo Item capacity) :
    QueueOp Item → BoundedFifo Item capacity × QueueOutcome Item
  | .push item => ((queue.push item).1, .pushed (queue.push item).2)
  | .pop => (queue.pop.1, .popped queue.pop.2)

/-- The outcomes of a sequence of operations. -/
def outcomes (queue : BoundedFifo Item capacity) :
    List (QueueOp Item) → List (QueueOutcome Item)
  | [] => []
  | op :: rest => (queue.apply op).2 :: (queue.apply op).1.outcomes rest

/-- While there is room for all of them, pushes are accepted. -/
theorem outcomes_pushes
    (queue : BoundedFifo Item capacity) (item : Item) (count : Nat)
    (room : queue.items.length + count ≤ capacity) :
    queue.outcomes (List.replicate count (.push item)) =
      List.replicate count (.pushed true) := by
  induction count generalizing queue with
  | zero => rfl
  | succ count ih =>
      have accepted : (queue.push item).1.items = queue.items ++ [item] ∧
          (queue.push item).2 = true :=
        push_of_room item (by omega)
      rw [List.replicate_succ, List.replicate_succ, outcomes, apply, accepted.2]
      congr 1
      apply ih
      rw [accepted.1, List.length_append, List.length_singleton]
      omega

end BoundedFifo

end ReactiveToolbox.Lib
