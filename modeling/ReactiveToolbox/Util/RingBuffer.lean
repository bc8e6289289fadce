import ReactiveToolbox.Lib.BoundedFifo
import ReactiveToolbox.Lib.CircularStore
import ReactiveToolbox.Util.Math

/-!
# The ring buffer

`RingBuffer` keeps its elements between two positions of 64 bits that only grow, each
masked to an index.  A full one refuses another element or, in its overwriting
variant, gives up the oldest.  It is a bounded queue, except that the `pop` that
returns whether there was an element has no `return` behind the one it has read.
-/

namespace ReactiveToolbox.Util

open ReactiveToolbox.Lib

universe u

/-- `RingBuffer`, with the elements of its array by index. -/
structure RingBuffer (Value : Type u) where
  capacity : BitVec 64
  mask : BitVec 64
  rpos : BitVec 64
  wpos : BitVec 64
  buf : Nat → Value

/-- A call on a ring buffer.  The function of a `write` changes an element in place. -/
inductive RingOp (Value : Type u) where
  | push (val : Value)
  | write (fn : Value → Value)
  | pop
  | popTo
  | read
  | clear

/-- What a call returns, or the element that it hands over. -/
inductive RingOutcome (Value : Type u) where
  | nothing
  | returned (accepted : Bool)
  | delivered (item : Option Value)

namespace RingBuffer

variable {Value : Type u}

/--
The constructor, where `new` leaves the elements as they are.  There is no buffer
where the rounding is undefined, or where the array would be larger than any object
can be and `new` throws.
-/
def create (fresh : Nat → Value) (capacity : BitVec 64) : Option (RingBuffer Value) :=
  (nextPow2 64 capacity.toNat).bind fun rounded =>
    if rounded < 2 ^ 63 then
      some
        { capacity := BitVec.ofNat 64 rounded
          mask := BitVec.ofNat 64 rounded - 1
          rpos := 0
          wpos := 0
          buf := fresh }
    else none

/-- `empty`. -/
def empty (ring : RingBuffer Value) : Bool :=
  decide (ring.rpos = ring.wpos)

/-- `size`. -/
def size (ring : RingBuffer Value) : BitVec 64 :=
  ring.wpos - ring.rpos

/-- `full`. -/
def full (ring : RingBuffer Value) : Bool :=
  decide (ring.size = ring.capacity)

/-- The index of the element at a position. -/
def slot (ring : RingBuffer Value) (pos : BitVec 64) : Nat :=
  (pos &&& ring.mask).toNat

/-- `front`. -/
def front (ring : RingBuffer Value) : Value :=
  ring.buf (ring.slot ring.rpos)

/-- `back`. -/
def back (ring : RingBuffer Value) : Value :=
  ring.buf (ring.slot (ring.wpos - 1))

/-- `clear`. -/
def clear (ring : RingBuffer Value) : RingBuffer Value :=
  { ring with rpos := 0, wpos := 0 }

/-- `pop()`, which does not look at whether there is an element. -/
def pop (ring : RingBuffer Value) : RingBuffer Value :=
  { ring with rpos := ring.rpos + 1 }

/--
`pop(ValueT&)`: there is no value where the function has read an element and runs
into its end, which is undefined.
-/
def popTo (ring : RingBuffer Value) : Option (RingBuffer Value × Option Value) :=
  if ring.empty then some (ring, none) else none

/-- `write`, and `push` where the function assigns a value. -/
def write (overwrite : Bool) (ring : RingBuffer Value) (fn : Value → Value) :
    RingBuffer Value × Bool :=
  if !overwrite && ring.full then (ring, false)
  else
    let stored :=
      { ring with
        buf := Function.update ring.buf (ring.slot ring.wpos)
          (fn (ring.buf (ring.slot ring.wpos))) }
    let moved :=
      if overwrite && stored.full then { stored with rpos := stored.rpos + 1 } else stored
    ({ moved with wpos := moved.wpos + 1 }, true)

/-- `push`. -/
def push (overwrite : Bool) (ring : RingBuffer Value) (val : Value) : RingBuffer Value × Bool :=
  ring.write overwrite fun _ => val

/-- `read`, with the element that its function is called with. -/
def read (ring : RingBuffer Value) : RingBuffer Value × Option Value :=
  if ring.empty then (ring, none)
  else ({ ring with rpos := ring.rpos + 1 }, some (ring.buf (ring.slot ring.rpos)))

/-- One call, where it is defined. -/
def step (overwrite : Bool) (ring : RingBuffer Value) :
    RingOp Value → Option (RingBuffer Value × RingOutcome Value)
  | .push val => some ((ring.push overwrite val).1, .returned (ring.push overwrite val).2)
  | .write fn => some ((ring.write overwrite fn).1, .returned (ring.write overwrite fn).2)
  | .pop => some (ring.pop, .nothing)
  | .popTo => ring.popTo.map fun popped => (popped.1, .delivered popped.2)
  | .read => some (ring.read.1, .delivered ring.read.2)
  | .clear => some (ring.clear, .nothing)

/-! ## The queue that a ring buffer should be -/

section

variable {capacity : Nat}

/-- What a call makes of a queue; what a function writes may depend on the element it is given. -/
def Does (overwrite : Bool) (queue next : BoundedFifo Value capacity)
    (outcome : RingOutcome Value) : RingOp Value → Prop
  | .push val =>
      next = (queue.offer overwrite val).1 ∧ outcome = .returned (queue.offer overwrite val).2
  | .write fn => ∃ stale,
      next = (queue.offer overwrite (fn stale)).1 ∧
        outcome = .returned (queue.offer overwrite (fn stale)).2
  | .pop => next = queue.pop.1 ∧ outcome = .nothing
  | .popTo => next = queue.pop.1 ∧ outcome = .delivered queue.pop.2
  | .read => next = queue.pop.1 ∧ outcome = .delivered queue.pop.2
  | .clear => next = .empty Value capacity ∧ outcome = .nothing

/-- Only `pop()` has a condition of its own. -/
def Permitted (queue : BoundedFifo Value capacity) : RingOp Value → Prop
  | .pop => queue.items ≠ []
  | _ => True

/-- What can be seen of a ring buffer is what there is in a queue. -/
structure Agrees (ring : RingBuffer Value) (queue : BoundedFifo Value capacity) : Prop where
  size : ring.size.toNat = queue.items.length
  empty : ring.empty = true ↔ queue.items = []
  full : ring.full = true ↔ queue.items.length = capacity
  front : ∀ item, queue.items.head? = some item → ring.front = item
  back : ∀ item, queue.items.getLast? = some item → ring.back = item

/-- Before and behind each of the calls, the ring buffer is seen as the queue. -/
def Refines (overwrite : Bool) (ring : RingBuffer Value) (queue : BoundedFifo Value capacity) :
    List (RingOp Value) → Prop
  | [] => Agrees ring queue
  | op :: rest =>
      Agrees ring queue ∧
        (Permitted queue op → ∃ after next outcome, ring.step overwrite op = some (after, outcome) ∧
          Does overwrite queue next outcome op ∧ Refines overwrite after next rest)

/-- The length of a queue behind a call. -/
def lengthAfter (capacity length : Nat) : RingOp Value → Nat
  | .push _ => min (length + 1) capacity
  | .write _ => min (length + 1) capacity
  | .pop => length - 1
  | .popTo => length - 1
  | .read => length - 1
  | .clear => 0

/-- Calls, up to one that is not permitted, where `pop(ValueT&)` only finds an empty queue. -/
def PopsToEmpty (capacity : Nat) : Nat → List (RingOp Value) → Prop
  | _, [] => True
  | length, op :: rest =>
      (op = .popTo → length = 0) ∧
        ((op = .pop → 0 < length) → PopsToEmpty capacity (lengthAfter capacity length op) rest)

theorem permitted_iff {queue : BoundedFifo Value capacity} {op : RingOp Value} :
    Permitted queue op ↔ (op = .pop → 0 < queue.items.length) := by
  rw [List.length_pos_iff]
  cases op with
  | pop => exact ⟨fun permitted _ => permitted, fun nonempty => nonempty rfl⟩
  | push _ => exact ⟨fun _ same => (nomatch same), fun _ => trivial⟩
  | write _ => exact ⟨fun _ same => (nomatch same), fun _ => trivial⟩
  | popTo => exact ⟨fun _ same => (nomatch same), fun _ => trivial⟩
  | read => exact ⟨fun _ same => (nomatch same), fun _ => trivial⟩
  | clear => exact ⟨fun _ same => (nomatch same), fun _ => trivial⟩

theorem Does.length {overwrite : Bool} {queue next : BoundedFifo Value capacity}
    {outcome : RingOutcome Value} {op : RingOp Value}
    (does : Does overwrite queue next outcome op) :
    next.items.length = lengthAfter capacity queue.items.length op := by
  have popped : queue.pop.1.items.length = queue.items.length - 1 := by
    rw [queue.items_pop.1, List.length_drop]
  cases op with
  | push val =>
      obtain ⟨rfl, -⟩ := does
      exact BoundedFifo.length_offer val
  | write fn =>
      obtain ⟨stale, rfl, -⟩ := does
      exact BoundedFifo.length_offer (fn stale)
  | pop =>
      obtain ⟨rfl, -⟩ := does
      exact popped
  | popTo =>
      obtain ⟨rfl, -⟩ := does
      exact popped
  | read =>
      obtain ⟨rfl, -⟩ := does
      exact popped
  | clear =>
      obtain ⟨rfl, -⟩ := does
      rfl

/-! ## A ring in step with a queue -/

/-- The ring of `2 ^ exponent` elements holds the items of a queue from a position on. -/
structure Holds (ring : RingBuffer Value) (exponent first : Nat) (items : List Value) :
    Prop where
  capacity : ring.capacity = BitVec.ofNat 64 (2 ^ exponent)
  mask : ring.mask = BitVec.ofNat 64 (2 ^ exponent) - 1
  narrow : exponent < 63
  bounded : items.length ≤ 2 ^ exponent
  rpos : ring.rpos = BitVec.ofNat 64 first
  wpos : ring.wpos = BitVec.ofNat 64 (first + items.length)
  stores : Stores (· % 2 ^ exponent) ring.buf first items

variable {ring : RingBuffer Value} {exponent first : Nat} {items : List Value}

theorem write_refused (full : ring.full = true) (fn : Value → Value) :
    ring.write false fn = (ring, false) :=
  if_pos full

theorem write_of_room {overwrite : Bool} (notFull : ring.full = false) (fn : Value → Value) :
    ring.write overwrite fn =
      ({ ring with
          buf := Function.update ring.buf (ring.slot ring.wpos)
            (fn (ring.buf (ring.slot ring.wpos)))
          wpos := ring.wpos + 1 }, true) := by
  have same : RingBuffer.full
      { ring with
        buf := Function.update ring.buf (ring.slot ring.wpos)
          (fn (ring.buf (ring.slot ring.wpos))) } = false := notFull
  simp only [write, notFull, same, Bool.and_false, Bool.false_eq_true, if_false]

theorem write_over (full : ring.full = true) (fn : Value → Value) :
    ring.write true fn =
      ({ ring with
          rpos := ring.rpos + 1
          buf := Function.update ring.buf (ring.slot ring.wpos)
            (fn (ring.buf (ring.slot ring.wpos)))
          wpos := ring.wpos + 1 }, true) := by
  have same : RingBuffer.full
      { ring with
        buf := Function.update ring.buf (ring.slot ring.wpos)
          (fn (ring.buf (ring.slot ring.wpos))) } = true := full
  simp only [write, same, Bool.not_true, Bool.false_and, Bool.and_true, Bool.false_eq_true,
    if_false, if_true]

namespace Holds

theorem small (holds : Holds ring exponent first items) : 2 ^ exponent < 2 ^ 63 :=
  Nat.pow_lt_pow_right (by omega) holds.narrow

theorem slot (holds : Holds ring exponent first items) (position : Nat) :
    ring.slot (BitVec.ofNat 64 position) = position % 2 ^ exponent := by
  have narrow := holds.narrow
  rw [RingBuffer.slot, holds.mask]
  exact toNat_and_mask (by omega) position

theorem size (holds : Holds ring exponent first items) : ring.size.toNat = items.length := by
  have small := holds.small
  have bounded := holds.bounded
  rw [RingBuffer.size, holds.rpos, holds.wpos]
  bv_omega

theorem empty_iff (holds : Holds ring exponent first items) :
    ring.empty = true ↔ items = [] := by
  have small := holds.small
  have bounded := holds.bounded
  rw [RingBuffer.empty, decide_eq_true_eq, ← List.length_eq_zero_iff, holds.rpos, holds.wpos]
  constructor
  · intro same
    bv_omega
  · intro none
    rw [none, Nat.add_zero]

theorem full_iff (holds : Holds ring exponent first items) :
    ring.full = true ↔ items.length = 2 ^ exponent := by
  have small := holds.small
  have size := holds.size
  rw [RingBuffer.full, decide_eq_true_eq, holds.capacity, ← size]
  generalize 2 ^ exponent = bound at small
  bv_omega

/-- The first item is the one at the read position. -/
theorem front {item : Value} {rest : List Value}
    (holds : Holds ring exponent first (item :: rest)) : ring.front = item := by
  rw [RingBuffer.front, holds.rpos, holds.slot]
  exact (Stores.cons_iff.mp holds.stores).1

/-- The last item is the one before the write position. -/
theorem back {item : Value} {early : List Value}
    (holds : Holds ring exponent first (early ++ [item])) : ring.back = item := by
  have before : ring.wpos - 1 = BitVec.ofNat 64 (first + early.length) := by
    rw [holds.wpos, List.length_append, List.length_singleton]
    bv_omega
  rw [RingBuffer.back, before, holds.slot]
  exact (Stores.cons_iff.mp (Stores.append_iff.mp holds.stores).2).1

/-! ## The calls -/

/-- The first item is given up. -/
theorem drop (holds : Holds ring exponent first items) (nonempty : items ≠ []) :
    Holds { ring with rpos := ring.rpos + 1 } exponent (first + 1) (items.drop 1) := by
  have positive := List.length_pos_of_ne_nil nonempty
  refine
    { capacity := holds.capacity
      mask := holds.mask
      narrow := holds.narrow
      bounded := ?_
      rpos := ?_
      wpos := ?_
      stores := holds.stores.drop positive }
  · rw [List.length_drop]
    exact (Nat.sub_le _ _).trans holds.bounded
  · simp only [holds.rpos, BitVec.ofNat_add]
    rfl
  · simp only [holds.wpos, List.length_drop]
    congr 1
    omega

/-- An item is stored at the write position. -/
theorem store (holds : Holds ring exponent first items) (room : items.length < 2 ^ exponent)
    (item : Value) :
    Holds
      { ring with
        buf := Function.update ring.buf (ring.slot ring.wpos) item
        wpos := ring.wpos + 1 } exponent first (items ++ [item]) := by
  have length : (items ++ [item]).length = items.length + 1 := by
    rw [List.length_append, List.length_singleton]
  refine
    { capacity := holds.capacity
      mask := holds.mask
      narrow := holds.narrow
      bounded := by rw [length]; exact room
      rpos := holds.rpos
      wpos := ?_
      stores := ?_ }
  · simp only [holds.wpos, length, ← Nat.add_assoc, BitVec.ofNat_add]
    rfl
  · have more : items.length + [item].length ≤ 2 ^ exponent := room
    simp only [holds.wpos, holds.slot]
    exact holds.stores.append_mod more

theorem agrees {queue : BoundedFifo Value (2 ^ exponent)}
    (holds : Holds ring exponent first queue.items) : Agrees ring queue where
  size := holds.size
  empty := holds.empty_iff
  full := holds.full_iff
  front := by
    intro item found
    obtain ⟨rest, held⟩ := List.head?_eq_some_iff.mp found
    rw [held] at holds
    exact holds.front
  back := by
    intro item found
    obtain ⟨early, held⟩ := List.getLast?_eq_some_iff.mp found
    rw [held] at holds
    exact holds.back

theorem clear (holds : Holds ring exponent first items) : Holds ring.clear exponent 0 [] where
  capacity := holds.capacity
  mask := holds.mask
  narrow := holds.narrow
  bounded := Nat.zero_le _
  rpos := rfl
  wpos := rfl
  stores := Stores.nil

/-- Whatever a function writes is offered to the queue. -/
theorem write {queue : BoundedFifo Value (2 ^ exponent)}
    (holds : Holds ring exponent first queue.items) (overwrite : Bool) (fn : Value → Value) :
    ∃ stale first', (ring.write overwrite fn).2 = (queue.offer overwrite (fn stale)).2 ∧
      Holds (ring.write overwrite fn).1 exponent first'
        (queue.offer overwrite (fn stale)).1.items := by
  refine ⟨ring.buf (ring.slot ring.wpos), ?_⟩
  rcases Nat.lt_or_eq_of_le queue.bounded with room | atCapacity
  · have notFull : ring.full = false := by
      rw [← Bool.not_eq_true, holds.full_iff]
      exact room.ne
    have pushed := BoundedFifo.push_of_room (fn (ring.buf (ring.slot ring.wpos))) room
    have stored := holds.store room (fn (ring.buf (ring.slot ring.wpos)))
    rw [write_of_room notFull]
    refine ⟨first, ?_⟩
    cases overwrite with
    | true =>
        refine ⟨rfl, ?_⟩
        rwa [BoundedFifo.offer, if_pos rfl, BoundedFifo.pushOver_of_room _ room]
    | false =>
        rw [BoundedFifo.offer, if_neg Bool.false_ne_true, pushed.1, pushed.2]
        exact ⟨rfl, stored⟩
  · have full := holds.full_iff.mpr atCapacity
    have positive : 0 < 2 ^ exponent := Nat.two_pow_pos exponent
    cases overwrite with
    | true =>
        -- the oldest item is given up behind the store, at which the positions are the same
        have nonempty : queue.items ≠ [] := by
          rw [← List.length_pos_iff]
          omega
        have dropped := holds.drop nonempty
        have stored := dropped.store (by rw [List.length_drop]; omega)
          (fn (ring.buf (ring.slot ring.wpos)))
        rw [write_over full]
        refine ⟨first + 1, rfl, ?_⟩
        rw [BoundedFifo.offer, if_pos rfl, BoundedFifo.pushOver_of_full _ positive atCapacity]
        exact stored
    | false =>
        rw [write_refused full, BoundedFifo.offer, if_neg Bool.false_ne_true,
          BoundedFifo.push_of_full _ atCapacity]
        exact ⟨first, rfl, holds⟩

/-- What `pop()` and `read` leave is the queue without its oldest item. -/
theorem take {queue : BoundedFifo Value (2 ^ exponent)}
    (holds : Holds ring exponent first queue.items) (nonempty : queue.items ≠ []) :
    Holds { ring with rpos := ring.rpos + 1 } exponent (first + 1) queue.pop.1.items ∧
      queue.pop.2 = some (ring.buf (ring.slot ring.rpos)) := by
  rw [queue.items_pop.1, queue.items_pop.2]
  refine ⟨holds.drop nonempty, ?_⟩
  obtain ⟨item, rest, held⟩ := List.exists_cons_of_ne_nil nonempty
  rw [held] at holds ⊢
  rw [List.head?_cons, ← holds.front]
  rfl

/-- Each permitted call that is not the defective one does what it does to the queue. -/
theorem step {queue : BoundedFifo Value (2 ^ exponent)}
    (holds : Holds ring exponent first queue.items) (overwrite : Bool) {op : RingOp Value}
    (permitted : Permitted queue op) (sound : op = .popTo → queue.items = []) :
    ∃ after next outcome first', ring.step overwrite op = some (after, outcome) ∧
      Does overwrite queue next outcome op ∧ Holds after exponent first' next.items := by
  cases op with
  | push val =>
      obtain ⟨_, first', accepted, after⟩ := holds.write overwrite fun _ => val
      refine ⟨_, _, _, first', rfl, ⟨rfl, ?_⟩, after⟩
      rw [← accepted]
      rfl
  | write fn =>
      obtain ⟨stale, first', accepted, after⟩ := holds.write overwrite fn
      refine ⟨_, _, _, first', rfl, ⟨stale, rfl, ?_⟩, after⟩
      rw [← accepted]
  | pop => exact ⟨_, _, _, first + 1, rfl, ⟨rfl, rfl⟩, (holds.take permitted).1⟩
  | popTo =>
      have none := sound rfl
      have popped := BoundedFifo.pop_of_nil none
      refine ⟨ring, queue, .delivered .none, first, ?_, ?_, holds⟩
      · rw [RingBuffer.step, popTo, if_pos (holds.empty_iff.mpr none)]
        rfl
      · rw [Does, popped]
        exact ⟨rfl, rfl⟩
  | read =>
      by_cases none : queue.items = []
      · have popped := BoundedFifo.pop_of_nil none
        refine ⟨ring, queue, .delivered .none, first, ?_, ?_, holds⟩
        · rw [RingBuffer.step, read, if_pos (holds.empty_iff.mpr none)]
        · rw [Does, popped]
          exact ⟨rfl, rfl⟩
      · obtain ⟨after, item⟩ := holds.take none
        have some_left : ¬ring.empty = true := holds.empty_iff.not.mpr none
        refine ⟨_, _, _, first + 1, ?_, ⟨rfl, rfl⟩, after⟩
        rw [RingBuffer.step, read, if_neg some_left, item]
  | clear => exact ⟨_, _, _, 0, rfl, ⟨rfl, rfl⟩, holds.clear⟩

/-- The ring buffer is seen as the queue through all calls that avoid the defective one. -/
theorem refines (holds : Holds ring exponent first items) (overwrite : Bool)
    {queue : BoundedFifo Value (2 ^ exponent)} (same : queue.items = items)
    {ops : List (RingOp Value)} (sound : PopsToEmpty (2 ^ exponent) items.length ops) :
    Refines overwrite ring queue ops := by
  induction ops generalizing ring first items queue with
  | nil =>
      subst same
      exact holds.agrees
  | cons op rest continued =>
      subst same
      obtain ⟨empties, others⟩ := sound
      refine ⟨holds.agrees, fun permitted => ?_⟩
      obtain ⟨after, next, outcome, first', stepped, does, holdsOn⟩ :=
        holds.step overwrite permitted fun called => List.length_eq_zero_iff.mp (empties called)
      refine ⟨after, next, outcome, stepped, does, continued holdsOn rfl ?_⟩
      rw [does.length]
      exact others (permitted_iff.mp permitted)

end Holds

/-- `pop(ValueT&)` of an element is defined for no ring buffer that is seen as the queue. -/
theorem Refines.popsToEmpty {overwrite : Bool} {queue : BoundedFifo Value capacity}
    {ops : List (RingOp Value)} (refines : Refines overwrite ring queue ops) :
    PopsToEmpty capacity queue.items.length ops := by
  induction ops generalizing ring queue with
  | nil => trivial
  | cons op rest continued =>
      obtain ⟨agrees, goesOn⟩ := refines
      refine ⟨?_, fun within => ?_⟩
      · rintro rfl
        obtain ⟨after, next, outcome, stepped, -⟩ := goesOn trivial
        obtain ⟨popped, popped_eq, -⟩ := Option.map_eq_some_iff.mp stepped
        rw [List.length_eq_zero_iff, ← agrees.empty]
        by_contra some_left
        rw [popTo, if_neg some_left] at popped_eq
        cases popped_eq
      · obtain ⟨after, next, outcome, -, does, later⟩ := goesOn (permitted_iff.mpr within)
        rw [← does.length]
        exact continued later

end

/-! ## Every buffer -/

/--
A buffer is created that is seen through all the calls as a queue of the least power of
two that is not less than the requested capacity.
-/
def RefinesQueue (overwrite : Bool) (fresh : Nat → Value) (capacity : BitVec 64)
    (ops : List (RingOp Value)) : Prop :=
  ∃ ring, create fresh capacity = some ring ∧
    Refines overwrite ring (.empty Value (2 ^ Nat.clog 2 capacity.toNat)) ops

/-- A buffer is created for every capacity of which the rounding is right. -/
theorem create_of_small (fresh : Nat → Value) {capacity : BitVec 64}
    (small : capacity.toNat ≤ 2 ^ 30) :
    ∃ ring, create fresh capacity = some ring ∧
      Holds ring (Nat.clog 2 capacity.toNat) 0 [] := by
  have exponent : Nat.clog 2 capacity.toNat ≤ 30 := Nat.clog_le_of_le_pow small
  have power : 2 ^ Nat.clog 2 capacity.toNat ≤ 2 ^ 30 :=
    Nat.pow_le_pow_right Nat.two_pos exponent
  have rounded : nextPow2 64 capacity.toNat = some (2 ^ Nat.clog 2 capacity.toNat) :=
    nextPow2_eq_clog (by omega) small
  refine
    ⟨{ capacity := BitVec.ofNat 64 (2 ^ Nat.clog 2 capacity.toNat)
       mask := BitVec.ofNat 64 (2 ^ Nat.clog 2 capacity.toNat) - 1
       rpos := 0
       wpos := 0
       buf := fresh }, ?_, ?_⟩
  · rw [create, rounded, Option.bind_some, if_pos (by omega)]
  · exact
      { capacity := rfl
        mask := rfl
        narrow := by omega
        bounded := Nat.zero_le _
        rpos := rfl
        wpos := rfl
        stores := Stores.nil }

/-- Past `2 ^ 30` the rounding is undefined or gives more elements than there can be. -/
theorem create_of_large (fresh : Nat → Value) {capacity : BitVec 64}
    (large : 2 ^ 30 < capacity.toNat) : create fresh capacity = none := by
  cases rounded : nextPow2 64 capacity.toNat with
  | none => rw [create, rounded, Option.bind_none]
  | some value =>
      have huge := nextPow2_large large capacity.isLt rounded
      rw [create, rounded, Option.bind_some, if_neg (by omega)]

/--
For every requested capacity and all calls, a ring buffer is a bounded queue if and only
if the capacity is at most `2 ^ 30` and `pop(ValueT&)` is called on an empty one only.
-/
theorem create_refinesQueue_iff (overwrite : Bool) (fresh : Nat → Value) (capacity : BitVec 64)
    (ops : List (RingOp Value)) :
    RefinesQueue overwrite fresh capacity ops ↔
      capacity.toNat ≤ 2 ^ 30 ∧ PopsToEmpty (2 ^ Nat.clog 2 capacity.toNat) 0 ops := by
  constructor
  · rintro ⟨ring, created, refines⟩
    refine ⟨?_, refines.popsToEmpty⟩
    by_contra large
    rw [create_of_large fresh (Nat.lt_of_not_le large)] at created
    cases created
  · rintro ⟨small, sound⟩
    obtain ⟨ring, created, holds⟩ := create_of_small fresh small
    exact ⟨ring, created, holds.refines overwrite rfl sound⟩

/-- An element is pushed and popped into a variable. -/
theorem not_refinesQueue_popTo :
    ¬RefinesQueue true (fun _ => 0) 4 [.push 7, .popTo] := by
  rintro ⟨ring, -, refines⟩
  have popped := (refines.popsToEmpty.2 fun same => nomatch same).1 rfl
  exact absurd popped (by decide)

end RingBuffer

end ReactiveToolbox.Util
