import Mathlib.Data.BitVec
import ReactiveToolbox.Lib.BoundedFifo
import ReactiveToolbox.Util.Math

/-!
# The multi-producer multi-consumer queue

`MpmcQueue` is a ring of elements, each with a sequence number that says for
which ticket it is ready.  The loops of `MpmcQueue::read` and
`MpmcQueue::write` are modelled as the program of one thread: a program counter
with the loop's locals, and one step for each atomic load, compare-exchange,
access to the element's value and commit store.  The same program serves a
thread running alone and any number of threads interleaved.

Positions and sequence numbers are 64-bit words, subtracted modulo `2 ^ 64` and
tested as signed integers.
-/

namespace ReactiveToolbox.Ipc

open ReactiveToolbox.Util
open ReactiveToolbox.Lib

universe u

/-- A 64-bit position or sequence number. -/
abbrev Word := BitVec 64

/-- `MpmcQueue::Elem`. -/
structure Elem (Value : Type u) where
  seq : Word
  val : Value

/-- `MpmcQueue::Impl`: the two positions and the elements behind them. -/
structure Impl (Value : Type u) where
  rpos : Word
  wpos : Word
  elems : Nat → Elem Value

/-- `MpmcQueue`: the rounded capacity, the index mask and the mapped ring. -/
structure MpmcQueue (Value : Type u) where
  capacity : Word
  mask : Word
  impl : Impl Value

/-! ## Construction -/

/-- The size of `Impl` and of one `Elem`, which fills whole cache lines. -/
structure Layout where
  sizeofElem : Nat
  positive : 0 < sizeofElem
  small : sizeofElem < 2 ^ 32

/-- `sizeof(Impl) == 2 * CacheLineSize`. -/
def sizeofImpl : Nat := 128

/-- `MpmcQueue::size(capacity)`, in `size_t` arithmetic. -/
def Layout.size (layout : Layout) (capacity : Nat) : Nat :=
  (sizeofImpl + capacity * layout.sizeofElem) % 2 ^ 64

/-- `MpmcQueue::capacity(size)`. -/
def Layout.capacity (layout : Layout) (size : Nat) : Nat :=
  (size - sizeofImpl) / layout.sizeofElem

/--
The zeroed ring after the initialisation loop has stored `i` as the sequence
number of every element `i` below `count`.

The default value stands for the all-zero bytes that `memset` leaves.
-/
def initialImpl {Value : Type u} [Inhabited Value] (count : Nat) : Impl Value where
  rpos := 0
  wpos := 0
  elems := fun i => { seq := if i < count then BitVec.ofNat 64 i else 0, val := default }

/--
`MpmcQueue(std::size_t capacity)`: the in-memory constructor.

There is no queue where the rounding is undefined or where `mmap` throws, the
length being beyond any address space; a shorter mapping is granted.
-/
def MpmcQueue.ofCapacity {Value : Type u} [Inhabited Value]
    (layout : Layout) (capacity : Nat) : Option (MpmcQueue Value) :=
  (nextPow2 64 capacity).bind fun rounded =>
    if layout.size rounded < 2 ^ 63 then
      some {
        capacity := BitVec.ofNat 64 rounded
        mask := BitVec.ofNat 64 rounded - 1
        -- The loop runs to the requested capacity, not to the rounded one.
        impl := initialImpl capacity }
    else none

/-- A queue file: its length in bytes and the ring it holds. -/
structure QueueFile (Value : Type u) where
  fileSize : Nat
  impl : Impl Value

/-- `new_mpmc_queue`: size and initialise a queue file. -/
def newMpmcQueue {Value : Type u} [Inhabited Value]
    (layout : Layout) (capacity : Nat) : Option (QueueFile Value) :=
  (nextPow2 64 capacity).bind fun rounded =>
    if layout.size rounded < 2 ^ 63 then
      some { fileSize := layout.size rounded, impl := initialImpl rounded }
    else none

/-- `MpmcQueue(FileHandle&)`: map a queue file, throwing on an odd capacity. -/
def MpmcQueue.ofFile {Value : Type u}
    (layout : Layout) (file : QueueFile Value) : Option (MpmcQueue Value) :=
  let capacity := layout.capacity file.fileSize
  if isPow2 capacity then
    some {
      capacity := BitVec.ofNat 64 capacity
      mask := BitVec.ofNat 64 capacity - 1
      impl := file.impl }
  else none

/-! ## The program of one thread -/

/-- Where a thread stands in `read` or `write`, with the locals of the loop. -/
inductive Pc (Value : Type u) where
  | writeLoadPos (value : Value)
  | writeLoadSeq (value : Value) (wpos : Word)
  | writeExchange (value : Value) (wpos : Word)
  | writeValue (value : Value) (wpos : Word)
  | writeCommit (value : Value) (wpos : Word)
  | readLoadPos
  | readLoadSeq (rpos : Word)
  | readExchange (rpos : Word)
  | readValue (rpos : Word)
  | readCommit (rpos : Word) (value : Value)
  deriving DecidableEq

namespace MpmcQueue

variable {Value : Type u}

/-- The index of the element at a position: `pos & mask_`. -/
def slot (queue : MpmcQueue Value) (pos : Word) : Nat :=
  (pos &&& queue.mask).toNat

/-- `impl_->elems[pos & mask_]`. -/
def elem (queue : MpmcQueue Value) (pos : Word) : Elem Value :=
  queue.impl.elems (queue.slot pos)

/-- The element of a position is set. -/
def setElem (queue : MpmcQueue Value) (pos : Word) (elem : Elem Value) :
    MpmcQueue Value :=
  { queue with
    impl := {
      queue.impl with
      elems := Function.update queue.impl.elems (queue.slot pos) elem } }

/-- `rpos` is set. -/
def setRpos (queue : MpmcQueue Value) (rpos : Word) : MpmcQueue Value :=
  { queue with impl := { queue.impl with rpos := rpos } }

/-- `wpos` is set. -/
def setWpos (queue : MpmcQueue Value) (wpos : Word) : MpmcQueue Value :=
  { queue with impl := { queue.impl with wpos := wpos } }

/-- Where the program stands after a step, or what the call returned. -/
abbrev Control (Value : Type u) := Sum (Pc Value) (QueueOutcome Value)

/--
One step of the program.

The weak compare-exchange may fail spuriously; like any failure it re-reads
the position.
-/
def stepPc (queue : MpmcQueue Value) (spurious : Bool) :
    Pc Value → MpmcQueue Value × Control Value
  | .writeLoadPos value => (queue, .inl (.writeLoadSeq value queue.impl.wpos))
  | .writeLoadSeq value wpos =>
      let diff := (queue.elem wpos).seq - wpos
      if diff = 0 then (queue, .inl (.writeExchange value wpos))
      else if diff.slt 0 then (queue, .inr (.pushed false))
      else (queue, .inl (.writeLoadPos value))
  | .writeExchange value wpos =>
      if queue.impl.wpos = wpos ∧ spurious = false then
        (queue.setWpos (wpos + 1), .inl (.writeValue value wpos))
      else (queue, .inl (.writeLoadSeq value queue.impl.wpos))
  | .writeValue value wpos =>
      (queue.setElem wpos { queue.elem wpos with val := value },
        .inl (.writeCommit value wpos))
  | .writeCommit _ wpos =>
      (queue.setElem wpos { queue.elem wpos with seq := wpos + 1 },
        .inr (.pushed true))
  | .readLoadPos => (queue, .inl (.readLoadSeq queue.impl.rpos))
  | .readLoadSeq rpos =>
      let diff := (queue.elem rpos).seq - (rpos + 1)
      if diff = 0 then (queue, .inl (.readExchange rpos))
      else if diff.slt 0 then (queue, .inr (.popped none))
      else (queue, .inl .readLoadPos)
  | .readExchange rpos =>
      if queue.impl.rpos = rpos ∧ spurious = false then
        (queue.setRpos (rpos + 1), .inl (.readValue rpos))
      else (queue, .inl (.readLoadSeq queue.impl.rpos))
  | .readValue rpos => (queue, .inl (.readCommit rpos (queue.elem rpos).val))
  | .readCommit rpos value =>
      (queue.setElem rpos { queue.elem rpos with seq := rpos + queue.capacity },
        .inr (.popped (some value)))

/-- The first step of `push` or `pop`. -/
def begin : QueueOp Value → Pc Value
  | .push value => .writeLoadPos value
  | .pop => .readLoadPos

/-! ## A thread running alone -/

/-- Whether the next step is a compare-exchange. -/
def exchanging : Pc Value → Bool
  | .writeExchange .. | .readExchange .. => true
  | _ => false

/--
Run the program to its return, with the given number of spurious failures of
its compare-exchange first.  No value stands for a loop that is still running.
-/
def runAlone : Nat → Nat → MpmcQueue Value → Pc Value →
    Option (MpmcQueue Value × QueueOutcome Value)
  | 0, _, _, _ => none
  | fuel + 1, failures, queue, pc =>
      let spurious := exchanging pc && decide (0 < failures)
      match stepPc queue spurious pc with
      | (next, .inl pc) =>
          runAlone fuel (if spurious then failures - 1 else failures) next pc
      | (next, .inr outcome) => some (next, outcome)

/-- A call made by the only thread, and how often its compare-exchange fails. -/
structure Call (Value : Type u) where
  op : QueueOp Value
  failures : Nat

/-- One call, given the steps of every failed attempt and of the last one. -/
def call (queue : MpmcQueue Value) (call : Call Value) :
    Option (MpmcQueue Value × QueueOutcome Value) :=
  runAlone (2 * call.failures + 5) call.failures queue (begin call.op)

/-- The outcomes of a sequence of calls. -/
def calls (queue : MpmcQueue Value) : List (Call Value) → Option (List (QueueOutcome Value))
  | [] => some []
  | first :: rest =>
      (queue.call first).bind fun returned =>
        (returned.1.calls rest).map fun outcomes => returned.2 :: outcomes

end MpmcQueue

end ReactiveToolbox.Ipc
