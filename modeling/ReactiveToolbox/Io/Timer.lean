import Mathlib.Logic.Function.Basic
import ReactiveToolbox.Lib.BinaryHeap
import ReactiveToolbox.Lib.Transition

/-!
# Timers

The timer pool, the timer queues that share it, and the code that uses them:
timer handles in variables, and the dispatches that are running with the timer
each of them has taken out of its heap.  A callback is what happens between the
start of a firing and its end, so that it may do anything its user can do.
-/

namespace ReactiveToolbox.Io

open ReactiveToolbox.Lib

universe u v

/-- The address of a `Timer::Impl`: slab by slab. -/
abbrev Ptr := Nat

/-- `Timer::Impl`.  The free list is kept apart, so `tq` stands for the union. -/
structure Impl (Queue : Type u) (Slot : Type v) where
  tq : Queue
  refCount : Int
  id : Int
  expiry : Int
  interval : Int
  slot : Option Slot
deriving DecidableEq

/-- The state of a `TimerQueue`. -/
structure TimerQueue where
  maxId : Int
  cancelled : Int
  heap : List Ptr
deriving DecidableEq

/-- What happened to timers, for the statements about runs. -/
inductive TimerEvent (Queue : Type u) where
  | allocated (impl : Ptr)
  | returned (impl : Ptr)
  | fired (queue : Queue) (id expiry interval : Int)
  | cancelled (queue : Queue) (id : Int)
  | dispatched (queue : Queue) (work : Nat)
deriving DecidableEq

/-- The memory of the pool and the queues that share it. -/
structure Store (Queue : Type u) (Slot : Type v) where
  impls : Ptr → Impl Queue Slot
  free : List Ptr
  slabs : Nat
  queues : Queue → TimerQueue
  log : List (TimerEvent Queue)

/-- `(PageSize - Overhead) / sizeof(Timer)`. -/
def slabSize : Nat := (4096 - 16) / 8

namespace Store

variable {Queue : Type u} {Slot : Type v} [DecidableEq Queue]

/-- Memory before the first slab, whatever it holds. -/
def initial (memory : Ptr → Impl Queue Slot) : Store Queue Slot where
  impls := memory
  free := []
  slabs := 0
  queues := fun _ => { maxId := 0, cancelled := 0, heap := [] }
  log := []

/-- The memory of a timer is set. -/
def setImpl (store : Store Queue Slot) (impl : Ptr) (value : Impl Queue Slot) :
    Store Queue Slot :=
  { store with impls := Function.update store.impls impl value }

/-- A queue is set. -/
def setQueue (store : Store Queue Slot) (queue : Queue) (value : TimerQueue) :
    Store Queue Slot :=
  { store with queues := Function.update store.queues queue value }

/-- The heap of a queue is set. -/
def setHeap (store : Store Queue Slot) (queue : Queue) (heap : List Ptr) :
    Store Queue Slot :=
  store.setQueue queue { store.queues queue with heap := heap }

/-- An event is appended to the log. -/
def record (store : Store Queue Slot) (event : TimerEvent Queue) : Store Queue Slot :=
  { store with log := store.log ++ [event] }

/-- `Timer::pending`, of a handle that is not empty. -/
def pending (store : Store Queue Slot) (impl : Ptr) : Bool :=
  (store.impls impl).slot.isSome

/-- `Timer::expiry`. -/
def expiry (store : Store Queue Slot) (impl : Ptr) : Int :=
  (store.impls impl).expiry

/-! ## The pool -/

/-- The free list after a new slab: its entries but the first, the last in front. -/
def slabRest (slab : Nat) : List Ptr :=
  (((List.range slabSize).tail).map fun entry => slab * slabSize + entry).reverse

/-- `TimerPool::alloc`. -/
def poolAlloc (store : Store Queue Slot) : Ptr × Store Queue Slot :=
  match store.free with
  | impl :: rest =>
      (impl, { store with free := rest }.record (.allocated impl))
  | [] =>
      (store.slabs * slabSize,
        { store with
          free := slabRest store.slabs
          slabs := store.slabs + 1 }.record (.allocated (store.slabs * slabSize)))

/-- `TimerPool::dealloc`. -/
def dealloc (store : Store Queue Slot) (impl : Ptr) : Store Queue Slot :=
  { store with free := impl :: store.free }.record (.returned impl)

/-! ## References -/

/-- `++impl->ref_count` and `--impl->ref_count`. -/
def addCount (store : Store Queue Slot) (impl : Ptr) (change : Int) : Store Queue Slot :=
  store.setImpl impl
    { store.impls impl with refCount := (store.impls impl).refCount + change }

/-- `intrusive_ptr_add_ref`. -/
def addRef (store : Store Queue Slot) (impl : Ptr) : Store Queue Slot :=
  store.addCount impl 1

/-- `intrusive_ptr_release` where the slot is empty. -/
def releaseDead (store : Store Queue Slot) (impl : Ptr) : Store Queue Slot :=
  if ((store.addCount impl (-1)).impls impl).refCount = 0 then
    (store.addCount impl (-1)).dealloc impl
  else store.addCount impl (-1)

/-! ## The queue -/

/-- `TimerQueue::size`. -/
def size (store : Store Queue Slot) (queue : Queue) : Int :=
  (store.queues queue).heap.length - (store.queues queue).cancelled

/-- `TimerQueue::empty`. -/
def empty (store : Store Queue Slot) (queue : Queue) : Bool :=
  store.size queue = 0

/-- `TimerQueue::front`. -/
def front (store : Store Queue Slot) (queue : Queue) : Option Ptr :=
  (store.queues queue).heap.head?

/-- `TimerQueue::gc`. -/
def gc (store : Store Queue Slot) (queue : Queue) : Store Queue Slot :=
  if (store.queues queue).cancelled > ((store.queues queue).heap.length / 2 : Nat) then
    ((store.queues queue).heap.filter fun entry => !store.pending entry).foldl releaseDead
      (store.setQueue queue
        { store.queues queue with
          heap := BinaryHeap.makeHeap store.expiry
            ((store.queues queue).heap.filter store.pending)
          cancelled := 0 })
  else store

/--
`TimerQueue::pop`, given the front.  The handle it returns is a copy of the
front, and the entry in the heap is released.
-/
def pop (release : Store Queue Slot → Ptr → Store Queue Slot)
    (store : Store Queue Slot) (queue : Queue) (front : Ptr) : Store Queue Slot :=
  release
    ((store.addRef front).setHeap queue
      (BinaryHeap.popHeap store.expiry (store.queues queue).heap))
    front

/-- `pop(); --cancelled_;` where the front is not pending. -/
def popDead (store : Store Queue Slot) (queue : Queue) (front : Ptr) : Store Queue Slot :=
  let popped := (pop releaseDead store queue front).releaseDead front
  popped.setQueue queue
    { popped.queues queue with cancelled := (popped.queues queue).cancelled - 1 }

/-- The loop that pops the entries that are not pending off the front. -/
def dropDead (queue : Queue) : Nat → Store Queue Slot → Store Queue Slot
  | 0, store => store
  | fuel + 1, store =>
      match (store.queues queue).heap with
      | [] => store
      | front :: _ =>
          if store.pending front then store
          else dropDead queue fuel (store.popDead queue front)

/-- The loop, as often as there are entries. -/
def dropAllDead (store : Store Queue Slot) (queue : Queue) : Store Queue Slot :=
  dropDead queue (store.queues queue).heap.length store

/-- `TimerQueue::cancel`. -/
def cancelQueue (store : Store Queue Slot) (queue : Queue) : Store Queue Slot :=
  ((store.setQueue queue
    { store.queues queue with
      cancelled := (store.queues queue).cancelled + 1 }).dropAllDead queue).gc queue

/-- `impl->slot.reset()`. -/
def resetSlot (store : Store Queue Slot) (impl : Ptr) : Store Queue Slot :=
  store.setImpl impl { store.impls impl with slot := none }

/-- `Timer::cancel`: if pending, reset the slot and inform the queue. -/
def cancel (store : Store Queue Slot) (impl : Ptr) : Store Queue Slot :=
  if store.pending impl then
    ((store.resetSlot impl).record
      (.cancelled (store.impls impl).tq (store.impls impl).id)).cancelQueue
        (store.impls impl).tq
  else store

/-- `intrusive_ptr_release`: cancel if only one reference remains. -/
def release (store : Store Queue Slot) (impl : Ptr) : Store Queue Slot :=
  if ((store.addCount impl (-1)).impls impl).refCount = 1 then
    (store.addCount impl (-1)).cancel impl
  else if ((store.addCount impl (-1)).impls impl).refCount = 0 then
    (store.addCount impl (-1)).dealloc impl
  else store.addCount impl (-1)

/-- Release what a handle referred to. -/
def releaseTimer (store : Store Queue Slot) : Option Ptr → Store Queue Slot
  | some impl => store.release impl
  | none => store

/-- `heap_.push_back(tmr); push_heap(..)`, with the copy that is pushed. -/
def push (store : Store Queue Slot) (queue : Queue) (impl : Ptr) : Store Queue Slot :=
  (store.addRef impl).setHeap queue
    (BinaryHeap.pushHeap store.expiry (store.queues queue).heap impl)

/-- `TimerQueue::alloc`. -/
def timerAlloc (store : Store Queue Slot) (queue : Queue) (expiry interval : Int)
    (slot : Slot) : Ptr × Store Queue Slot :=
  let id := (store.queues queue).maxId + 1
  (store.poolAlloc.1,
    (store.poolAlloc.2.setQueue queue { store.queues queue with maxId := id }).setImpl
      store.poolAlloc.1
      { tq := queue, refCount := 1, id, expiry, interval, slot := some slot })

/-- `TimerQueue::insert`, with the handle that it returns. -/
def insert (store : Store Queue Slot) (queue : Queue) (expiry interval : Int)
    (slot : Slot) : Ptr × Store Queue Slot :=
  ((store.timerAlloc queue expiry interval slot).1,
    (store.timerAlloc queue expiry interval slot).2.push queue
      (store.timerAlloc queue expiry interval slot).1)

/-- `set_expiry`. -/
def setExpiry (store : Store Queue Slot) (impl : Ptr) (expiry : Int) : Store Queue Slot :=
  store.setImpl impl { store.impls impl with expiry }

/-- `Timer::set_interval`. -/
def setInterval (store : Store Queue Slot) (impl : Ptr) (interval : Int) :
    Store Queue Slot :=
  store.setImpl impl { store.impls impl with interval }

/-- The end of `TimerQueue::expire`, up to the destruction of its handle. -/
def expireEnd (store : Store Queue Slot) (queue : Queue) (now : Int) :
    Option Ptr → Store Queue Slot
  | none => store
  | some impl =>
      if store.pending impl then
        if (store.impls impl).interval > 0 then
          (store.setExpiry impl
            (max ((store.impls impl).expiry + (store.impls impl).interval) (now + 1))).push
              queue impl
        else store.resetSlot impl
      else store

/-! ## What the primitive operations leave alone -/

section Fields

variable (store : Store Queue Slot) (impl other : Ptr) (change : Int)

omit [DecidableEq Queue] in
theorem counts_addCount :
    (fun other => ((store.addCount impl change).impls other).refCount) =
      Function.update (fun other => (store.impls other).refCount) impl
        ((store.impls impl).refCount + change) := by
  funext other
  simp only [addCount, setImpl]
  by_cases same : other = impl
  · subst same
    rw [Function.update_self, Function.update_self]
  · rw [Function.update_of_ne same, Function.update_of_ne same]

omit [DecidableEq Queue] in
/-- A change of the count leaves the rest of the timer. -/
theorem impls_addCount :
    (store.addCount impl change).impls other =
      { store.impls other with
        refCount := ((store.addCount impl change).impls other).refCount } := by
  simp only [addCount, setImpl]
  by_cases same : other = impl
  · subst same
    rw [Function.update_self]
  · rw [Function.update_of_ne same]

omit [DecidableEq Queue] in
@[simp]
theorem pending_addCount :
    (store.addCount impl change).pending other = store.pending other := by
  rw [pending, impls_addCount, pending]

omit [DecidableEq Queue] in
@[simp]
theorem expiry_addCount : (store.addCount impl change).expiry = store.expiry := by
  funext other
  rw [expiry, impls_addCount, expiry]

omit [DecidableEq Queue] in
@[simp]
theorem pending_resetSlot_self : (store.resetSlot impl).pending impl = false := by
  simp [pending, resetSlot, setImpl]

omit [DecidableEq Queue] in
theorem pending_resetSlot_of_ne {other impl : Ptr} (apart : other ≠ impl) :
    (store.resetSlot impl).pending other = store.pending other := by
  simp [pending, resetSlot, setImpl, apart]

omit [DecidableEq Queue] in
theorem pending_of_resetSlot {store : Store Queue Slot} {impl other : Ptr}
    (waiting : (store.resetSlot impl).pending other) : store.pending other := by
  by_cases same : other = impl
  · subst same
    simp at waiting
  · rwa [pending_resetSlot_of_ne store same] at waiting

omit [DecidableEq Queue] in
theorem pending_releaseDead :
    (store.releaseDead impl).pending other = store.pending other := by
  unfold releaseDead
  split
  · exact pending_addCount store impl other (-1)
  · exact pending_addCount store impl other (-1)

omit [DecidableEq Queue] in
@[simp]
theorem queues_poolAlloc : store.poolAlloc.2.queues = store.queues := by
  unfold poolAlloc
  cases store.free with
  | nil => simp only [record]
  | cons => simp only [record]

omit [DecidableEq Queue] in
@[simp]
theorem impls_poolAlloc : store.poolAlloc.2.impls = store.impls := by
  unfold poolAlloc
  cases store.free with
  | nil => simp only [record]
  | cons => simp only [record]

omit [DecidableEq Queue] in
theorem log_poolAlloc :
    store.poolAlloc.2.log = store.log ++ [.allocated store.poolAlloc.1] := by
  unfold poolAlloc
  cases store.free with
  | nil => rfl
  | cons => rfl

theorem log_timerAlloc (queue : Queue) (expiry interval : Int) (slot : Slot) :
    (store.timerAlloc queue expiry interval slot).2.log =
      store.log ++ [.allocated store.poolAlloc.1] :=
  log_poolAlloc store

theorem queues_setHeap_self (queue : Queue) (heap : List Ptr) :
    (store.setHeap queue heap).queues queue = { store.queues queue with heap := heap } :=
  Function.update_self _ _ _

theorem queues_setHeap_of_ne {queue other : Queue} {heap : List Ptr} (apart : other ≠ queue) :
    (store.setHeap queue heap).queues other = store.queues other :=
  Function.update_of_ne apart _ _

end Fields

section Insert

variable (store : Store Queue Slot) (queue : Queue) (expiry interval : Int) (slot : Slot)

theorem queues_insert_of_ne {other : Queue}
    (apart : other ≠ queue) :
    (store.insert queue expiry interval slot).2.queues other = store.queues other := by
  simp [Store.insert, Store.push, Store.timerAlloc, Store.setHeap, Store.setQueue,
    Store.addRef, Store.addCount, Store.setImpl, apart]

theorem queues_insert_self :
    (store.insert queue expiry interval slot).2.queues queue =
      { maxId := (store.queues queue).maxId + 1
        cancelled := (store.queues queue).cancelled
        heap := BinaryHeap.pushHeap (store.insert queue expiry interval slot).2.expiry
          (store.queues queue).heap store.poolAlloc.1 } := by
  have same : (store.insert queue expiry interval slot).2.expiry =
      (store.timerAlloc queue expiry interval slot).2.expiry := expiry_addCount _ _ _
  rw [same]
  simp [Store.insert, Store.push, Store.timerAlloc, Store.setHeap, Store.setQueue,
    Store.addRef, Store.addCount, Store.setImpl]

theorem impls_insert_self :
    (store.insert queue expiry interval slot).2.impls store.poolAlloc.1 =
      { tq := queue
        refCount := 2
        id := (store.queues queue).maxId + 1
        expiry := expiry
        interval := interval
        slot := some slot } := by
  simp [Store.insert, Store.push, Store.timerAlloc, Store.setHeap, Store.setQueue,
    Store.addRef, Store.addCount, Store.setImpl]

theorem impls_insert_of_ne {other : Ptr} (apart : other ≠ store.poolAlloc.1) :
    (store.insert queue expiry interval slot).2.impls other = store.impls other := by
  simp [Store.insert, Store.push, Store.timerAlloc, Store.setHeap, Store.setQueue, Store.addRef,
    Store.addCount, Store.setImpl, apart]

/-- All that is new in the heaps is the new timer, in its own. -/
theorem mem_heap_insert {home : Queue} {impl : Ptr} :
    impl ∈ ((store.insert queue expiry interval slot).2.queues home).heap ↔
      home = queue ∧ impl = store.poolAlloc.1 ∨ impl ∈ (store.queues home).heap := by
  have pushed := BinaryHeap.pushHeap_perm (store.insert queue expiry interval slot).2.expiry
    (store.queues queue).heap store.poolAlloc.1
  by_cases same : home = queue
  · subst same
    rw [queues_insert_self, pushed.mem_iff, List.mem_cons]
    simp only [true_and]
  · rw [queues_insert_of_ne store queue expiry interval slot same]
    simp only [same, false_and, false_or]

end Insert

end Store

/-! ## Handles and running dispatches -/

/-- A running `TimerQueue::dispatch` and the handle that its `expire` holds. -/
structure Frame (Queue : Type u) where
  queue : Queue
  now : Int
  work : Nat
  timer : Option Ptr
deriving DecidableEq

/-- A handle: a variable, or the reference that the innermost callback was passed. -/
inductive Ref where
  | var (index : Nat)
  | arg
deriving DecidableEq

/-- The timers, the user's handles and the running dispatches, the innermost first. -/
structure Machine (Queue : Type u) (Slot : Type v) where
  store : Store Queue Slot
  handles : List (Option Ptr)
  frames : List (Frame Queue)

/-- What a user does with timers, in a callback or outside. -/
inductive TimerAction (Queue : Type u) (Slot : Type v) where
  | declare
  | insert (target : Ref) (queue : Queue) (expiry interval : Int) (slot : Slot)
  | copy (target source : Ref)
  | move (target source : Ref)
  | reset (target : Ref)
  | cancel (target : Ref)
  | setInterval (target : Ref) (interval : Int)
  | dispatch (queue : Queue) (now : Int)
  /-- The callback returns, or throws a `std::exception`, which is logged. -/
  | leave
  /-- The callback throws anything else, which no dispatch catches. -/
  | unwind
deriving DecidableEq

namespace Machine

variable {Queue : Type u} {Slot : Type v} [DecidableEq Queue]

/-- No handle and no call. -/
def initial (memory : Ptr → Impl Queue Slot) : Machine Queue Slot where
  store := .initial memory
  handles := []
  frames := []

/-- What a handle refers to. -/
def get (machine : Machine Queue Slot) : Ref → Option (Option Ptr)
  | .var index => machine.handles[index]?
  | .arg => machine.frames.head?.map Frame.timer

/-- Let a handle refer to something else. -/
def put (machine : Machine Queue Slot) (value : Option Ptr) : Ref → Machine Queue Slot
  | .var index => { machine with handles := machine.handles.set index value }
  | .arg =>
      match machine.frames with
      | [] => machine
      | frame :: rest =>
          { machine with frames := { frame with timer := value } :: rest }

/-- What a call has left of the timers. -/
def setStore (machine : Machine Queue Slot) (store : Store Queue Slot) :
    Machine Queue Slot :=
  { machine with store }

/-- Assign to a handle and release what it referred to. -/
def assign (machine : Machine Queue Slot) (target : Ref) (value : Option Ptr) :
    Option (Machine Queue Slot) :=
  (machine.get target).map fun old =>
    (machine.put value target).setStore (machine.store.releaseTimer old)

/-- Add the reference of a copied handle. -/
def addRefTimer (machine : Machine Queue Slot) : Option Ptr → Machine Queue Slot
  | some impl => machine.setStore (machine.store.addRef impl)
  | none => machine

/--
The loop of `TimerQueue::dispatch`, up to the next callback or to its end.  The
running dispatch is taken off the stack for it.
-/
def advance (machine : Machine Queue Slot) (frame : Frame Queue) : Machine Queue Slot :=
  let store := machine.store.dropAllDead frame.queue
  let finished : Machine Queue Slot :=
    { machine with
      store := (store.gc frame.queue).record (.dispatched frame.queue frame.work) }
  match (store.queues frame.queue).heap with
  | [] => finished
  | front :: _ =>
      if store.expiry front ≤ frame.now then
        { machine with
          store := (Store.pop Store.release store frame.queue front).record
            (.fired frame.queue (store.impls front).id (store.impls front).expiry
              (store.impls front).interval)
          frames := { frame with timer := some front } :: machine.frames }
      else finished

/-- The end of a callback: the rest of `expire`, then the loop goes on. -/
def leave (machine : Machine Queue Slot) (frame : Frame Queue) (rest : List (Frame Queue)) :
    Machine Queue Slot :=
  { machine with
    store := (machine.store.expireEnd frame.queue frame.now frame.timer).releaseTimer frame.timer
    frames := rest }.advance { frame with timer := none, work := frame.work + 1 }

/-- One step of a user, of a callback or of `dispatch`. -/
def step (machine : Machine Queue Slot) :
    TimerAction Queue Slot → Option (Machine Queue Slot)
  | .declare => some { machine with handles := machine.handles ++ [none] }
  | .insert target queue expiry interval slot =>
      (machine.setStore (machine.store.insert queue expiry interval slot).2).assign target
        (some (machine.store.insert queue expiry interval slot).1)
  | .copy target source =>
      (machine.get source).bind fun value => (machine.addRefTimer value).assign target value
  | .move target source =>
      (machine.get source).bind fun value => (machine.put none source).assign target value
  | .reset target => machine.assign target none
  | .cancel target =>
      (machine.get target).join.map fun impl => machine.setStore (machine.store.cancel impl)
  | .setInterval target interval =>
      (machine.get target).join.map fun impl =>
        machine.setStore (machine.store.setInterval impl interval)
  | .dispatch queue now =>
      some (machine.advance { queue, now, work := 0, timer := none })
  | .leave =>
      match machine.frames with
      | [] => none
      | frame :: rest => some (machine.leave frame rest)
  | .unwind =>
      match machine.frames with
      | [] => none
      | frame :: rest =>
          some { machine with
            store := machine.store.releaseTimer frame.timer
            frames := rest }

end Machine

end ReactiveToolbox.Io
