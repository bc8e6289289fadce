import Mathlib.Algebra.BigOperators.Group.Finset.Piecewise
import Mathlib.Algebra.Order.BigOperators.Group.Finset
import ReactiveToolbox.Io.Timer
import ReactiveToolbox.Lib.RefCount

/-!
# Who refers to a timer

A `Timer::Impl` counts the handles that refer to it: those of the user, those in
the heaps and those of the running dispatches.  Each operation of the queue is
followed by the number of handles outside the heaps, so that a handle that is
about to be destroyed still counts.
-/

namespace ReactiveToolbox.Io

open ReactiveToolbox.Lib

universe u v

namespace Store

variable {Queue : Type u} {Slot : Type v} [DecidableEq Queue] [Fintype Queue]
    {store : Store Queue Slot} {outside outside' : Ptr → Nat} {impl : Ptr} {queue : Queue}

/-- The handles in the heaps that refer to a timer. -/
def heapRefs (store : Store Queue Slot) (impl : Ptr) : Nat :=
  ∑ queue, (store.queues queue).heap.count impl

/-- The handles in the heaps and outside them. -/
def refs (store : Store Queue Slot) (outside : Ptr → Nat) : Ptr → Nat :=
  store.heapRefs + outside

theorem heapRefs_setQueue (store : Store Queue Slot) (queue : Queue) (value : TimerQueue)
    (impl : Ptr) :
    (store.setQueue queue value).heapRefs impl + (store.queues queue).heap.count impl =
      store.heapRefs impl + value.heap.count impl := by
  have updated :
      (fun other => ((store.setQueue queue value).queues other).heap.count impl) =
        Function.update (fun other => (store.queues other).heap.count impl) queue
          (value.heap.count impl) := by
    funext other
    simp only [setQueue]
    by_cases same : other = queue
    · subst same
      rw [Function.update_self, Function.update_self]
    · rw [Function.update_of_ne same, Function.update_of_ne same]
  rw [heapRefs, updated, Finset.sum_update_of_mem (Finset.mem_univ queue), heapRefs,
    Finset.sum_eq_add_sum_sdiff_singleton_of_mem (Finset.mem_univ queue)
      (fun other => (store.queues other).heap.count impl)]
  omega

/-- What leaves a heap is held outside it. -/
theorem refs_setQueue {value : TimerQueue}
    (moved : ∀ impl, value.heap.count impl + outside' impl =
      (store.queues queue).heap.count impl + outside impl) :
    (store.setQueue queue value).refs outside' = store.refs outside := by
  funext impl
  have total := heapRefs_setQueue store queue value impl
  have change := moved impl
  simp only [refs, Pi.add_apply]
  omega

omit [DecidableEq Queue] in
theorem refs_of_heaps {store' : Store Queue Slot}
    (same : ∀ other, (store'.queues other).heap = (store.queues other).heap) :
    store'.refs outside = store.refs outside := by
  unfold refs heapRefs
  simp only [same]

/-- The pool is in order, given the handles outside the heaps. -/
def Cells (store : Store Queue Slot) (outside : Ptr → Nat) : Prop :=
  RefCounted (fun impl => (store.impls impl).refCount) store.free
    (store.slabs * slabSize)
    (fun impl => store.log.count (.allocated impl))
    (fun impl => store.log.count (.returned impl))
    (store.refs outside)

/-- A pending timer is referred to from outside its heap as well. -/
def Held (store : Store Queue Slot) (outside : Ptr → Nat) : Prop :=
  ∀ impl, 0 < store.refs outside impl → store.pending impl → 2 ≤ store.refs outside impl

/-- The pool is in order and pending timers are held. -/
structure Counted (store : Store Queue Slot) (outside : Ptr → Nat) : Prop where
  cells : store.Cells outside
  held : store.Held outside

/-! ## The primitive operations -/

omit [DecidableEq Queue] in
theorem refs_add_single (store : Store Queue Slot) (outside : Ptr → Nat) (impl : Ptr) :
    store.refs (outside + Pi.single impl 1) = store.refs outside + Pi.single impl 1 :=
  (add_assoc _ _ _).symm

theorem Cells.congr {store' : Store Queue Slot}
    (cells : store.Cells outside)
    (count : ∀ other, (store'.impls other).refCount = (store.impls other).refCount)
    (free : store'.free = store.free) (slabs : store'.slabs = store.slabs)
    (allocs : ∀ other, store'.log.count (.allocated other) = store.log.count (.allocated other))
    (returns : ∀ other, store'.log.count (.returned other) = store.log.count (.returned other))
    (refs : store'.refs outside' = store.refs outside) :
    store'.Cells outside' := by
  unfold Cells
  rw [free, slabs, refs, funext count, funext allocs, funext returns]
  exact cells

theorem Cells.setQueue (cells : store.Cells outside) {value : TimerQueue}
    (moved : ∀ impl, value.heap.count impl + outside' impl =
      (store.queues queue).heap.count impl + outside impl) :
    (store.setQueue queue value).Cells outside' :=
  cells.congr (fun _ => rfl) rfl rfl (fun _ => rfl) (fun _ => rfl) (refs_setQueue moved)

theorem Cells.record (cells : store.Cells outside) {event : TimerEvent Queue}
    (notAlloc : ∀ impl, event ≠ .allocated impl) (notReturn : ∀ impl, event ≠ .returned impl) :
    (store.record event).Cells outside := by
  refine cells.congr (fun _ => rfl) rfl rfl (fun other => ?_) (fun other => ?_) rfl
  · simp [Store.record, List.count_append, notAlloc]
  · simp [Store.record, List.count_append, notReturn]

theorem Cells.resetSlot (cells : store.Cells outside) (impl : Ptr) :
    (store.resetSlot impl).Cells outside := by
  refine cells.congr (fun other => ?_) rfl rfl (fun _ => rfl) (fun _ => rfl) rfl
  simp only [Store.resetSlot, setImpl]
  by_cases same : other = impl
  · subst same
    rw [Function.update_self]
  · rw [Function.update_of_ne same]

theorem Cells.addRef (cells : store.Cells outside) (live : 0 < store.refs outside impl) :
    (store.addRef impl).Cells (outside + Pi.single impl 1) := by
  have acquired := RefCounted.acquire cells live
  rw [← refs_add_single] at acquired
  unfold Cells Store.addRef
  rw [counts_addCount]
  exact acquired

theorem Cells.drop (cells : store.Cells (outside + Pi.single impl 1))
    (live : 0 < store.refs outside impl) :
    (store.addCount impl (-1)).Cells outside := by
  unfold Cells at cells
  rw [refs_add_single] at cells
  have dropped := cells.drop live
  unfold Cells
  rw [counts_addCount]
  exact dropped

theorem Cells.recycle (cells : store.Cells (outside + Pi.single impl 1))
    (last : store.refs outside impl = 0) :
    ((store.addCount impl (-1)).dealloc impl).Cells outside := by
  unfold Cells at cells
  rw [refs_add_single] at cells
  have returned : (fun other => ((store.addCount impl (-1)).dealloc impl).log.count
      (.returned other)) =
        (fun other => store.log.count (.returned other)) + Pi.single impl 1 := by
    funext other
    by_cases same : other = impl
    · subst same
      simp [dealloc, Store.record, addCount, setImpl, List.count_append]
    · simp [dealloc, Store.record, addCount, setImpl, List.count_append, same, Ne.symm same]
  have allocated : (fun other => ((store.addCount impl (-1)).dealloc impl).log.count
      (.allocated other)) = fun other => store.log.count (.allocated other) := by
    funext other
    simp [dealloc, Store.record, addCount, setImpl, List.count_append]
  unfold Cells
  rw [returned, allocated]
  refine cells.recycle last ?_ fun other apart => ?_
  · have counted := cells.counted impl (cells.allocs_pos (by simp))
    simp [dealloc, Store.record, addCount, setImpl, counted, last]
  · simp [dealloc, Store.record, addCount, setImpl, apart]

/-- What the count says after the decrement. -/
theorem Cells.refCount_drop (cells : store.Cells (outside + Pi.single impl 1)) :
    ((store.addCount impl (-1)).impls impl).refCount = store.refs outside impl := by
  unfold Cells at cells
  rw [refs_add_single] at cells
  have counted := cells.counted impl (cells.allocs_pos (by simp))
  simp only [addCount, setImpl, Function.update_self]
  rw [counted]
  simp

omit [DecidableEq Queue] in
theorem Held.congr {store' : Store Queue Slot}
    (held : store.Held outside)
    (pending : ∀ other, store'.pending other → store.pending other)
    (refs : store'.refs outside' = store.refs outside) :
    store'.Held outside' := by
  intro other live waiting
  rw [refs] at live ⊢
  exact held other live (pending other waiting)

omit [DecidableEq Queue] in
/-- A handle to a timer that is not pending holds nothing. -/
theorem Held.drop (held : store.Held (outside + Pi.single impl 1))
    (dead : store.pending impl = false) : store.Held outside := by
  intro other live waiting
  have apart : other ≠ impl := by
    rintro rfl
    rw [dead] at waiting
    cases waiting
  have before := held other
  rw [refs_add_single] at before
  simp only [Pi.add_apply, Pi.single_eq_of_ne apart, Nat.add_zero] at before
  exact before live waiting

theorem Counted.setQueue (counted : store.Counted outside) {value : TimerQueue}
    (moved : ∀ impl, value.heap.count impl + outside' impl =
      (store.queues queue).heap.count impl + outside impl) :
    (store.setQueue queue value).Counted outside' :=
  ⟨counted.cells.setQueue moved,
    counted.held.congr (fun _ waiting => waiting) (refs_setQueue moved)⟩

theorem Counted.record (counted : store.Counted outside) {event : TimerEvent Queue}
    (notAlloc : ∀ impl, event ≠ .allocated impl) (notReturn : ∀ impl, event ≠ .returned impl) :
    (store.record event).Counted outside :=
  ⟨counted.cells.record notAlloc notReturn, counted.held.congr (fun _ waiting => waiting) rfl⟩

theorem Counted.resetSlot (counted : store.Counted outside) (impl : Ptr) :
    (store.resetSlot impl).Counted outside :=
  ⟨counted.cells.resetSlot impl,
    counted.held.congr (fun _ => pending_of_resetSlot) rfl⟩

theorem Counted.addRef (counted : store.Counted outside)
    (live : 0 < store.refs outside impl) :
    (store.addRef impl).Counted (outside + Pi.single impl 1) := by
  refine ⟨counted.cells.addRef live, fun other live' waiting => ?_⟩
  have same : (store.addRef impl).refs (outside + Pi.single impl 1) =
      store.refs outside + Pi.single impl 1 := refs_add_single store outside impl
  rw [same] at live' ⊢
  rw [Store.addRef, pending_addCount] at waiting
  by_cases equal : other = impl
  · subst equal
    simp only [Pi.add_apply, Pi.single_eq_same]
    omega
  · simp only [Pi.add_apply, Pi.single_eq_of_ne equal, Nat.add_zero] at live' ⊢
    exact counted.held other live' waiting

/-! ## Collecting what is not pending -/

theorem Counted.releaseDead (counted : store.Counted (outside + Pi.single impl 1))
    (dead : store.pending impl = false) : (store.releaseDead impl).Counted outside := by
  have held : (store.addCount impl (-1)).Held outside :=
    (counted.held.drop dead).congr
      (fun other waiting => by rwa [pending_addCount] at waiting) rfl
  unfold Store.releaseDead
  rw [counted.cells.refCount_drop]
  split
  · rename_i last
    exact ⟨counted.cells.recycle (by exact_mod_cast last), held.congr (fun _ h => h) rfl⟩
  · rename_i others
    exact ⟨counted.cells.drop (Nat.pos_of_ne_zero (by exact_mod_cast others)), held⟩

theorem Counted.releaseAllDead {dead : List Ptr}
    (counted : store.Counted (outside + fun impl => dead.count impl))
    (allDead : ∀ impl ∈ dead, store.pending impl = false) :
    (dead.foldl Store.releaseDead store).Counted outside := by
  induction dead generalizing store with
  | nil =>
      have none : (outside + fun other => ([] : List Ptr).count other) = outside := by
        funext other
        simp
      rwa [none] at counted
  | cons impl rest ih =>
      have one : (outside + fun other => (impl :: rest).count other) =
          (outside + fun other => rest.count other) + Pi.single impl 1 := by
        funext other
        by_cases same : other = impl
        · subst same
          simp [Nat.add_assoc]
        · simp [same, Ne.symm same]
      rw [one] at counted
      refine ih (counted.releaseDead (allDead impl List.mem_cons_self)) fun other present => ?_
      rw [pending_releaseDead]
      exact allDead other (List.mem_cons_of_mem _ present)

omit [DecidableEq Queue] in
theorem refs_pos_of_mem (present : impl ∈ (store.queues queue).heap) :
    0 < store.refs outside impl := by
  let counts := fun other => (store.queues other).heap.count impl
  have one : counts queue ≤ ∑ other, counts other :=
    Finset.single_le_sum_of_canonicallyOrdered (Finset.mem_univ queue)
  have positive : 0 < counts queue := List.count_pos_iff.mpr present
  exact Nat.add_pos_left (positive.trans_le one) _

/-- The front is copied and leaves the heap: its entry and its copy are both outside. -/
theorem Counted.popped (counted : store.Counted outside) {front : Ptr} {rest : List Ptr}
    (heap : (store.queues queue).heap = front :: rest) :
    ((store.addRef front).setHeap queue
      (BinaryHeap.popHeap store.expiry (store.queues queue).heap)).Counted
        (outside + Pi.single front 1 + Pi.single front 1) := by
  have live : 0 < store.refs outside front :=
    refs_pos_of_mem (heap ▸ List.mem_cons_self)
  refine (counted.addRef live).setQueue fun other => ?_
  have left := (BinaryHeap.popHeap_perm store.expiry front rest).count_eq other
  simp only [Store.addRef, addCount, setImpl, heap, left, List.count_cons, Pi.add_apply,
    Pi.single_apply]
  by_cases same : other = front
  · subst same
    simp
    omega
  · simp [same, Ne.symm same]

theorem Counted.popDead (counted : store.Counted outside) {front : Ptr} {rest : List Ptr}
    (heap : (store.queues queue).heap = front :: rest) (dead : store.pending front = false) :
    (store.popDead queue front).Counted outside := by
  have popped := counted.popped heap
  have deadPopped : ((store.addRef front).setHeap queue
      (BinaryHeap.popHeap store.expiry (store.queues queue).heap)).pending front = false := by
    rw [← dead]
    exact pending_addCount store front front 1
  have once := popped.releaseDead deadPopped
  have twice := once.releaseDead (by rw [pending_releaseDead]; exact deadPopped)
  exact twice.setQueue fun _ => rfl

theorem Counted.dropDead {fuel : Nat} (counted : store.Counted outside) :
    (Store.dropDead queue fuel store).Counted outside := by
  induction fuel generalizing store with
  | zero => exact counted
  | succ fuel ih =>
      rw [Store.dropDead]
      split
      · exact counted
      · rename_i front rest heap
        split
        · exact counted
        · rename_i dead
          exact ih (counted.popDead heap (by simpa using dead))

theorem Counted.gc (counted : store.Counted outside) (queue : Queue) :
    (store.gc queue).Counted outside := by
  unfold Store.gc
  split
  · refine Counted.releaseAllDead (counted.setQueue fun other => ?_) fun other present => ?_
    · have kept := (BinaryHeap.makeHeap_perm store.expiry
        ((store.queues queue).heap.filter store.pending)).count_eq other
      have all := (List.filter_append_perm store.pending
        (store.queues queue).heap).count_eq other
      rw [List.count_append] at all
      simp only [Pi.add_apply]
      omega
    · simpa [pending, Store.setQueue] using (List.mem_filter.mp present).2
  · exact counted

theorem Counted.cancelQueue (counted : store.Counted outside) (queue : Queue) :
    (store.cancelQueue queue).Counted outside := by
  have counted' : (store.setQueue queue
      { store.queues queue with
        cancelled := (store.queues queue).cancelled + 1 }).Counted outside :=
    counted.setQueue fun _ => rfl
  exact counted'.dropDead.gc queue

theorem Counted.cancel (counted : store.Counted outside) (impl : Ptr) :
    (store.cancel impl).Counted outside := by
  unfold Store.cancel
  split
  · exact ((counted.resetSlot impl).record (by simp) (by simp)).cancelQueue _
  · exact counted

/-! ## Handles come and go -/

/-- The handle that is released may have been the last one outside the heap. -/
theorem Counted.release (counted : store.Counted (outside + Pi.single impl 1)) :
    (store.release impl).Counted outside := by
  have others : ∀ other, other ≠ impl → 0 < store.refs outside other →
      store.pending other → 2 ≤ store.refs outside other := by
    intro other apart live waiting
    have before := counted.held other
    rw [refs_add_single] at before
    simp only [Pi.add_apply, Pi.single_eq_of_ne apart, Nat.add_zero] at before
    exact before live waiting
  unfold Store.release
  rw [counted.cells.refCount_drop]
  split
  · rename_i one
    have one : store.refs outside impl = 1 := by exact_mod_cast one
    have cells := counted.cells.drop (by omega)
    have reset : ((store.addCount impl (-1)).resetSlot impl).Counted outside := by
      refine ⟨cells.resetSlot impl, fun other live waiting => ?_⟩
      have apart : other ≠ impl := by
        rintro rfl
        simp at waiting
      rw [pending_resetSlot_of_ne _ apart, pending_addCount] at waiting
      exact others other apart live waiting
    unfold Store.cancel
    split
    · exact (reset.record (by simp) (by simp)).cancelQueue _
    · rename_i dead
      refine ⟨cells, (counted.held.drop (by simpa using dead)).congr
        (fun other waiting => by rwa [pending_addCount] at waiting) rfl⟩
  · rename_i notOne
    have notOne : store.refs outside impl ≠ 1 := by exact_mod_cast notOne
    have held : (store.addCount impl (-1)).Held outside := by
      intro other live waiting
      rw [pending_addCount] at waiting
      by_cases same : other = impl
      · subst same
        have live : 0 < store.refs outside other := live
        exact show 2 ≤ store.refs outside other by omega
      · exact others other same live waiting
    split
    · rename_i last
      exact ⟨counted.cells.recycle (by exact_mod_cast last), held.congr (fun _ h => h) rfl⟩
    · rename_i some
      exact ⟨counted.cells.drop (Nat.pos_of_ne_zero (by exact_mod_cast some)), held⟩

/-- The reference that a handle holds. -/
def unit : Option Ptr → Ptr → Nat
  | some impl => Pi.single impl 1
  | none => 0

theorem Counted.releaseTimer {timer : Option Ptr}
    (counted : store.Counted (outside + unit timer)) :
    (store.releaseTimer timer).Counted outside := by
  cases timer with
  | none => exact counted
  | some impl => exact counted.release

omit [DecidableEq Queue] [Fintype Queue] in
theorem count_pushed (store : Store Queue Slot) (queue : Queue) (impl other : Ptr) :
    (BinaryHeap.pushHeap store.expiry (store.queues queue).heap impl).count other +
        outside other =
      (store.queues queue).heap.count other +
        (outside + Pi.single impl 1 : Ptr → Nat) other := by
  rw [(BinaryHeap.pushHeap_perm store.expiry (store.queues queue).heap impl).count_eq,
    List.count_cons]
  by_cases same : other = impl
  · subst same
    simp
    omega
  · simp [same, Ne.symm same]

theorem Counted.push (counted : store.Counted outside) (queue : Queue)
    (live : 0 < store.refs outside impl) :
    (store.push queue impl).Counted outside :=
  (counted.addRef live).setQueue fun other => count_pushed store queue impl other

theorem Cells.push (cells : store.Cells outside) (queue : Queue)
    (live : 0 < store.refs outside impl) :
    (store.push queue impl).Cells outside :=
  (cells.addRef live).setQueue fun other => count_pushed store queue impl other

theorem Counted.setImpl (counted : store.Counted outside) {value : Impl Queue Slot}
    (count : value.refCount = (store.impls impl).refCount)
    (slot : value.slot = (store.impls impl).slot) :
    (store.setImpl impl value).Counted outside := by
  refine ⟨counted.cells.congr (fun other => ?_) rfl rfl (fun _ => rfl) (fun _ => rfl) rfl,
    counted.held.congr (fun other waiting => ?_) rfl⟩
  · by_cases same : other = impl
    · subst same
      simp [Store.setImpl, count]
    · simp [Store.setImpl, same]
  · by_cases same : other = impl
    · subst same
      simpa [pending, Store.setImpl, slot] using waiting
    · simpa [pending, Store.setImpl, same] using waiting

theorem Counted.expireEnd (counted : store.Counted (outside + unit timer)) (queue : Queue)
    (now : Int) : (store.expireEnd queue now timer).Counted (outside + unit timer) := by
  cases timer with
  | none => exact counted
  | some impl =>
      have live : 0 < store.refs (outside + Pi.single impl 1) impl := by
        rw [refs_add_single]
        simp
      rw [Store.expireEnd]
      split
      · split
        · have moved : (store.setExpiry impl (max ((store.impls impl).expiry +
              (store.impls impl).interval) (now + 1))).Counted (outside + unit (some impl)) :=
            counted.setImpl rfl rfl
          exact moved.push queue live
        · exact counted.resetSlot impl
      · exact counted

/-! ## A new timer -/

theorem mem_slabRest (slab other : Nat) :
    other ∈ slabRest slab ↔ slab * slabSize < other ∧ other < slab * slabSize + slabSize := by
  simp only [slabRest, List.mem_reverse, List.mem_map, List.range_eq_range', List.tail_range',
    List.mem_range'_1]
  constructor
  · rintro ⟨entry, within, rfl⟩
    omega
  · rintro ⟨above, below⟩
    exact ⟨other - slab * slabSize, by omega, by omega⟩

theorem nodup_slabRest (slab : Nat) : (slabRest slab).Nodup := by
  refine List.nodup_reverse.mpr (List.Nodup.map (fun first second same => ?_) ?_)
  · exact Nat.add_left_cancel same
  · exact List.nodup_range.tail

omit [Fintype Queue] in
theorem heap_timerAlloc (store : Store Queue Slot) (queue : Queue) (expiry interval : Int)
    (slot : Slot) (other : Queue) :
    ((store.timerAlloc queue expiry interval slot).2.queues other).heap =
      (store.queues other).heap := by
  simp only [Store.timerAlloc, Store.setImpl, Store.setQueue, queues_poolAlloc]
  by_cases same : other = queue
  · subst same
    rw [Function.update_self]
  · rw [Function.update_of_ne same]

/-- The pool hands out a timer that nothing refers to. -/
theorem Cells.timerAlloc (cells : store.Cells outside) (queue : Queue)
    (expiry interval : Int) (slot : Slot) :
    (store.timerAlloc queue expiry interval slot).2.Cells
        (outside + Pi.single store.poolAlloc.1 1) ∧
      store.refs outside store.poolAlloc.1 = 0 := by
  unfold Cells
  rw [refs_of_heaps (heap_timerAlloc store queue expiry interval slot), refs_add_single]
  have one : ((store.timerAlloc queue expiry interval slot).2.impls
      store.poolAlloc.1).refCount = 1 := by
    simp [Store.timerAlloc, Store.setImpl]
  have others : ∀ other, other ≠ store.poolAlloc.1 →
      ((store.timerAlloc queue expiry interval slot).2.impls other).refCount =
        (store.impls other).refCount := by
    intro other apart
    simp [Store.timerAlloc, Store.setImpl, Store.setQueue, apart]
  have allocs : (fun other => (store.timerAlloc queue expiry interval slot).2.log.count
      (.allocated other)) =
        (fun other => store.log.count (.allocated other)) + Pi.single store.poolAlloc.1 1 := by
    funext other
    rw [log_timerAlloc, List.count_append]
    by_cases same : other = store.poolAlloc.1
    · simp [same]
    · simp [same, Ne.symm same]
  have returns : (fun other => (store.timerAlloc queue expiry interval slot).2.log.count
      (.returned other)) = fun other => store.log.count (.returned other) := by
    funext other
    rw [log_timerAlloc, List.count_append]
    simp
  rw [allocs, returns]
  cases free : store.free with
  | nil =>
      have first : store.poolAlloc.1 = store.slabs * slabSize := by
        simp only [Store.poolAlloc, free]
      have rest : (store.timerAlloc queue expiry interval slot).2.free =
          slabRest store.slabs := by
        simp only [Store.timerAlloc, Store.setImpl, Store.setQueue, Store.poolAlloc, free,
          Store.record]
      have slabs : (store.timerAlloc queue expiry interval slot).2.slabs * slabSize =
          store.slabs * slabSize + slabSize := by
        simp only [Store.timerAlloc, Store.setImpl, Store.setQueue, Store.poolAlloc, free,
          Store.record]
        exact Nat.succ_mul _ _
      unfold Cells at cells
      rw [free] at cells
      rw [first] at one others ⊢
      rw [rest, slabs]
      exact ⟨cells.grow (by decide) one others (nodup_slabRest store.slabs)
        (mem_slabRest store.slabs), cells.beyond _ (Nat.le_refl _)⟩
  | cons impl left =>
      have first : store.poolAlloc.1 = impl := by
        simp only [Store.poolAlloc, free]
      have rest : (store.timerAlloc queue expiry interval slot).2.free = left := by
        simp only [Store.timerAlloc, Store.setImpl, Store.setQueue, Store.poolAlloc, free,
          Store.record]
      have slabs : (store.timerAlloc queue expiry interval slot).2.slabs = store.slabs := by
        simp only [Store.timerAlloc, Store.setImpl, Store.setQueue, Store.poolAlloc, free,
          Store.record]
      unfold Cells at cells
      rw [free] at cells
      rw [first] at one others ⊢
      rw [rest, slabs]
      exact ⟨cells.take one others, ((cells.free_iff impl).mp List.mem_cons_self).2⟩

/-- An inserted timer is referred to by its heap and by the handle that is returned. -/
theorem Counted.insert (counted : store.Counted outside) (queue : Queue)
    (expiry interval : Int) (slot : Slot) :
    (store.insert queue expiry interval slot).2.Counted
        (outside + Pi.single (store.insert queue expiry interval slot).1 1) ∧
      store.refs outside (store.insert queue expiry interval slot).1 = 0 := by
  rcases counted.cells.timerAlloc queue expiry interval slot with ⟨cells, fresh⟩
  have refs : (store.timerAlloc queue expiry interval slot).2.refs
      (outside + Pi.single store.poolAlloc.1 1) =
        store.refs outside + Pi.single store.poolAlloc.1 1 := by
    rw [refs_of_heaps (heap_timerAlloc store queue expiry interval slot), refs_add_single]
  have live : 0 < (store.timerAlloc queue expiry interval slot).2.refs
      (outside + Pi.single store.poolAlloc.1 1) store.poolAlloc.1 := by
    rw [refs]
    simp
  refine ⟨⟨cells.push queue live, ?_⟩, fresh⟩
  have pushed : (store.insert queue expiry interval slot).2.refs
      (outside + Pi.single store.poolAlloc.1 1) =
        store.refs outside + Pi.single store.poolAlloc.1 1 + Pi.single store.poolAlloc.1 1 := by
    rw [← refs, ← refs_add_single]
    exact refs_setQueue fun other => count_pushed _ queue _ other
  intro other live' waiting
  have same : (store.insert queue expiry interval slot).1 = store.poolAlloc.1 := rfl
  rw [same, pushed] at live' ⊢
  by_cases equal : other = store.poolAlloc.1
  · subst equal
    simp
  · simp only [Pi.add_apply, Pi.single_eq_of_ne equal, Nat.add_zero] at live' ⊢
    refine counted.held other live' ?_
    have kept : (store.insert queue expiry interval slot).2.pending other =
        (store.timerAlloc queue expiry interval slot).2.pending other :=
      pending_addCount _ _ other 1
    rw [kept] at waiting
    simpa [pending, Store.timerAlloc, Store.setImpl, Store.setQueue, equal] using waiting

end Store

/-! ## The user's handles and the running dispatches -/

namespace Machine

open Store

variable {Queue : Type u} {Slot : Type v} [DecidableEq Queue] [Fintype Queue]
    {machine machine' : Machine Queue Slot} {memory : Ptr → Impl Queue Slot}

/-- The handles in variables and in running dispatches that refer to a timer. -/
def outside (machine : Machine Queue Slot) (impl : Ptr) : Nat :=
  machine.handles.count (some impl) + (machine.frames.map Frame.timer).count (some impl)

/-- All `Timer` values that refer to a timer. -/
def refs (machine : Machine Queue Slot) (impl : Ptr) : Nat :=
  machine.store.refs machine.outside impl

/-- Every reference count is the number of handles in and outside of the store. -/
def Counted (machine : Machine Queue Slot) : Prop :=
  machine.store.Counted machine.outside

theorem unit_apply (value : Option Ptr) (impl : Ptr) :
    unit value impl = if value = some impl then 1 else 0 := by
  cases value with
  | none => rfl
  | some other => simp [unit, Pi.single_apply, eq_comm]

omit [DecidableEq Queue] [Fintype Queue] in
/-- A handle that is overwritten gives one reference for another. -/
theorem outside_put {ref : Ref} {old : Option Ptr} (found : machine.get ref = some old)
    (value : Option Ptr) :
    (machine.put value ref).outside + unit old = machine.outside + unit value := by
  funext impl
  simp only [Pi.add_apply, unit_apply]
  cases ref with
  | var index =>
      obtain ⟨within, present⟩ := List.getElem?_eq_some_iff.mp found
      have counted : old = some impl → 0 < machine.handles.count (some impl) := by
        rintro rfl
        exact List.count_pos_iff.mpr (present ▸ List.getElem_mem within)
      simp only [put, outside, List.count_set within, present, beq_iff_eq]
      by_cases same : old = some impl
      · have := counted same
        simp only [same, if_true]
        omega
      · simp only [same, if_false]
        omega
  | arg =>
      simp only [get] at found
      cases frames : machine.frames with
      | nil =>
          rw [frames] at found
          cases found
      | cons frame rest =>
          rw [frames] at found
          cases found
          simp only [put, outside, frames, List.map_cons, List.count_cons, beq_iff_eq]
          omega

omit [DecidableEq Queue] [Fintype Queue] in
theorem outside_get_pos {ref : Ref} {impl : Ptr} (found : machine.get ref = some (some impl)) :
    0 < machine.outside impl := by
  have left := congrFun (outside_put found none) impl
  simp [unit] at left
  omega

omit [DecidableEq Queue] [Fintype Queue] in
@[simp]
theorem store_put (value : Option Ptr) (ref : Ref) :
    (machine.put value ref).store = machine.store := by
  cases ref with
  | var index => rfl
  | arg =>
      rw [put]
      split <;> rfl

theorem Counted.assign {target : Ref} {value : Option Ptr}
    (counted : machine.store.Counted (machine.outside + unit value))
    (taken : machine.assign target value = some machine') : machine'.Counted := by
  rcases Option.map_eq_some_iff.mp taken with ⟨old, found, rfl⟩
  rw [← outside_put found value] at counted
  exact counted.releaseTimer

theorem Counted.advance (counted : machine.Counted) (frame : Frame Queue) :
    (machine.advance frame).Counted := by
  have dropped : (machine.store.dropAllDead frame.queue).Counted machine.outside :=
    Store.Counted.dropDead counted
  have finished : (((machine.store.dropAllDead frame.queue).gc frame.queue).record
      (.dispatched frame.queue frame.work)).Counted machine.outside :=
    (dropped.gc frame.queue).record (by simp) (by simp)
  unfold Machine.advance
  simp only
  split
  · exact finished
  · rename_i front rest heap
    split
    · have popped := (dropped.popped heap).release
      have moved : machine.outside + Pi.single front 1 =
          Machine.outside { machine with
            frames := { frame with timer := some front } :: machine.frames } := by
        funext impl
        simp only [outside, List.map_cons, List.count_cons, Pi.add_apply, Pi.single_apply,
          beq_iff_eq, Option.some.injEq, @eq_comm _ front]
        omega
      rw [moved] at popped
      exact popped.record (by simp) (by simp)
    · exact finished

omit [DecidableEq Queue] [Fintype Queue] in
theorem outside_frames {frame : Frame Queue} {rest : List (Frame Queue)}
    (frames : machine.frames = frame :: rest) :
    machine.outside =
      Machine.outside { machine with frames := rest } + unit frame.timer := by
  funext impl
  simp only [outside, frames, List.map_cons, List.count_cons, Pi.add_apply, unit_apply,
    beq_iff_eq]
  omega

/-- What a callback leaves behind, before the loop goes on. -/
theorem Counted.left (counted : machine.Counted) {frame : Frame Queue}
    {rest : List (Frame Queue)} (frames : machine.frames = frame :: rest) :
    Machine.Counted { machine with
      store := (machine.store.expireEnd frame.queue frame.now frame.timer).releaseTimer
        frame.timer
      frames := rest } := by
  have entered := counted
  unfold Counted at entered
  rw [outside_frames frames] at entered
  exact (entered.expireEnd frame.queue frame.now).releaseTimer

/-- Every step keeps the counts. -/
theorem Counted.step {action : TimerAction Queue Slot} (counted : machine.Counted)
    (taken : machine.step action = some machine') : machine'.Counted := by
  cases action with
  | declare =>
      cases taken
      have same : Machine.outside { machine with handles := machine.handles ++ [none] } =
          machine.outside := by
        funext impl
        simp [outside, List.count_append]
      exact show Store.Counted _ _ from same ▸ counted
  | insert target queue expiry interval slot =>
      exact Counted.assign (Store.Counted.insert counted queue expiry interval slot).1 taken
  | copy target source =>
      rcases Option.bind_eq_some_iff.mp taken with ⟨value, found, taken⟩
      refine Counted.assign ?_ taken
      cases value with
      | none => exact counted
      | some impl =>
          exact Store.Counted.addRef counted
            (Nat.add_pos_right _ (outside_get_pos found))
  | move target source =>
      rcases Option.bind_eq_some_iff.mp taken with ⟨value, found, taken⟩
      refine Counted.assign ?_ taken
      rw [outside_put found none, store_put]
      exact counted
  | reset target =>
      refine Counted.assign ?_ taken
      exact counted
  | cancel target =>
      rcases Option.map_eq_some_iff.mp taken with ⟨impl, found, rfl⟩
      exact Store.Counted.cancel counted impl
  | setInterval target interval =>
      rcases Option.map_eq_some_iff.mp taken with ⟨impl, found, rfl⟩
      exact Store.Counted.setImpl counted rfl rfl
  | dispatch queue now =>
      cases taken
      exact counted.advance _
  | leave =>
      simp only [Machine.step] at taken
      split at taken
      · cases taken
      · rename_i frame rest frames
        cases taken
        exact (counted.left frames).advance _
  | unwind =>
      simp only [Machine.step] at taken
      split at taken
      · cases taken
      · rename_i frame rest frames
        cases taken
        have entered := counted
        unfold Counted at entered
        rw [outside_frames frames] at entered
        exact entered.releaseTimer

theorem initial_counted (memory : Ptr → Impl Queue Slot) : (initial memory).Counted := by
  have refs : (initial memory).store.refs (initial memory).outside = fun _ => 0 := by
    funext impl
    simp [Store.refs, heapRefs, initial, Store.initial, outside]
  have bound : (initial memory).store.slabs * slabSize = 0 := Nat.zero_mul _
  refine ⟨?_, fun impl live => ?_⟩
  · unfold Cells
    rw [refs, bound]
    exact RefCounted.empty _
  · rw [refs] at live
    exact absurd live (Nat.lt_irrefl 0)

/--
A timer counts the handles that refer to it; the pool got back exactly the
timers that no handle refers to, each once; and no timer in use is free or
handed out again.
-/
structure PoolSound (machine : Machine Queue Slot) : Prop where
  counted : ∀ impl, 0 < machine.store.log.count (.allocated impl) →
    (machine.store.impls impl).refCount = machine.refs impl
  returned : ∀ impl, machine.store.log.count (.allocated impl) =
    machine.store.log.count (.returned impl) + if 0 < machine.refs impl then 1 else 0
  allocated : ∀ impl, 0 < machine.refs impl → 0 < machine.store.log.count (.allocated impl)
  free : ∀ impl ∈ machine.store.free, machine.refs impl = 0
  nodup : machine.store.free.Nodup
  fresh : ∀ queue expiry interval slot,
    machine.refs (machine.store.insert queue expiry interval slot).1 = 0

/-- Whatever users and callbacks do, the pool is in order. -/
theorem reachable_poolSound
    (reached : Reachable step unguarded (initial memory) machine) : machine.PoolSound := by
  have counted : machine.Counted :=
    reached.invariant (initial_counted memory) fun _ _ _ before _ taken => before.step taken
  have cells := counted.cells
  exact {
    counted := cells.counted
    returned := cells.balanced
    allocated := fun impl live => cells.allocs_pos live
    free := fun impl present => ((cells.free_iff impl).mp present).2
    nodup := cells.nodup
    fresh := fun queue expiry interval slot =>
      (Store.Counted.insert counted queue expiry interval slot).2 }

def blankMemory (_ : Ptr) : Impl Bool Nat where
  tq := false
  refCount := 0
  id := 0
  expiry := 0
  interval := 0
  slot := none

/-- A timer is copied, cancelled by its own callback and dropped by it. -/
def droppedInCallback : List (TimerAction Bool Nat) :=
  [.declare, .declare, .insert (.var 0) false 1 0 7, .copy (.var 1) (.var 0),
    .dispatch false 2, .cancel .arg, .reset (.var 0), .move (.var 1) .arg, .leave,
    .reset (.var 1)]

theorem reachable_poolSound_dropped :
    ∃ machine : Machine Bool Nat,
      machine.store.log.count (.returned 0) = 1 ∧ machine.PoolSound := by
  have computed :
      (execute step unguarded (initial blankMemory) droppedInCallback).map
        (fun machine => machine.store.log.count (.returned 0)) = some 1 := by
    decide +kernel
  rcases Reachable.of_execute computed with ⟨machine, reached, once⟩
  exact ⟨machine, once, reachable_poolSound reached⟩

end Machine

end ReactiveToolbox.Io
