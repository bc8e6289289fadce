import Mathlib.Data.List.Basic
import ReactiveToolbox.Io.Timer

/-!
# Collection of cancelled timers

Entries that are not pending stay in the heap until they reach the front or
there are too many of them.  What the operations drop besides is only counts of
handles, so that one relation covers all of it: the timers that are pending, and
what they say, are the same before and after.
-/

namespace ReactiveToolbox.Io

open ReactiveToolbox.Lib

universe u v

namespace Store

variable {Queue : Type u} {Slot : Type v} {store store' middle : Store Queue Slot}
    {queue : Queue} {impl : Ptr}

/-- The number of entries of a heap that are not pending. -/
def dead (store : Store Queue Slot) (queue : Queue) : Nat :=
  (store.queues queue).heap.countP fun entry => !store.pending entry

/-- A queue as every operation leaves it: its front is pending, and it has no need to collect. -/
structure Rested (store : Store Queue Slot) (queue : Queue) : Prop where
  front : ∀ impl, store.front queue = some impl → store.pending impl
  few : (store.queues queue).cancelled ≤ ((store.queues queue).heap.length / 2 : Nat)

/-- Timers agree in all but the counts of their handles. -/
def SameTimers (store store' : Store Queue Slot) : Prop :=
  ∀ impl, store'.impls impl =
    { store.impls impl with refCount := (store'.impls impl).refCount }

namespace SameTimers

theorem refl (store : Store Queue Slot) : store.SameTimers store := fun _ => rfl

theorem trans (first : store.SameTimers middle) (second : middle.SameTimers store') :
    store.SameTimers store' := by
  intro impl
  rw [second impl, first impl]

theorem pending (same : store.SameTimers store') : store'.pending = store.pending := by
  funext impl
  rw [Store.pending, same impl, Store.pending]

theorem expiry (same : store.SameTimers store') : store'.expiry = store.expiry := by
  funext impl
  rw [Store.expiry, same impl, Store.expiry]

theorem tq (same : store.SameTimers store') (impl : Ptr) :
    (store'.impls impl).tq = (store.impls impl).tq := by
  rw [same impl]

theorem addCount (store : Store Queue Slot) (impl : Ptr) (change : Int) :
    store.SameTimers (store.addCount impl change) :=
  fun other => impls_addCount store impl other change

end SameTimers

/-- The pool has handed the timer out. -/
def Allocated (store : Store Queue Slot) (impl : Ptr) : Prop :=
  impl < store.slabs * slabSize ∧ impl ∉ store.free

/-- What collection may do to the timers and the queues. -/
structure Collects (store store' : Store Queue Slot) : Prop where
  timers : store.SameTimers store'
  allocated : ∀ impl, store'.Allocated impl → store.Allocated impl
  maxId : ∀ queue, (store'.queues queue).maxId = (store.queues queue).maxId
  heap : ∀ queue, (store'.queues queue).heap.Subperm (store.queues queue).heap
  pending : ∀ queue, ((store'.queues queue).heap.filter store.pending).Perm
    ((store.queues queue).heap.filter store.pending)
  ordered : ∀ queue, BinaryHeap.IsHeap store.expiry (store.queues queue).heap →
    BinaryHeap.IsHeap store.expiry (store'.queues queue).heap
  counter : ∀ queue,
    (store'.queues queue).cancelled - store'.dead queue =
      (store.queues queue).cancelled - store.dead queue ∨
    (store'.queues queue).cancelled = 0 ∧ store'.dead queue = 0
  rested : ∀ queue, store.Rested queue → store'.Rested queue
  log : ∃ returned, store'.log = store.log ++ returned ∧
    ∀ event ∈ returned, ∃ impl, event = .returned impl

namespace Collects

/-- Where the queues are left alone, nothing is collected. -/
theorem of_queues (timers : store.SameTimers store')
    (allocated : ∀ impl, store'.Allocated impl → store.Allocated impl)
    (queues : store'.queues = store.queues)
    (log : ∃ returned, store'.log = store.log ++ returned ∧
      ∀ event ∈ returned, ∃ impl, event = .returned impl) :
    store.Collects store' where
  timers := timers
  allocated := allocated
  maxId := by simp [queues]
  heap := by
    intro queue
    rw [queues]
  pending := by
    intro queue
    rw [queues]
  ordered := by
    intro queue ordered
    rwa [queues]
  counter := by
    intro queue
    left
    rw [dead, dead, queues, timers.pending]
  rested := by
    intro queue rested
    refine ⟨fun impl first => ?_, ?_⟩
    · rw [timers.pending]
      rw [front, queues] at first
      exact rested.front impl first
    · rw [queues]
      exact rested.few
  log := log

theorem refl (store : Store Queue Slot) : store.Collects store :=
  of_queues (SameTimers.refl store) (fun _ => id) rfl ⟨[], by simp, by simp⟩

theorem dead_le (collects : store.Collects store') (queue : Queue) :
    store'.dead queue ≤ store.dead queue := by
  rw [dead, dead, collects.timers.pending]
  exact (collects.heap queue).countP_le _

theorem trans (first : store.Collects middle) (second : middle.Collects store') :
    store.Collects store' where
  timers := first.timers.trans second.timers
  allocated := fun impl present => first.allocated impl (second.allocated impl present)
  maxId := fun queue => (second.maxId queue).trans (first.maxId queue)
  heap := fun queue => (second.heap queue).trans (first.heap queue)
  pending := by
    intro queue
    have later := second.pending queue
    rw [first.timers.pending] at later
    exact later.trans (first.pending queue)
  ordered := by
    intro queue ordered
    have later := second.ordered queue
    rw [first.timers.expiry] at later
    exact later (first.ordered queue ordered)
  counter := by
    intro queue
    rcases second.counter queue with same | none
    · rcases first.counter queue with same' | ⟨zero, empty⟩
      · exact Or.inl (same.trans same')
      · have := second.dead_le queue
        exact Or.inr ⟨by omega, by omega⟩
    · exact Or.inr none
  rested := fun queue rested => second.rested queue (first.rested queue rested)
  log := by
    rcases first.log with ⟨early, logged, returned⟩
    rcases second.log with ⟨late, logged', returned'⟩
    refine ⟨early ++ late, by rw [logged', logged, List.append_assoc], fun event present => ?_⟩
    rcases List.mem_append.mp present with before | after
    · exact returned event before
    · exact returned' event after

/-- Pending entries stay. -/
theorem mem (collects : store.Collects store')
    (waiting : store.pending impl) (present : impl ∈ (store.queues queue).heap) :
    impl ∈ (store'.queues queue).heap := by
  have kept : impl ∈ (store.queues queue).heap.filter store.pending :=
    List.mem_filter.mpr ⟨present, waiting⟩
  exact (List.mem_filter.mp ((collects.pending queue).mem_iff.mpr kept)).1

theorem addCount (store : Store Queue Slot) (impl : Ptr) (change : Int) :
    store.Collects (store.addCount impl change) :=
  of_queues (SameTimers.addCount store impl change) (fun _ => id) rfl
    ⟨[], by simp [Store.addCount, setImpl], by simp⟩

theorem dealloc (store : Store Queue Slot) (impl : Ptr) :
    store.Collects (store.dealloc impl) :=
  of_queues (SameTimers.refl _)
    (fun _ present => ⟨present.1, fun free => present.2 (List.mem_cons_of_mem _ free)⟩) rfl
    ⟨[.returned impl], rfl, by simp⟩

theorem releaseDead (store : Store Queue Slot) (impl : Ptr) :
    store.Collects (store.releaseDead impl) := by
  unfold Store.releaseDead
  split
  · exact (addCount store impl (-1)).trans (dealloc _ impl)
  · exact addCount store impl (-1)

theorem releaseAllDead (store : Store Queue Slot) (dead : List Ptr) :
    store.Collects (dead.foldl Store.releaseDead store) := by
  induction dead generalizing store with
  | nil => exact refl store
  | cons impl rest ih => exact (releaseDead store impl).trans (ih _)

end Collects

/-! ## The front of the heap -/

variable [DecidableEq Queue]

omit [DecidableEq Queue] in
theorem queues_releaseDead (store : Store Queue Slot) (impl : Ptr) :
    (store.releaseDead impl).queues = store.queues := by
  unfold releaseDead
  split <;> rfl

theorem queues_popDead (store : Store Queue Slot) (queue : Queue) (front : Ptr) :
    (store.popDead queue front).queues =
      Function.update store.queues queue
        { store.queues queue with
          heap := BinaryHeap.popHeap store.expiry (store.queues queue).heap
          cancelled := (store.queues queue).cancelled - 1 } := by
  simp only [popDead, pop, setQueue, queues_releaseDead, setHeap, addRef, Store.addCount,
    setImpl, Function.update_self, Function.update_idem]

/-- Collection in one queue, which had something to collect. -/
theorem Collects.of_queue {value : TimerQueue}
    (timers : store.SameTimers store')
    (allocated : ∀ impl, store'.Allocated impl → store.Allocated impl)
    (queues : store'.queues = Function.update store.queues queue value)
    (maxId : value.maxId = (store.queues queue).maxId)
    (heap : value.heap.Subperm (store.queues queue).heap)
    (pending : (value.heap.filter store.pending).Perm
      ((store.queues queue).heap.filter store.pending))
    (ordered : BinaryHeap.IsHeap store.expiry (store.queues queue).heap →
      BinaryHeap.IsHeap store.expiry value.heap)
    (counter :
      value.cancelled - (value.heap.countP fun entry => !store.pending entry : Nat) =
        (store.queues queue).cancelled - store.dead queue ∨
      value.cancelled = 0 ∧ (value.heap.countP fun entry => !store.pending entry) = 0)
    (unrested : ¬ store.Rested queue)
    (log : ∃ returned, store'.log = store.log ++ returned ∧
      ∀ event ∈ returned, ∃ impl, event = .returned impl) :
    store.Collects store' := by
  have own : store'.queues queue = value := by
    rw [queues, Function.update_self]
  have others : ∀ other, other ≠ queue → store'.queues other = store.queues other := by
    intro other apart
    rw [queues, Function.update_of_ne apart]
  refine ⟨timers, allocated, fun other => ?_, fun other => ?_, fun other => ?_, fun other => ?_,
    fun other => ?_, fun other rested => ?_, log⟩
  · by_cases same : other = queue
    · rw [same, own, maxId]
    · rw [others other same]
  · by_cases same : other = queue
    · rw [same, own]
      exact heap
    · rw [others other same]
  · by_cases same : other = queue
    · rw [same, own]
      exact pending
    · rw [others other same]
  · by_cases same : other = queue
    · rw [same, own]
      exact ordered
    · rw [others other same]
      exact id
  · rw [dead, timers.pending]
    by_cases same : other = queue
    · rw [same, own]
      exact counter
    · rw [others other same]
      exact Or.inl rfl
  · have same : other ≠ queue := by
      rintro rfl
      exact unrested rested
    refine ⟨fun impl first => ?_, ?_⟩
    · rw [timers.pending]
      rw [front, others other same] at first
      exact rested.front impl first
    · rw [others other same]
      exact rested.few

theorem popDead_collects {front : Ptr} {rest : List Ptr}
    (heap : (store.queues queue).heap = front :: rest) (unpending : store.pending front = false) :
    store.Collects (store.popDead queue front) := by
  let popped := (store.addRef front).setHeap queue
    (BinaryHeap.popHeap store.expiry (store.queues queue).heap)
  have added : store.SameTimers popped := SameTimers.addCount store front 1
  have released : popped.Collects ((popped.releaseDead front).releaseDead front) :=
    (Collects.releaseDead popped front).trans (Collects.releaseDead _ front)
  have left : (BinaryHeap.popHeap store.expiry (store.queues queue).heap).Perm rest := by
    rw [heap]
    exact BinaryHeap.popHeap_perm store.expiry front rest
  refine .of_queue (added.trans released.timers) released.allocated
    (queues_popDead store queue front) rfl ?_ ?_ ?_
    (Or.inl ?_) ?_ released.log
  · rw [heap] at left ⊢
    exact left.subperm.trans (List.sublist_cons_self front rest).subperm
  · have kept := left.filter store.pending
    rwa [heap, List.filter_cons_of_neg (by simp [unpending]), ← heap]
  · intro ordered
    rw [heap] at ordered ⊢
    exact ordered.popHeap
  · rw [left.countP_eq, dead, heap, List.countP_cons_of_pos (by simp [unpending])]
    push_cast
    omega
  · intro rested
    have waiting := rested.front front (by rw [Store.front, heap]; rfl)
    rw [unpending] at waiting
    cases waiting

theorem dropDead_collects (store : Store Queue Slot) (queue : Queue) (fuel : Nat) :
    store.Collects (dropDead queue fuel store) := by
  induction fuel generalizing store with
  | zero => exact Collects.refl store
  | succ fuel ih =>
      rw [dropDead]
      split
      · exact Collects.refl store
      · rename_i front rest heap
        split
        · exact Collects.refl store
        · rename_i unpending
          exact (popDead_collects heap (by simpa using unpending)).trans (ih _)

/-- The loop ends with an empty heap or a pending front. -/
theorem dropDead_front {fuel : Nat} (enough : (store.queues queue).heap.length ≤ fuel)
    (first : (dropDead queue fuel store).front queue = some impl) :
    (dropDead queue fuel store).pending impl := by
  induction fuel generalizing store with
  | zero =>
      rw [dropDead, front, List.length_eq_zero_iff.mp (Nat.le_zero.mp enough)] at first
      cases first
  | succ fuel ih =>
      cases heap : (store.queues queue).heap with
      | nil =>
          rw [dropDead, heap, front, heap] at first
          cases first
      | cons head rest =>
          rw [dropDead, heap] at first ⊢
          simp only at first ⊢
          by_cases waiting : store.pending head
          · rw [if_pos waiting] at first ⊢
            rw [front, heap] at first
            cases first
            exact waiting
          · rw [if_neg waiting] at first ⊢
            refine ih ?_ first
            rw [heap] at enough
            rw [queues_popDead, Function.update_self, heap,
              (BinaryHeap.popHeap_perm store.expiry head rest).length_eq]
            exact Nat.le_of_succ_le_succ enough

omit [DecidableEq Queue] in
/-- The entries that are kept, where there are too many that are not. -/
theorem makeHeap_pending (store : Store Queue Slot) (heap : List Ptr) (impl : Ptr)
    (present : impl ∈ BinaryHeap.makeHeap store.expiry (heap.filter store.pending)) :
    store.pending impl := by
  have kept :=
    (BinaryHeap.makeHeap_perm store.expiry (heap.filter store.pending)).mem_iff.mp present
  exact (List.mem_filter.mp kept).2

theorem gc_collects (store : Store Queue Slot) (queue : Queue) :
    store.Collects (store.gc queue) := by
  unfold gc
  split
  · rename_i many
    refine Collects.trans ?_ (Collects.releaseAllDead _ _)
    have left := BinaryHeap.makeHeap_perm store.expiry
      ((store.queues queue).heap.filter store.pending)
    refine .of_queue (SameTimers.refl _) (fun _ => id) rfl rfl ?_ ?_ (fun _ => ?_)
      (Or.inr ⟨rfl, ?_⟩) ?_
      ⟨[], by simp [setQueue], by simp⟩
    · exact left.subperm.trans List.filter_sublist.subperm
    · have kept := left.filter store.pending
      simpa only [List.filter_filter, Bool.and_self] using kept
    · exact BinaryHeap.makeHeap_isHeap _ _
    · refine List.countP_eq_zero.mpr fun impl present => ?_
      simp [makeHeap_pending store _ impl present]
    · intro rested
      have := rested.few
      omega
  · exact Collects.refl store

/-- With a pending front, collection leaves the queue at rest. -/
theorem gc_rested (first : ∀ impl, store.front queue = some impl → store.pending impl) :
    (store.gc queue).Rested queue := by
  unfold gc
  split
  · refine (Collects.releaseAllDead _ _).rested queue ⟨fun impl first => ?_, ?_⟩
    · simp only [front, setQueue, Function.update_self] at first
      exact makeHeap_pending store _ impl (List.mem_of_head? first)
    · simp only [setQueue, Function.update_self]
      omega
  · exact ⟨first, by omega⟩

/-- The loop and the collection after it. -/
theorem collect_collects (store : Store Queue Slot) (queue : Queue) :
    store.Collects ((store.dropAllDead queue).gc queue) :=
  (dropDead_collects store queue _).trans (gc_collects _ queue)

theorem collect_rested (store : Store Queue Slot) (queue : Queue) :
    ((store.dropAllDead queue).gc queue).Rested queue :=
  gc_rested fun _ first => dropDead_front (Nat.le_refl _) first

/-! ## Timers that stop pending -/

/-- A pending timer is cancelled, and nothing is collected yet. -/
def retire (store : Store Queue Slot) (impl : Ptr) : Store Queue Slot :=
  ((store.resetSlot impl).record
    (.cancelled (store.impls impl).tq (store.impls impl).id)).setQueue (store.impls impl).tq
      { store.queues (store.impls impl).tq with
        cancelled := (store.queues (store.impls impl).tq).cancelled + 1 }

theorem impls_retire_of_ne {other : Ptr} (apart : other ≠ impl) :
    (store.retire impl).impls other = store.impls other := by
  simp [retire, resetSlot, Store.record, setQueue, setImpl, apart]

theorem tq_retire (store : Store Queue Slot) (impl other : Ptr) :
    ((store.retire impl).impls other).tq = (store.impls other).tq := by
  by_cases same : other = impl
  · subst same
    simp [retire, resetSlot, Store.record, setQueue, setImpl]
  · rw [impls_retire_of_ne same]

theorem expiry_retire (store : Store Queue Slot) (impl : Ptr) :
    (store.retire impl).expiry = store.expiry := by
  funext other
  by_cases same : other = impl
  · subst same
    simp [expiry, retire, resetSlot, Store.record, setQueue, setImpl]
  · rw [expiry, impls_retire_of_ne same, expiry]

theorem pending_retire_self (store : Store Queue Slot) (impl : Ptr) :
    (store.retire impl).pending impl = false :=
  pending_resetSlot_self store impl

theorem heap_retire (store : Store Queue Slot) (impl : Ptr) (queue : Queue) :
    ((store.retire impl).queues queue).heap = (store.queues queue).heap := by
  simp only [retire, resetSlot, Store.record, setQueue, setImpl]
  by_cases same : queue = (store.impls impl).tq
  · rw [same, Function.update_self]
  · rw [Function.update_of_ne same]

theorem cancelled_retire_self (store : Store Queue Slot) (impl : Ptr) :
    ((store.retire impl).queues (store.impls impl).tq).cancelled =
      (store.queues (store.impls impl).tq).cancelled + 1 := by
  simp [retire, resetSlot, Store.record, setQueue, setImpl]

theorem queues_retire_of_ne (apart : queue ≠ (store.impls impl).tq) :
    (store.retire impl).queues queue = store.queues queue := by
  simp [retire, resetSlot, Store.record, setQueue, setImpl, apart]

theorem cancel_effect (waiting : store.pending impl) :
    (store.retire impl).Collects (store.cancel impl) ∧
      (store.cancel impl).Rested (store.impls impl).tq := by
  rw [cancel, if_pos waiting]
  exact ⟨collect_collects _ _, collect_rested _ _⟩

theorem retire_addCount (store : Store Queue Slot) (impl : Ptr) (change : Int) :
    (store.retire impl).Collects ((store.addCount impl change).retire impl) := by
  have same := impls_addCount store impl impl change
  refine Collects.of_queues (fun other => ?_) (fun _ => id) ?_ ⟨[], ?_, by simp⟩
  · by_cases equal : other = impl
    · subst equal
      simp [retire, resetSlot, Store.record, setQueue, setImpl, Store.addCount]
    · simp [retire, resetSlot, Store.record, setQueue, setImpl, Store.addCount, equal]
  · simp [retire, resetSlot, Store.record, setQueue, setImpl, Store.addCount]
  · simp [retire, resetSlot, Store.record, setQueue, setImpl, Store.addCount]

/-- Whether the release of a handle leaves a pending timer to its heap alone. -/
def lastHandle (store : Store Queue Slot) (impl : Ptr) : Bool :=
  store.pending impl && decide ((store.impls impl).refCount = 2)

omit [DecidableEq Queue] in
theorem lastHandle_iff :
    store.lastHandle impl ↔ store.pending impl ∧ (store.impls impl).refCount = 2 := by
  rw [lastHandle, Bool.and_eq_true, decide_eq_true_eq]

theorem release_effect_last (last : store.lastHandle impl) :
    (store.retire impl).Collects (store.release impl) ∧
      (store.release impl).Rested (store.impls impl).tq := by
  rw [lastHandle_iff] at last
  have one : ((store.addCount impl (-1)).impls impl).refCount = 1 := by
    simp [Store.addCount, setImpl, last.2]
  have waiting : (store.addCount impl (-1)).pending impl := by
    rw [pending_addCount]
    exact last.1
  have tq : ((store.addCount impl (-1)).impls impl).tq = (store.impls impl).tq :=
    (SameTimers.addCount store impl (-1)).tq impl
  rw [release, if_pos one, ← tq]
  rcases cancel_effect waiting with ⟨collects, rested⟩
  exact ⟨(retire_addCount store impl (-1)).trans collects, rested⟩

theorem release_collects (others : store.lastHandle impl = false) :
    store.Collects (store.release impl) := by
  have dropped := Collects.addCount store impl (-1)
  unfold release
  split
  · rename_i one
    have unpending : (store.addCount impl (-1)).pending impl = false := by
      have two : (store.impls impl).refCount = 2 := by
        simp only [Store.addCount, setImpl, Function.update_self] at one
        omega
      rw [pending_addCount]
      simpa [lastHandle, two] using others
    rw [cancel, if_neg (by simp [unpending])]
    exact dropped
  · split
    · exact dropped.trans (Collects.dealloc _ impl)
    · exact dropped

end Store

end ReactiveToolbox.Io
