import Mathlib.Data.List.ReduceOption
import Mathlib.Order.RelIso.Basic
import ReactiveToolbox.Io.Reactor
import ReactiveToolbox.Io.TimerProgress

/-!
# The identity of timers

Timers are compared by their numbers.  Each queue has a counter of its own, and
a reactor has two queues, so that a number is only as good as the queue that gave
it.  Handles tell timers apart for as long as no timer is inserted with the
number of a live one.
-/

namespace ReactiveToolbox.Io

open ReactiveToolbox.Lib

universe u v

namespace Store

variable {Queue : Type u} {Slot : Type v} {store store' middle : Store Queue Slot}
    {impl other : Ptr} {queue : Queue} {held : Ptr → Prop}

/-- `Timer::id`. -/
def timerId (store : Store Queue Slot) : Option Ptr → Int
  | some impl => (store.impls impl).id
  | none => 0

/-- `operator==`. -/
def timerEq (store : Store Queue Slot) (lhs rhs : Option Ptr) : Bool :=
  store.timerId lhs = store.timerId rhs

/-- `operator<`. -/
def timerLess (store : Store Queue Slot) (lhs rhs : Option Ptr) : Bool :=
  store.timerId lhs < store.timerId rhs

/-! ## The timers that wait -/

/-- Timers keep their numbers, and those that wait did so before, or else are held. -/
structure Keeps (held : Ptr → Prop) (store store' : Store Queue Slot) : Prop where
  id : store'.id = store.id
  waits : ∀ impl, (∃ queue, store'.Waits queue impl) →
    (∃ queue, store.Waits queue impl) ∨ held impl

namespace Keeps

theorem refl (held : Ptr → Prop) (store : Store Queue Slot) : Keeps held store store :=
  ⟨rfl, fun _ => Or.inl⟩

theorem trans (first : Keeps held store middle) (second : Keeps held middle store') :
    Keeps held store store' where
  id := second.id.trans first.id
  waits := fun impl waits => (second.waits impl waits).elim (first.waits impl) Or.inr

/-- Where no timer starts to pend, and none comes to a heap that is not held. -/
theorem of_subset (id : store'.id = store.id)
    (pending : ∀ impl, store'.pending impl → store.pending impl)
    (heap : ∀ queue, ∀ impl ∈ (store'.queues queue).heap,
      impl ∈ (store.queues queue).heap ∨ held impl) :
    Keeps held store store' where
  id := id
  waits := by
    rintro impl ⟨queue, present, waiting⟩
    rcases heap queue impl present with before | new
    · exact Or.inl ⟨queue, before, pending impl waiting⟩
    · exact Or.inr new

theorem of_collects (collected : store.Collects store') : Keeps held store store' := by
  refine of_subset collected.timers.id (fun impl waiting => ?_) fun queue impl present => ?_
  · rwa [collected.timers.pending] at waiting
  · exact Or.inl ((collected.heap queue).subset present)

theorem resetSlot (store : Store Queue Slot) (impl : Ptr) :
    Keeps held store (store.resetSlot impl) :=
  of_subset (id_resetSlot store impl) (fun _ => pending_of_resetSlot) fun _ _ => Or.inl

theorem setInterval (store : Store Queue Slot) (impl : Ptr) (interval : Int) :
    Keeps held store (store.setInterval impl interval) := by
  refine of_subset (id_setInterval store impl interval) (fun other waiting => ?_) fun _ _ => Or.inl
  rwa [pending_setInterval] at waiting

theorem setExpiry (store : Store Queue Slot) (impl : Ptr) (expiry : Int) :
    Keeps held store (store.setExpiry impl expiry) := by
  refine of_subset (id_setExpiry store impl expiry) (fun other waiting => ?_) fun _ _ => Or.inl
  by_cases same : other = impl
  · subst same
    simpa [pending, Store.setExpiry, setImpl] using waiting
  · simpa [pending, Store.setExpiry, setImpl, same] using waiting

theorem record (store : Store Queue Slot) (event : TimerEvent Queue) :
    Keeps held store (store.record event) :=
  of_subset rfl (fun _ waiting => waiting) fun _ _ => Or.inl

variable [DecidableEq Queue]

theorem setHeap {heap : List Ptr} (store : Store Queue Slot)
    (old : ∀ impl ∈ heap, impl ∈ (store.queues queue).heap ∨ held impl) :
    Keeps held store (store.setHeap queue heap) := by
  refine of_subset rfl (fun _ waiting => waiting) fun home impl present => ?_
  by_cases same : home = queue
  · subst same
    rw [queues_setHeap_self] at present
    exact old impl present
  · rw [queues_setHeap_of_ne store same] at present
    exact Or.inl present

theorem retire (store : Store Queue Slot) (impl : Ptr) :
    Keeps held store (store.retire impl) := by
  refine of_subset (id_retire store impl) (fun _ => pending_of_resetSlot)
    fun queue other present => Or.inl ?_
  rwa [heap_retire] at present

/-! ## The operations of a queue -/

theorem cancel (store : Store Queue Slot) (impl : Ptr) : Keeps held store (store.cancel impl) := by
  by_cases waiting : store.pending impl
  · exact (retire store impl).trans (of_collects (cancel_effect waiting).1)
  · rw [Store.cancel, if_neg waiting]
    exact refl held store

theorem release (store : Store Queue Slot) (impl : Ptr) :
    Keeps held store (store.release impl) := by
  cases last : store.lastHandle impl with
  | true => exact (retire store impl).trans (of_collects (release_effect_last last).1)
  | false => exact of_collects (release_collects last)

theorem releaseTimer (store : Store Queue Slot) (timer : Option Ptr) :
    Keeps held store (store.releaseTimer timer) := by
  cases timer with
  | none => exact refl held store
  | some impl => exact release store impl

theorem push (store : Store Queue Slot) (queue : Queue) (holds : held impl) :
    Keeps held store (store.push queue impl) := by
  have pushed := BinaryHeap.pushHeap_perm store.expiry (store.queues queue).heap impl
  refine Keeps.trans ?_ (of_collects (push_collects store queue impl))
  refine setHeap store fun other present => ?_
  rcases List.mem_cons.mp (pushed.mem_iff.mp present) with rfl | old
  · exact Or.inr holds
  · exact Or.inl old

/-- The front is taken out of the heap. -/
theorem pop (store : Store Queue Slot) {front : Ptr} {rest : List Ptr}
    (heap : (store.queues queue).heap = front :: rest) :
    Keeps held store (Store.pop Store.release store queue front) := by
  have popped := BinaryHeap.popHeap_perm store.expiry front rest
  have added : Keeps held store (store.addRef front) := of_collects (.addCount store front 1)
  refine (added.trans (setHeap _ fun impl present => Or.inl ?_)).trans (release _ front)
  rw [heap] at present
  exact show impl ∈ (store.queues queue).heap from
    heap ▸ List.mem_cons_of_mem _ (popped.mem_iff.mp present)

/-- The end of `expire` may put the timer back that its handle refers to. -/
theorem expireEnd (store : Store Queue Slot) (queue : Queue) (now : Int) {timer : Option Ptr}
    (holds : ∀ impl, timer = some impl → held impl) :
    Keeps held store (store.expireEnd queue now timer) := by
  cases timer with
  | none => exact refl held store
  | some impl =>
      rw [Store.expireEnd]
      split
      · split
        · exact (setExpiry store impl _).trans (push _ queue (holds impl rfl))
        · exact resetSlot store impl
      · exact refl held store

end Keeps

section Insert

variable [DecidableEq Queue] (store : Store Queue Slot) (queue : Queue) (expiry interval : Int)
    (slot : Slot)

theorem waits_insert_self :
    (store.insert queue expiry interval slot).2.Waits queue store.poolAlloc.1 := by
  refine ⟨(mem_heap_insert store queue expiry interval slot).mpr (Or.inl ⟨rfl, rfl⟩), ?_⟩
  rw [pending, impls_insert_self]
  rfl

theorem waits_of_insert {home : Queue} (apart : impl ≠ store.poolAlloc.1)
    (waits : (store.insert queue expiry interval slot).2.Waits home impl) :
    store.Waits home impl := by
  rcases waits with ⟨present, waiting⟩
  have old := (mem_heap_insert store queue expiry interval slot).mp present
  refine ⟨old.resolve_left fun own => apart own.2, ?_⟩
  rwa [pending, impls_insert_of_ne store queue expiry interval slot apart] at waiting

end Insert

end Store

/-! ## The timers in play -/

namespace Machine

open Store

variable {Queue : Type u} {Slot : Type v} {machine machine' middle before : Machine Queue Slot}
    {impl : Ptr}

/-- A handle outside the heaps refers to the timer, or it pends in a heap. -/
def InPlay (machine : Machine Queue Slot) (impl : Ptr) : Prop :=
  0 < machine.outside impl ∨ ∃ queue, machine.store.Waits queue impl

/-- Timers keep their numbers, and none comes into play. -/
structure Keeps (machine machine' : Machine Queue Slot) : Prop where
  id : machine'.store.id = machine.store.id
  inPlay : ∀ impl, machine'.InPlay impl → machine.InPlay impl

theorem Keeps.trans (first : machine.Keeps middle) (second : middle.Keeps machine') :
    machine.Keeps machine' where
  id := second.id.trans first.id
  inPlay := fun impl inPlay => first.inPlay impl (second.inPlay impl inPlay)

theorem Keeps.of_store (store : Store.Keeps before.InPlay before.store machine.store)
    (outside : ∀ impl, 0 < machine.outside impl → before.InPlay impl) :
    before.Keeps machine where
  id := store.id
  inPlay := by
    rintro impl (referred | waits)
    · exact outside impl referred
    · exact (store.waits impl waits).elim Or.inr fun inPlay => inPlay

variable [DecidableEq Queue]

/-- A handle is overwritten with one that was in play. -/
theorem Keeps.assign {target : Ref} {value : Option Ptr}
    (store : Store.Keeps before.InPlay before.store machine.store)
    (outside : ∀ impl, 0 < (machine.outside + unit value) impl → before.InPlay impl)
    (taken : machine.assign target value = some machine') : before.Keeps machine' := by
  rcases Option.map_eq_some_iff.mp taken with ⟨old, found, rfl⟩
  refine .of_store (store.trans (.releaseTimer machine.store old)) fun impl referred => ?_
  have moved := congrFun (outside_put found value) impl
  have referred : 0 < (machine.put value target).outside impl := referred
  refine outside impl ?_
  rw [← moved]
  exact Nat.add_pos_left referred _

/-- The loop of a dispatch takes nothing out of a heap but what waits in it. -/
theorem Keeps.advance (machine : Machine Queue Slot) (frame : Frame Queue) :
    machine.Keeps (machine.advance frame) := by
  have dropped : Store.Keeps machine.InPlay machine.store
      (machine.store.dropAllDead frame.queue) := .of_collects (dropDead_collects _ _ _)
  have finished : machine.Keeps { machine with
      store := ((machine.store.dropAllDead frame.queue).gc frame.queue).record
        (.dispatched frame.queue frame.work) } :=
    .of_store ((dropped.trans (.of_collects (gc_collects _ _))).trans (.record _ _))
      fun _ => Or.inl
  unfold Machine.advance
  simp only
  split
  · exact finished
  · rename_i front rest heap
    split
    · refine .of_store ((dropped.trans (.pop _ heap)).trans (.record _ _)) fun impl referred => ?_
      by_cases same : front = impl
      · subst same
        have isFront : (machine.store.dropAllDead frame.queue).front frame.queue =
            some front := by
          rw [Store.front, heap]
          rfl
        have waits : (machine.store.dropAllDead frame.queue).Waits frame.queue front :=
          ⟨heap ▸ List.mem_cons_self, dropDead_front (Nat.le_refl _) isFront⟩
        exact (dropped.waits front ⟨_, waits⟩).elim Or.inr fun inPlay => inPlay
      · left
        simpa [Machine.outside, same] using referred
    · exact finished

/-- The timer that comes into play when one is inserted. -/
theorem inserted_inPlay {target : Ref} {queue : Queue} {expiry interval : Int} {slot : Slot}
    (taken : machine.step (.insert target queue expiry interval slot) = some machine')
    (inPlay : machine'.InPlay impl) :
    machine.InPlay impl ∧ machine'.store.id impl = machine.store.id impl ∨
      impl = machine.store.poolAlloc.1 ∧
        machine'.store.id impl = (machine.store.queues queue).maxId + 1 := by
  -- The new timer waits in its heap, so that the handle which is assigned brings nothing new.
  have kept : (machine.setStore (machine.store.insert queue expiry interval slot).2).Keeps
      machine' := by
    refine .assign (.refl _ _) (fun other referred => ?_) taken
    by_cases new : other = machine.store.poolAlloc.1
    · subst new
      exact Or.inr ⟨queue, waits_insert_self machine.store queue expiry interval slot⟩
    · left
      have same : (machine.store.insert queue expiry interval slot).1 =
          machine.store.poolAlloc.1 := rfl
      simpa [same, unit, new] using referred
  rw [kept.id]
  by_cases new : impl = machine.store.poolAlloc.1
  · right
    subst new
    exact ⟨rfl, id_insert_self machine.store queue expiry interval slot⟩
  · left
    refine ⟨?_, id_insert_of_ne machine.store queue expiry interval slot new⟩
    rcases kept.inPlay impl inPlay with referred | ⟨home, waits⟩
    · exact Or.inl referred
    · exact Or.inr ⟨home, waits_of_insert machine.store queue expiry interval slot new waits⟩

/-- Nothing but an insertion brings timers into play. -/
theorem Keeps.step {action : TimerAction Queue Slot}
    (old : ∀ target queue expiry interval slot,
      action ≠ .insert target queue expiry interval slot)
    (taken : machine.step action = some machine') : machine.Keeps machine' := by
  cases action with
  | declare =>
      cases taken
      refine .of_store (.refl _ _) fun impl referred => Or.inl ?_
      simpa [Machine.outside, List.count_append] using referred
  | insert target queue expiry interval slot => exact absurd rfl (old _ _ _ _ _)
  | copy target source =>
      rcases Option.bind_eq_some_iff.mp taken with ⟨value, found, taken⟩
      cases value with
      | none => exact .assign (.refl _ _) (fun _ => Or.inl) taken
      | some impl =>
          refine .assign (.of_collects (.addCount machine.store impl 1)) (fun other referred => ?_)
            taken
          left
          have referred : 0 < (machine.outside + unit (some impl)) other := referred
          by_cases same : other = impl
          · rw [same]
            exact outside_get_pos found
          · simpa [unit, same] using referred
  | move target source =>
      rcases Option.bind_eq_some_iff.mp taken with ⟨value, found, taken⟩
      refine .assign ?_ ?_ taken
      · rw [store_put]
        exact .refl _ _
      · rw [outside_put found none]
        exact fun _ => Or.inl
  | reset target => exact .assign (.refl _ _) (fun _ => Or.inl) taken
  | cancel target =>
      rcases Option.map_eq_some_iff.mp taken with ⟨impl, found, rfl⟩
      exact .of_store (.cancel machine.store impl) fun _ => Or.inl
  | setInterval target interval =>
      rcases Option.map_eq_some_iff.mp taken with ⟨impl, found, rfl⟩
      exact .of_store (.setInterval machine.store impl interval) fun _ => Or.inl
  | dispatch queue now =>
      cases taken
      exact .advance machine _
  | leave =>
      simp only [Machine.step] at taken
      split at taken
      · cases taken
      · rename_i frame rest frames
        cases taken
        refine Keeps.trans (.of_store ?_ fun impl referred => ?_) (.advance _ _)
        · refine (Store.Keeps.expireEnd _ _ _ fun impl held => Or.inl ?_).trans (.releaseTimer _ _)
          have found : machine.get .arg = some (some impl) := by simp [get, frames, held]
          exact outside_get_pos found
        · left
          rw [outside_frames frames]
          exact Nat.add_pos_left referred _
  | unwind =>
      simp only [Machine.step] at taken
      split at taken
      · cases taken
      · rename_i frame rest frames
        cases taken
        refine .of_store (.releaseTimer _ _) fun impl referred => Or.inl ?_
        rw [outside_frames frames]
        exact Nat.add_pos_left referred _

/-- Timers in play have numbers of their own. -/
def Distinct (machine : Machine Queue Slot) : Prop :=
  ∀ lhs rhs, machine.InPlay lhs → machine.InPlay rhs →
    machine.store.id lhs = machine.store.id rhs → lhs = rhs

omit [DecidableEq Queue] in
theorem Distinct.keeps (distinct : machine.Distinct) (kept : machine.Keeps machine') :
    machine'.Distinct := by
  intro lhs rhs left right same
  rw [kept.id] at same
  exact distinct lhs rhs (kept.inPlay lhs left) (kept.inPlay rhs right) same

/-- A timer is inserted with a number that none in play has. -/
theorem Distinct.insert {target : Ref} {queue : Queue} {expiry interval : Int} {slot : Slot}
    (distinct : machine.Distinct)
    (unused : ∀ impl, machine.InPlay impl →
      machine.store.id impl ≠ (machine.store.queues queue).maxId + 1)
    (taken : machine.step (.insert target queue expiry interval slot) = some machine') :
    machine'.Distinct := by
  intro lhs rhs left right same
  rcases inserted_inPlay taken left with ⟨left, kept⟩ | ⟨new, number⟩
  · rcases inserted_inPlay taken right with ⟨right, kept'⟩ | ⟨-, number'⟩
    · exact distinct lhs rhs left right (by rw [← kept, ← kept', same])
    · exact absurd (by rw [← kept, same, number']) (unused lhs left)
  · rcases inserted_inPlay taken right with ⟨right, kept'⟩ | ⟨new', -⟩
    · exact absurd (by rw [← kept', ← same, number]) (unused rhs right)
    · rw [new, new']

end Machine

/-! ## The timers of a reactor -/

namespace Reactor

open Store

variable {Slot : Type v} {reactor reactor' : Reactor Slot} {memory : Ptr → Impl Priority Slot}

/-- The timers that a handle outside the heaps refers to, and those that pend in a heap. -/
def live (reactor : Reactor Slot) : List Ptr :=
  (reactor.timers.handles ++ reactor.timers.frames.map Frame.timer).reduceOption ++
    [Priority.high, Priority.low].flatMap fun priority =>
      (reactor.timers.store.queues priority).heap.filter reactor.timers.store.pending

theorem mem_live {impl : Ptr} : impl ∈ reactor.live ↔ reactor.timers.InPlay impl := by
  have waits : (∃ priority ∈ [Priority.high, Priority.low],
      impl ∈ (reactor.timers.store.queues priority).heap ∧
        reactor.timers.store.pending impl = true) ↔
      ∃ priority, reactor.timers.store.Waits priority impl :=
    exists_congr fun priority => and_iff_right priority.mem_all
  simp only [live, List.mem_append, List.reduceOption_mem_iff, List.mem_flatMap, List.mem_filter,
    waits, Machine.InPlay, Machine.outside, Nat.add_pos_iff_pos_or_pos, List.count_pos_iff]

/-- Live timers are equal when they are the same, and are totally ordered. -/
structure Identified (reactor : Reactor Slot) : Prop where
  equal : ∀ lhs ∈ reactor.live, ∀ rhs ∈ reactor.live,
    (reactor.timers.store.timerEq (some lhs) (some rhs) ↔ lhs = rhs)
  ordered : IsStrictTotalOrder { impl // impl ∈ reactor.live } fun lhs rhs =>
    reactor.timers.store.timerLess (some lhs.1) (some rhs.1)

theorem identified (distinct : reactor.timers.Distinct) : reactor.Identified := by
  have equal : ∀ lhs ∈ reactor.live, ∀ rhs ∈ reactor.live,
      (reactor.timers.store.timerEq (some lhs) (some rhs) ↔ lhs = rhs) := by
    intro lhs left rhs right
    rw [timerEq, decide_eq_true_eq]
    constructor
    · exact distinct lhs rhs (mem_live.mp left) (mem_live.mp right)
    · rintro rfl
      rfl
  -- The numbers embed the live timers into the integers.
  let number : { impl // impl ∈ reactor.live } ↪ Int :=
    ⟨fun impl => reactor.timers.store.id impl.1, fun lhs rhs same =>
      Subtype.ext (distinct _ _ (mem_live.mp lhs.2) (mem_live.mp rhs.2) same)⟩
  have embedding : (fun lhs rhs : { impl // impl ∈ reactor.live } =>
      reactor.timers.store.timerLess (some lhs.1) (some rhs.1) = true) ↪r
        ((· < ·) : Int → Int → Prop) := ⟨number, decide_eq_true_iff.symm⟩
  exact ⟨equal, embedding.isStrictTotalOrder⟩

/-- No live timer has the number that the queue gives next. -/
def Unused (reactor : Reactor Slot) : ReactorAction Slot → Prop
  | .timer (.insert _ priority _ _ _) =>
      ∀ impl ∈ reactor.live, reactor.timers.store.id impl ≠
        (reactor.timers.store.queues priority).maxId + 1
  | _ => True

instance (reactor : Reactor Slot) (action : ReactorAction Slot) :
    Decidable (reactor.Unused action) :=
  match action with
  | .timer (.insert _ priority _ _ _) =>
      inferInstanceAs (Decidable (∀ impl ∈ reactor.live, reactor.timers.store.id impl ≠
        (reactor.timers.store.queues priority).maxId + 1))
  | .timer .declare | .timer (.copy _ _) | .timer (.move _ _) | .timer (.reset _)
  | .timer (.cancel _) | .timer (.setInterval _ _) | .timer (.dispatch _ _) | .timer .leave
  | .timer .unwind | .linkHook | .unlinkHook => instDecidableTrue

/-- The handle that `timer` returns equals a live one only if they refer to the same timer. -/
def ToldApart (reactor : Reactor Slot) (priority : Priority) (expiry interval : Int)
    (slot : Slot) : Prop :=
  ∀ impl ∈ reactor.live,
    ((reactor.timers.store.insert priority expiry interval slot).2.timerEq
        (some (reactor.timers.store.insert priority expiry interval slot).1) (some impl) ↔
      (reactor.timers.store.insert priority expiry interval slot).1 = impl)

theorem counted_step {action : ReactorAction Slot} (counted : reactor.timers.Counted)
    (taken : reactor.step action = some reactor') : reactor'.timers.Counted := by
  cases action with
  | timer action =>
      rcases Option.map_eq_some_iff.mp taken with ⟨timers, moved, rfl⟩
      exact counted.step moved
  | linkHook =>
      cases taken
      exact counted
  | unlinkHook =>
      cases taken
      exact counted

theorem distinct_step {action : ReactorAction Slot} (distinct : reactor.timers.Distinct)
    (unused : reactor.Unused action) (taken : reactor.step action = some reactor') :
    reactor'.timers.Distinct := by
  cases action with
  | timer action =>
      rcases Option.map_eq_some_iff.mp taken with ⟨timers, moved, rfl⟩
      cases action with
      | insert target priority expiry interval slot =>
          exact distinct.insert (fun impl inPlay => unused impl (mem_live.mpr inPlay)) moved
      | _ => exact distinct.keeps (.step (by simp) moved)
  | linkHook =>
      cases taken
      exact distinct
  | unlinkHook =>
      cases taken
      exact distinct

theorem initial_distinct (memory : Ptr → Impl Priority Slot) :
    (initial memory).timers.Distinct := by
  rintro lhs rhs (referred | ⟨queue, present, -⟩)
  · cases referred
  · cases present

/-- The pool hands out a timer that is not live. -/
theorem fresh_not_live (counted : reactor.timers.Counted) (priority : Priority)
    (expiry interval : Int) (slot : Slot) :
    (reactor.timers.store.insert priority expiry interval slot).1 ∉ reactor.live := by
  have fresh := (Store.Counted.insert counted priority expiry interval slot).2
  intro present
  rcases mem_live.mp present with referred | ⟨queue, waiting, -⟩
  · exact absurd fresh (Nat.ne_of_gt (Nat.add_pos_right _ referred))
  · exact absurd fresh (Nat.ne_of_gt (refs_pos_of_mem waiting))

/-- Where its number is not the next, a live timer is not taken for the one that is inserted. -/
theorem unused_iff_toldApart (counted : reactor.timers.Counted) (target : Ref)
    (priority : Priority) (expiry interval : Int) (slot : Slot) :
    reactor.Unused (.timer (.insert target priority expiry interval slot)) ↔
      reactor.ToldApart priority expiry interval slot := by
  refine forall₂_congr fun impl present => ?_
  have apart : impl ≠ reactor.timers.store.poolAlloc.1 := by
    rintro rfl
    exact fresh_not_live counted priority expiry interval slot present
  have same : (reactor.timers.store.insert priority expiry interval slot).1 =
      reactor.timers.store.poolAlloc.1 := rfl
  have own := id_insert_self reactor.timers.store priority expiry interval slot
  have other := id_insert_of_ne reactor.timers.store priority expiry interval slot apart
  rw [Store.id] at own other
  rw [same, timerEq, decide_eq_true_eq, timerId, timerId, own, other, iff_false_right apart.symm,
    ne_comm]

/-- Live timers have an identity as long as their numbers are not given again. -/
theorem reachable_identified (reached : Reachable step Unused (initial memory) reactor) :
    reactor.Identified ∧ ∀ target priority expiry interval slot,
      (reactor.Unused (.timer (.insert target priority expiry interval slot)) ↔
        reactor.ToldApart priority expiry interval slot) := by
  let sound (reactor : Reactor Slot) : Prop :=
    reactor.timers.Counted ∧ reactor.timers.Distinct
  have initially : sound (initial memory) :=
    ⟨Machine.initial_counted memory, initial_distinct memory⟩
  have holds : sound reactor := reached.invariant initially fun _ _ _ before unused taken =>
    ⟨counted_step before.1 taken, distinct_step before.2 unused taken⟩
  exact ⟨identified holds.2, unused_iff_toldApart holds.1⟩

/-- A high timer is dropped before a low one gets its number. -/
def numberedAgain : List (ReactorAction Nat) :=
  [.timer .declare, .timer .declare, .timer (.insert (.var 0) .high 10 0 1),
    .timer (.insert (.var 1) .high 20 0 1), .timer (.reset (.var 0)),
    .timer (.insert (.var 0) .low 30 0 1)]

theorem reachable_identified_again :
    ∃ reactor : Reactor Nat, reactor.live.length = 4 ∧ reactor.Identified := by
  have computed :
      (execute step Unused (initial blank) numberedAgain).map
        (fun reactor => reactor.live.length) = some 4 := by
    decide +kernel
  rcases Reachable.of_execute computed with ⟨reactor, reached, observed⟩
  exact ⟨reactor, observed, (reachable_identified reached).1⟩

/-- A timer of each priority, the first of its queue. -/
def firstOfEach : List (ReactorAction Nat) :=
  [.timer .declare, .timer .declare, .timer (.insert (.var 0) .high 10 0 1),
    .timer (.insert (.var 1) .low 20 0 1)]

theorem not_identified_first :
    ¬ ∀ reactor : Reactor Nat, Reachable step unguarded (initial blank) reactor →
      reactor.Identified := by
  intro always
  have computed :
      (execute step unguarded (initial blank) firstOfEach).map
        (fun reactor => (reactor.live, reactor.timers.store.timerEq (some 0) (some 509))) =
          some ([0, 509, 0, 509], true) := by
    decide +kernel
  rcases Reachable.of_execute computed with ⟨reactor, reached, observed⟩
  obtain ⟨live, equal⟩ := by simpa only [Prod.mk.injEq] using observed
  have same := ((always reactor reached).equal 0 (by simp [live]) 509 (by simp [live])).mp equal
  cases same

end Reactor

end ReactiveToolbox.Io
