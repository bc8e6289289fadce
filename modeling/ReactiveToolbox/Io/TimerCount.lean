import ReactiveToolbox.Io.TimerQueues

/-!
# Whether the counter of cancelled timers is exact

`TimerQueue::cancel` counts every timer that is cancelled, but the timer whose
callback is running has been popped.  Where each timer that is cancelled is
found in its heap, the counter says how many entries are not pending.
-/

namespace ReactiveToolbox.Io

open ReactiveToolbox.Lib

universe u v

variable {Queue : Type u} {Slot : Type v} [DecidableEq Queue]

/-- The timer that an action may cancel is in its heap until it is cancelled. -/
theorem inHeap_effect {action : TimerAction Queue Slot} {impl : Ptr} {view view' : View Queue Slot}
    (effect : Effect action (some impl) view view')
    (inHeap : view.1.pending impl →
      impl ∈ (view.1.queues (view.1.impls impl).tq).heap) :
    view'.1.pending impl → impl ∈ (view'.1.queues (view'.1.impls impl).tq).heap := by
  cases effect with
  | collects collected =>
      intro waiting
      rw [collected.timers.pending] at waiting
      rw [collected.timers.tq]
      exact collected.mem waiting (inHeap waiting)
  | @cancels store store' frames cancelled choice alive waiting collected rested =>
      cases choice
      intro waiting'
      rw [collected.timers.pending, Store.pending_retire_self] at waiting'
      cases waiting'
  | setsInterval other interval asked =>
      intro waiting
      rw [Store.pending_setInterval] at waiting
      rw [Store.tq_setInterval]
      exact inHeap waiting
  | @inserts store frames queue expiry interval slot target asked fresh unheld =>
      intro waiting
      have present {home : Queue} : impl ∈ ((store.insert queue expiry interval slot).2.queues
          home).heap ↔ _ := Store.mem_heap_insert store queue expiry interval slot
      rw [present]
      by_cases same : impl = store.poolAlloc.1
      · left
        subst same
        exact ⟨by rw [Store.impls_insert_self], rfl⟩
      · right
        rw [Store.pending, Store.impls_insert_of_ne _ _ _ _ _ same] at waiting
        rw [Store.impls_insert_of_ne _ _ _ _ _ same]
        exact inHeap waiting
  | forgets frame asked => exact inHeap
  | enters queue now asked => exact inHeap
  | starts choice => cases choice
  | finishes choice => cases choice
  | reschedules asked choice => cases choice
  | expires asked choice => cases choice
  | ends asked choice => cases choice
  | forgot asked idle => exact inHeap

namespace Machine

variable [Fintype Queue] {machine machine' : Machine Queue Slot}
    {memory : Ptr → Impl Queue Slot}

/--
The counter of a queue that is not dispatching is the number of its entries that
are not pending, and its size the number of those that are.
-/
def CountsCancelled (machine : Machine Queue Slot) : Prop :=
  ∀ queue, (∀ frame ∈ machine.frames, frame.queue ≠ queue) →
    (machine.store.queues queue).cancelled = machine.store.dead queue ∧
      machine.store.size queue =
        ((machine.store.queues queue).heap.countP machine.store.pending : Nat)

/-- The timer that the action cancels, if any, is in the heap of its queue. -/
def CancelsInHeap (machine : Machine Queue Slot) (action : TimerAction Queue Slot) : Prop :=
  ∀ impl, machine.cancelledBy action = some impl →
    impl ∈ (machine.store.queues (machine.store.impls impl).tq).heap

/-- Plain actions that cancel no timer that is out of its heap. -/
def Counting (machine : Machine Queue Slot) (action : TimerAction Queue Slot) : Prop :=
  action.Plain ∧ machine.CancelsInHeap action

instance (machine : Machine Queue Slot) (action : TimerAction Queue Slot) :
    Decidable (machine.CancelsInHeap action) :=
  inferInstanceAs (Decidable (∀ impl ∈ machine.cancelledBy action,
    impl ∈ (machine.store.queues (machine.store.impls impl).tq).heap))

instance (machine : Machine Queue Slot) (action : TimerAction Queue Slot) :
    Decidable (machine.Counting action) :=
  inferInstanceAs (Decidable (_ ∧ _))

omit [Fintype Queue] in
/-- The effects of such an action keep the counter exact. -/
theorem exact_effects {action : TimerAction Queue Slot} {chosen : Option Ptr}
    {view view' : View Queue Slot}
    (arranged : Arranged view.1 view.2)
    (inHeap : ∀ impl, chosen = some impl → view.1.pending impl →
      impl ∈ (view.1.queues (view.1.impls impl).tq).heap)
    (exact : ∀ queue, view.1.slack queue = 0)
    (effects : Effects action chosen view view') :
    ∀ queue, view'.1.slack queue = 0 := by
  have all : Arranged view'.1 view'.2 ∧
      (∀ impl, chosen = some impl → view'.1.pending impl →
        impl ∈ (view'.1.queues (view'.1.impls impl).tq).heap) ∧
      ∀ queue, view'.1.slack queue = 0 := by
    induction effects with
    | refl => exact ⟨arranged, inHeap, exact⟩
    | tail _ effect ih =>
        rcases ih with ⟨arranged, inHeap, exact⟩
        refine ⟨arranged.effect effect, fun impl choice => ?_, fun queue => ?_⟩
        · subst choice
          exact inHeap_effect effect (inHeap impl rfl)
        · rcases Store.slack_effect arranged effect queue with
            same | none | ⟨impl, choice, waiting, own, absent, -⟩
          · exact same.trans (exact queue)
          · exact none
          · exact absurd (own ▸ inHeap impl choice waiting) absent
  exact all.2.2

omit [DecidableEq Queue] [Fintype Queue] in
theorem countsCancelled_of_slack (exact : ∀ queue, machine.store.slack queue = 0) :
    machine.CountsCancelled := by
  intro queue _
  have counter := exact queue
  rw [Store.slack] at counter
  have split := (machine.store.queues queue).heap.length_eq_countP_add_countP
    machine.store.pending
  have dead : ((machine.store.queues queue).heap.countP fun entry =>
      ¬ machine.store.pending entry) = machine.store.dead queue := by
    rw [Store.dead]
    exact List.countP_congr fun entry _ => by simp
  refine ⟨by omega, ?_⟩
  rw [Store.size]
  omega

/-- The invariant of runs that cancel timers in their heaps only. -/
structure Exact (machine : Machine Queue Slot) : Prop where
  placed : machine.Placed
  exact : ∀ queue, machine.store.slack queue = 0

/-- Where every timer that is cancelled is in its heap, the counter is exact. -/
theorem counting_countsCancelled
    (reached : Reachable step Counting (initial memory) machine) :
    machine.CountsCancelled := by
  have initially : (initial memory : Machine Queue Slot).Exact :=
    ⟨initial_placed memory, fun queue => rfl⟩
  have invariant : machine.Exact := by
    refine reached.invariant initially ?_
    intro before action after inv allowed taken
    exact ⟨inv.placed.step allowed.1 taken, exact_effects inv.placed.arranged
      (fun impl choice _ => allowed.2 impl choice) inv.exact
      (step_effects inv.placed.counted allowed.1 taken)⟩
  exact countsCancelled_of_slack invariant.exact

/-- A callback cancels another timer, and the last handle of a third is dropped. -/
def cancelOthers : List (TimerAction Bool Nat) :=
  [.declare, .declare, .declare, .insert (.var 0) false 1 0 7, .insert (.var 1) false 10 0 8,
    .insert (.var 2) false 11 0 9, .dispatch false 1, .cancel (.var 2), .leave, .reset (.var 1)]

theorem counting_countsCancelled_others :
    ∃ machine : Machine Bool Nat,
      machine.store.log.count (.cancelled false 3) = 1 ∧ machine.CountsCancelled := by
  have computed :
      (execute step Counting (initial blankMemory) cancelOthers).map
        (fun machine => machine.store.log.count (.cancelled false 3)) = some 1 := by
    decide +kernel
  rcases Reachable.of_execute computed with ⟨machine, reached, once⟩
  exact ⟨machine, once, counting_countsCancelled reached⟩

/-- A timer cancels itself in its callback, with two others waiting. -/
def cancelSelf : List (TimerAction Bool Nat) :=
  [.declare, .declare, .declare, .insert (.var 0) false 1 0 7, .insert (.var 1) false 10 0 8,
    .insert (.var 2) false 11 0 9, .dispatch false 1, .cancel .arg, .leave]

theorem cancelled_self_not_counted :
    ¬ ∀ machine, Reachable step (fun _ action => action.Plain)
      (initial blankMemory : Machine Bool Nat) machine → machine.CountsCancelled := by
  intro always
  have computed :
      (execute step (fun _ action => action.Plain) (initial blankMemory) cancelSelf).map
        (fun machine => (machine.frames.length, (machine.store.queues false).cancelled,
          machine.store.dead false)) = some (0, 1, 0) := by
    decide +kernel
  rcases Reachable.of_execute computed with ⟨machine, reached, observed⟩
  obtain ⟨none, one, zero⟩ := by simpa only [Prod.mk.injEq] using observed
  have counted := (always machine reached false (by simp [List.length_eq_zero_iff.mp none])).1
  rw [one, zero] at counted
  cases counted

end Machine

end ReactiveToolbox.Io
