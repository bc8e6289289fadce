import ReactiveToolbox.Io.TimerQueues

/-!
# The numbers of timers

A queue numbers its timers as they are inserted, and no two timers that it still
has to fire share a number.  A number that has left the queue does not come back.
Where callbacks leave the handle alone that they are passed, every pending timer
is one that its queue still has to fire.
-/

namespace ReactiveToolbox.Io

open ReactiveToolbox.Lib

universe u v

variable {Queue : Type u} {Slot : Type v}

namespace Store

variable {store store' : Store Queue Slot} {impl : Ptr}

/-- `Timer::id`. -/
def id (store : Store Queue Slot) (impl : Ptr) : Int :=
  (store.impls impl).id

theorem SameTimers.id (same : store.SameTimers store') : store'.id = store.id := by
  funext impl
  rw [Store.id, same impl, Store.id]

theorem id_setInterval (store : Store Queue Slot) (impl : Ptr) (interval : Int) :
    (store.setInterval impl interval).id = store.id := by
  funext other
  by_cases same : other = impl
  · subst same
    simp [Store.id, setInterval, setImpl]
  · simp [Store.id, setInterval, setImpl, same]

theorem id_setExpiry (store : Store Queue Slot) (impl : Ptr) (expiry : Int) :
    (store.setExpiry impl expiry).id = store.id := by
  funext other
  by_cases same : other = impl
  · subst same
    simp [Store.id, setExpiry, setImpl]
  · simp [Store.id, setExpiry, setImpl, same]

theorem id_resetSlot (store : Store Queue Slot) (impl : Ptr) :
    (store.resetSlot impl).id = store.id := by
  funext other
  by_cases same : other = impl
  · subst same
    simp [Store.id, resetSlot, setImpl]
  · simp [Store.id, resetSlot, setImpl, same]

theorem id_retire [DecidableEq Queue] (store : Store Queue Slot) (impl : Ptr) :
    (store.retire impl).id = store.id :=
  id_resetSlot store impl

theorem maxId_retire [DecidableEq Queue] (store : Store Queue Slot) (impl : Ptr)
    (queue : Queue) :
    ((store.retire impl).queues queue).maxId = (store.queues queue).maxId := by
  by_cases same : queue = (store.impls impl).tq
  · subst same
    simp [retire, resetSlot, Store.record, setQueue, setImpl]
  · rw [queues_retire_of_ne same]

section Insert

variable [DecidableEq Queue] (store : Store Queue Slot) (queue : Queue) (expiry interval : Int)
    (slot : Slot)

/-- A new timer gets the next number of its queue. -/
theorem id_insert_self :
    (store.insert queue expiry interval slot).2.id store.poolAlloc.1 =
      (store.queues queue).maxId + 1 := by
  rw [Store.id, impls_insert_self]

/-- The numbers of the others stay. -/
theorem id_insert_of_ne (apart : impl ≠ store.poolAlloc.1) :
    (store.insert queue expiry interval slot).2.id impl = store.id impl := by
  rw [Store.id, impls_insert_of_ne store queue expiry interval slot apart, Store.id]

end Insert

theorem maxId_setHeap [DecidableEq Queue] (store : Store Queue Slot) (home queue : Queue)
    (heap : List Ptr) :
    ((store.setHeap home heap).queues queue).maxId = (store.queues queue).maxId := by
  by_cases same : queue = home
  · rw [same, queues_setHeap_self]
  · rw [queues_setHeap_of_ne _ same]

end Store

/-- A timer is in the heap of a queue, or with one of its dispatches. -/
def InQueue (view : View Queue Slot) (queue : Queue) (impl : Ptr) : Prop :=
  impl ∈ (view.1.queues queue).heap ∨
    ∃ frame ∈ view.2, frame.queue = queue ∧ frame.timer = some impl

/-- The timers of a queue have numbers of their own. -/
structure Numbered (view : View Queue Slot) : Prop where
  bounded : ∀ queue impl, InQueue view queue impl → view.1.id impl ≤ (view.1.queues queue).maxId
  distinct : ∀ queue first second, InQueue view queue first → InQueue view queue second →
    view.1.id first = view.1.id second → first = second

/-- A number was given by a queue that has no timer with it any more. -/
structure Gone (view : View Queue Slot) (queue : Queue) (number : Int) : Prop where
  given : number ≤ (view.1.queues queue).maxId
  absent : ∀ impl, InQueue view queue impl → view.1.id impl ≠ number

variable {view view' : View Queue Slot}

/-- What an effect may do to the timers of a queue: all that is new is a new number. -/
structure Renumbers (view view' : View Queue Slot) : Prop where
  maxId : ∀ queue, (view.1.queues queue).maxId ≤ (view'.1.queues queue).maxId
  timers : ∀ queue impl, InQueue view' queue impl →
    InQueue view queue impl ∧ view'.1.id impl = view.1.id impl ∨
    impl = view.1.poolAlloc.1 ∧ view'.1.id impl = (view.1.queues queue).maxId + 1 ∧
      (view.1.queues queue).maxId + 1 ≤ (view'.1.queues queue).maxId

theorem Renumbers.numbered (renumbers : Renumbers view view') (numbered : Numbered view) :
    Numbered view' := by
  refine ⟨fun queue impl present => ?_, fun queue first second present present' same => ?_⟩
  · rcases renumbers.timers queue impl present with ⟨old, kept⟩ | ⟨-, new, given⟩
    · rw [kept]
      exact (numbered.bounded queue impl old).trans (renumbers.maxId queue)
    · omega
  · rcases renumbers.timers queue first present with ⟨old, kept⟩ | ⟨fresh, new, -⟩
    · rcases renumbers.timers queue second present' with ⟨old', kept'⟩ | ⟨fresh', new', -⟩
      · exact numbered.distinct queue first second old old' (by rw [← kept, ← kept', same])
      · have := numbered.bounded queue first old
        omega
    · rcases renumbers.timers queue second present' with ⟨old', kept'⟩ | ⟨fresh', -, -⟩
      · have := numbered.bounded queue second old'
        omega
      · exact fresh.trans fresh'.symm

/-- A number that is gone does not come back. -/
theorem Renumbers.gone {queue : Queue} {number : Int} (renumbers : Renumbers view view')
    (gone : Gone view queue number) : Gone view' queue number := by
  have given := gone.given
  have more := renumbers.maxId queue
  refine ⟨given.trans more, fun impl present => ?_⟩
  rcases renumbers.timers queue impl present with ⟨old, kept⟩ | ⟨-, new, -⟩
  · rw [kept]
    exact gone.absent impl old
  · omega

/-- Where no timer comes to a queue. -/
theorem Renumbers.of_subset {store store' : Store Queue Slot} {frames frames' : List (Frame Queue)}
    (id : store'.id = store.id)
    (maxId : ∀ queue, (store'.queues queue).maxId = (store.queues queue).maxId)
    (heap : ∀ queue, ∀ impl ∈ (store'.queues queue).heap,
      InQueue (store, frames) queue impl)
    (running : ∀ frame ∈ frames', ∀ impl, frame.timer = some impl →
      InQueue (store, frames) frame.queue impl) :
    Renumbers (store, frames) (store', frames') where
  maxId := fun queue => (maxId queue).ge
  timers := by
    rintro queue impl (present | ⟨frame, member, rfl, held⟩)
    · exact Or.inl ⟨heap queue impl present, congrFun id impl⟩
    · exact Or.inl ⟨running frame member impl held, congrFun id impl⟩

theorem InQueue.running {store : Store Queue Slot} {frames : List (Frame Queue)}
    {frame : Frame Queue} {impl : Ptr} (member : frame ∈ frames)
    (held : frame.timer = some impl) : InQueue (store, frames) frame.queue impl :=
  Or.inr ⟨frame, member, rfl, held⟩

/-- The frames behind one that lets go of its timer. -/
theorem InQueue.behind {store : Store Queue Slot} {rest : List (Frame Queue)}
    {frame frame' : Frame Queue} (idle : frame'.timer = none) :
    ∀ running ∈ frame' :: rest, ∀ impl, running.timer = some impl →
      InQueue (store, frame :: rest) running.queue impl := by
  intro running member impl held
  rcases List.mem_cons.mp member with rfl | old
  · rw [idle] at held
    cases held
  · exact .running (List.mem_cons_of_mem _ old) held

section Queues

variable [DecidableEq Queue]

/-- A timer that is inserted gets the next number. -/
theorem Renumbers.insert {store : Store Queue Slot} {frames : List (Frame Queue)} (queue : Queue)
    (expiry interval : Int) (slot : Slot)
    (fresh : ∀ other, store.poolAlloc.1 ∉ (store.queues other).heap)
    (unheld : ∀ frame ∈ frames, frame.timer ≠ some store.poolAlloc.1) :
    Renumbers (store, frames) ((store.insert queue expiry interval slot).2, frames) := by
  have kept : ∀ other, other ≠ store.poolAlloc.1 →
      (store.insert queue expiry interval slot).2.id other = store.id other :=
    fun _ => Store.id_insert_of_ne store queue expiry interval slot
  refine ⟨fun other => ?_, ?_⟩
  · by_cases same : other = queue
    · simp only [same, Store.queues_insert_self]
      omega
    · simp only [Store.queues_insert_of_ne _ _ _ _ _ same]
      exact le_refl _
  · rintro other impl (present | ⟨frame, member, rfl, held⟩)
    · by_cases new : impl = store.poolAlloc.1
      · rcases (Store.mem_heap_insert store queue expiry interval slot).mp present with
          ⟨rfl, -⟩ | old
        · refine Or.inr ⟨new, ?_, ?_⟩
          · rw [new]
            exact Store.id_insert_self store other expiry interval slot
          · simp only [Store.queues_insert_self]
            exact le_refl _
        · exact absurd old (new ▸ fresh other)
      · have old := (Store.mem_heap_insert store queue expiry interval slot).mp present
        exact Or.inl ⟨Or.inl (old.resolve_left fun own => new own.2), kept impl new⟩
    · have new : impl ≠ store.poolAlloc.1 := by
        rintro rfl
        exact unheld frame member held
      exact Or.inl ⟨.running member held, kept impl new⟩

/-- A dispatch takes the front out of the heap. -/
theorem Renumbers.start {store : Store Queue Slot} {frame : Frame Queue}
    {rest : List (Frame Queue)} {front : Ptr} {left : List Ptr}
    (heap : (store.queues frame.queue).heap = front :: left) (event : TimerEvent Queue) :
    Renumbers (store, frame :: rest)
      ((store.setHeap frame.queue
        (BinaryHeap.popHeap store.expiry (store.queues frame.queue).heap)).record event,
        { frame with timer := some front } :: rest) := by
  have popped := BinaryHeap.popHeap_perm store.expiry front left
  refine .of_subset rfl (fun queue => Store.maxId_setHeap store frame.queue queue _)
    (fun queue impl present => Or.inl ?_) fun running member impl held => ?_
  · have present : impl ∈ ((store.setHeap frame.queue (BinaryHeap.popHeap store.expiry
        (store.queues frame.queue).heap)).queues queue).heap := present
    by_cases same : queue = frame.queue
    · subst same
      rw [Store.queues_setHeap_self, heap] at present
      exact show impl ∈ (store.queues frame.queue).heap from
        heap ▸ List.mem_cons_of_mem _ (popped.mem_iff.mp present)
    · rwa [Store.queues_setHeap_of_ne _ same] at present
  · rcases List.mem_cons.mp member with rfl | old
    · cases held
      exact Or.inl (show front ∈ (store.queues frame.queue).heap from
        heap ▸ List.mem_cons_self)
    · exact .running (List.mem_cons_of_mem _ old) held

/-- A dispatch puts its timer back into the heap. -/
theorem Renumbers.reschedule {store store' : Store Queue Slot} {frame : Frame Queue}
    {rest : List (Frame Queue)} {impl : Ptr} (held : frame.timer = some impl) (expiry : Int)
    (collected : ((store.setExpiry impl expiry).setHeap frame.queue
      (BinaryHeap.pushHeap (store.setExpiry impl expiry).expiry
        (store.queues frame.queue).heap impl)).Collects store') :
    Renumbers (store, frame :: rest) (store', frame.next :: rest) := by
  refine .of_subset (collected.timers.id.trans (Store.id_setExpiry store impl _))
    (fun queue => (collected.maxId queue).trans (Store.maxId_setHeap _ frame.queue queue _))
    (fun queue other present => ?_) (.behind rfl)
  have before := (collected.heap queue).subset present
  by_cases same : queue = frame.queue
  · subst same
    rw [Store.queues_setHeap_self] at before
    rcases List.mem_cons.mp ((BinaryHeap.pushHeap_perm _ _ _).mem_iff.mp before) with
      rfl | old
    · exact .running List.mem_cons_self held
    · exact Or.inl old
  · rw [Store.queues_setHeap_of_ne _ same] at before
    exact Or.inl before

end Queues

/-- Every effect keeps the numbers of timers. -/
theorem effect_renumbers [DecidableEq Queue] {action : TimerAction Queue Slot}
    {chosen : Option Ptr} (effect : Effect action chosen view view') : Renumbers view view' := by
  cases effect with
  | collects collected =>
      exact .of_subset collected.timers.id collected.maxId
        (fun queue impl present => Or.inl ((collected.heap queue).subset present))
        (fun frame member impl held => .running member held)
  | @cancels store store' frames impl choice alive waiting collected rested =>
      refine .of_subset (collected.timers.id.trans (Store.id_retire store impl))
        (fun queue => (collected.maxId queue).trans (Store.maxId_retire store impl queue))
        (fun queue other present => Or.inl ?_) (fun frame member other held => .running member held)
      have before := (collected.heap queue).subset present
      rwa [Store.heap_retire] at before
  | setsInterval impl interval asked =>
      exact .of_subset (Store.id_setInterval _ impl interval) (fun _ => rfl)
        (fun _ _ present => Or.inl present) (fun frame member other held => .running member held)
  | inserts queue expiry interval slot asked fresh unheld =>
      exact .insert queue expiry interval slot fresh unheld
  | forgets frame asked =>
      exact .of_subset rfl (fun _ => rfl) (fun _ _ present => Or.inl present) (.behind rfl)
  | @enters store frames queue now asked =>
      refine .of_subset rfl (fun _ => rfl) (fun _ _ present => Or.inl present)
        fun running member impl held => ?_
      rcases List.mem_cons.mp member with rfl | old
      · cases held
      · exact .running old held
  | starts choice idle heap waiting due => exact .start heap _
  | @finishes store middle store' frame rest choice idle collected undue collected' rested =>
      have all := collected.trans collected'
      exact .of_subset all.timers.id all.maxId
        (fun queue impl present => Or.inl ((all.heap queue).subset present))
        (fun running member impl held => .running (List.mem_cons_of_mem _ member) held)
  | reschedules asked choice held waiting periodic collected =>
      exact .reschedule held _ collected
  | @expires store store' frame rest impl asked choice held waiting oneShot collected =>
      exact .of_subset (collected.timers.id.trans (Store.id_resetSlot store impl))
        collected.maxId (fun queue other present => Or.inl ((collected.heap queue).subset present))
        (.behind rfl)
  | ends asked choice held ended collected =>
      exact .of_subset collected.timers.id collected.maxId
        (fun queue other present => Or.inl ((collected.heap queue).subset present)) (.behind rfl)
  | forgot asked idle =>
      exact .of_subset rfl (fun _ => rfl) (fun _ _ present => Or.inl present) (.behind rfl)

/-! ## A number that is gone is not fired -/

namespace TimerEvent

/-- A timer was due and its slot is called. -/
def isFired : TimerEvent Queue → Bool
  | .fired _ _ _ _ => true
  | _ => false

/-- A call of `dispatch` has ended. -/
def isDispatched : TimerEvent Queue → Bool
  | .dispatched _ _ => true
  | _ => false

/-- Neither the start of a callback nor the end of a dispatch. -/
def Silent (event : TimerEvent Queue) : Prop :=
  event.isFired = false ∧ event.isDispatched = false

end TimerEvent

theorem Store.Collects.silent {store store' : Store Queue Slot}
    (collected : store.Collects store') :
    ∃ more, store'.log = store.log ++ more ∧ (∀ event ∈ more, event.Silent) ∧
      ∀ queue number, .cancelled queue number ∉ more := by
  rcases collected.log with ⟨more, logged, returned⟩
  refine ⟨more, logged, fun event present => ?_, fun queue number present => ?_⟩
  · rcases returned event present with ⟨impl, rfl⟩
    exact ⟨rfl, rfl⟩
  · rcases returned _ present with ⟨impl, equal⟩
    cases equal

/-- Silent events fire nothing. -/
theorem not_fired_of_silent {more : List (TimerEvent Queue)}
    (silent : ∀ event ∈ more, event.Silent) (queue : Queue) (number expiry interval : Int) :
    .fired queue number expiry interval ∉ more := by
  intro present
  cases (silent _ present).1

theorem Gone.effect [DecidableEq Queue] {action : TimerAction Queue Slot} {chosen : Option Ptr}
    {queue : Queue} {number : Int} (gone : Gone view queue number)
    (effect : Effect action chosen view view') :
    ∃ more, view'.1.log = view.1.log ++ more ∧
      ∀ expiry interval, .fired queue number expiry interval ∉ more := by
  have collecting : ∀ {store store' : Store Queue Slot}, store.Collects store' →
      store.log = view.1.log → ∃ more, store'.log = view.1.log ++ more ∧
        ∀ expiry interval, .fired queue number expiry interval ∉ more := by
    intro store store' collected same
    rcases collected.silent with ⟨more, logged, silent, -⟩
    exact ⟨more, same ▸ logged, not_fired_of_silent silent queue number⟩
  cases effect with
  | collects collected => exact collecting collected rfl
  | @cancels store store' frames impl choice alive waiting collected rested =>
      rcases collected.silent with ⟨more, logged, silent, -⟩
      refine ⟨[.cancelled (store.impls impl).tq (store.impls impl).id] ++ more, ?_,
        fun expiry interval => ?_⟩
      · rw [logged]
        exact List.append_assoc _ _ _
      · exact List.not_mem_append (by simp) (not_fired_of_silent silent queue number _ _)
  | setsInterval impl interval asked => exact ⟨[], (List.append_nil _).symm, by simp⟩
  | @inserts store frames home expiry interval slot target asked fresh unheld =>
      exact ⟨_, Store.log_timerAlloc store home expiry interval slot, by simp⟩
  | forgets frame asked => exact ⟨[], (List.append_nil _).symm, by simp⟩
  | enters home now asked => exact ⟨[], (List.append_nil _).symm, by simp⟩
  | @starts store frame rest front left choice idle heap waiting due =>
      refine ⟨_, rfl, fun expiry interval present => ?_⟩
      obtain ⟨rfl, rfl, -, -⟩ := TimerEvent.fired.inj (List.mem_singleton.mp present)
      exact gone.absent front (Or.inl (heap ▸ List.mem_cons_self)) rfl
  | @finishes store middle store' frame rest choice idle collected undue collected' rested =>
      rcases (collected.trans collected').silent with ⟨more, logged, silent, -⟩
      refine ⟨more ++ [.dispatched frame.queue frame.work], ?_, fun expiry interval => ?_⟩
      · rw [← List.append_assoc, ← logged]
        rfl
      · exact List.not_mem_append (not_fired_of_silent silent queue number _ _) (by simp)
  | reschedules asked choice held waiting periodic collected => exact collecting collected rfl
  | expires asked choice held waiting oneShot collected => exact collecting collected rfl
  | ends asked choice held ended collected => exact collecting collected rfl
  | forgot asked idle => exact ⟨[], (List.append_nil _).symm, by simp⟩

/-- A timer that is gone is not fired any more. -/
theorem Gone.effects [DecidableEq Queue] {action : TimerAction Queue Slot} {chosen : Option Ptr}
    {queue : Queue} {number : Int} (gone : Gone view queue number)
    (effects : Effects action chosen view view') :
    Gone view' queue number ∧ ∃ more, view'.1.log = view.1.log ++ more ∧
      ∀ expiry interval, .fired queue number expiry interval ∉ more := by
  induction effects with
  | refl => exact ⟨gone, [], (List.append_nil _).symm, by simp⟩
  | tail _ effect ih =>
      rcases ih with ⟨gone', more, logged, unfired⟩
      rcases gone'.effect effect with ⟨more', logged', unfired'⟩
      refine ⟨(effect_renumbers effect).gone gone', more ++ more', ?_, fun expiry interval => ?_⟩
      · rw [logged', logged, List.append_assoc]
      · exact List.not_mem_append (unfired expiry interval) (unfired' expiry interval)

/-! ## Pending timers -/

/-- Every pending timer is one that its queue still has to fire. -/
def Tracked (view : View Queue Slot) : Prop :=
  ∀ impl, view.1.Allocated impl → view.1.pending impl →
    InQueue view (view.1.impls impl).tq impl

/-- Where other timers than those that stop pending stay where they are. -/
theorem Tracked.of_kept (tracked : Tracked view)
    (allocated : ∀ impl, view'.1.Allocated impl → view'.1.pending impl → view.1.Allocated impl)
    (tq : ∀ impl, (view'.1.impls impl).tq = (view.1.impls impl).tq)
    (pending : ∀ impl, view'.1.pending impl → view.1.pending impl)
    (kept : ∀ queue impl, view'.1.pending impl → InQueue view queue impl →
      InQueue view' queue impl) :
    Tracked view' := by
  intro impl alive waiting
  rw [tq]
  exact kept _ impl waiting (tracked impl (allocated impl alive waiting) (pending impl waiting))

theorem Tracked.collects {store store' : Store Queue Slot} {frames : List (Frame Queue)}
    (tracked : Tracked (store, frames)) (collected : store.Collects store') :
    Tracked (store', frames) := by
  refine tracked.of_kept (fun impl alive _ => collected.allocated impl alive) collected.timers.tq
    (fun impl waiting => ?_) fun queue impl waiting => ?_
  · rwa [collected.timers.pending] at waiting
  · rw [collected.timers.pending] at waiting
    exact Or.imp_left (collected.mem waiting)

theorem Store.allocated_of_insert [DecidableEq Queue] {store : Store Queue Slot} {queue : Queue}
    {expiry interval : Int} {slot : Slot} {impl : Ptr}
    (alive : (store.insert queue expiry interval slot).2.Allocated impl) :
    impl = store.poolAlloc.1 ∨ store.Allocated impl := by
  rcases alive with ⟨within, used⟩
  have slabs : (store.insert queue expiry interval slot).2.slabs = store.poolAlloc.2.slabs := rfl
  have free : (store.insert queue expiry interval slot).2.free = store.poolAlloc.2.free := rfl
  rw [slabs] at within
  rw [free] at used
  unfold poolAlloc at within used ⊢
  cases left : store.free with
  | cons head rest =>
      rw [left] at within used
      by_cases same : impl = head
      · exact Or.inl same
      · refine Or.inr ⟨within, ?_⟩
        rw [left, List.mem_cons]
        exact not_or_intro same used
  | nil =>
      rw [left] at within used
      dsimp only [record] at within used
      rw [mem_slabRest] at used
      rw [Nat.add_mul, Nat.one_mul] at within
      by_cases same : impl = store.slabs * slabSize
      · exact Or.inl same
      · have below : impl ≤ store.slabs * slabSize :=
          Nat.le_of_not_lt fun above => used ⟨above, within⟩
        refine Or.inr ⟨Nat.lt_of_le_of_ne below same, ?_⟩
        rw [left]
        exact List.not_mem_nil

variable [DecidableEq Queue]

theorem Tracked.retire {store : Store Queue Slot} {frames : List (Frame Queue)}
    (tracked : Tracked (store, frames)) (impl : Ptr) :
    Tracked (store.retire impl, frames) := by
  refine tracked.of_kept (fun _ alive _ => alive) (Store.tq_retire store impl)
    (fun other waiting => ?_) fun queue other waiting => Or.imp_left fun present => ?_
  · exact Store.pending_of_resetSlot waiting
  · rwa [Store.heap_retire]

theorem Tracked.insert {store : Store Queue Slot} {frames : List (Frame Queue)}
    (tracked : Tracked (store, frames)) (queue : Queue) (expiry interval : Int) (slot : Slot) :
    Tracked ((store.insert queue expiry interval slot).2, frames) := by
  intro impl alive waiting
  have present {home : Queue} : impl ∈ ((store.insert queue expiry interval slot).2.queues
      home).heap ↔ _ := Store.mem_heap_insert store queue expiry interval slot
  by_cases new : impl = store.poolAlloc.1
  · left
    refine present.mpr (Or.inl ⟨?_, new⟩)
    rw [new, Store.impls_insert_self]
  · have same := Store.impls_insert_of_ne store queue expiry interval slot new
    have alive : store.Allocated impl := (Store.allocated_of_insert alive).resolve_left new
    simp only [Store.pending, same] at waiting ⊢
    exact (tracked impl alive waiting).imp_left fun old => present.mpr (Or.inr old)

theorem Tracked.start {store : Store Queue Slot} {frame : Frame Queue}
    {rest : List (Frame Queue)} {front : Ptr} {left : List Ptr}
    (tracked : Tracked (store, frame :: rest)) (idle : frame.timer = none)
    (heap : (store.queues frame.queue).heap = front :: left) :
    Tracked (store.setHeap frame.queue
        (BinaryHeap.popHeap store.expiry (store.queues frame.queue).heap),
      { frame with timer := some front } :: rest) := by
  have popped := BinaryHeap.popHeap_perm store.expiry front left
  refine tracked.of_kept (fun _ alive _ => alive) (fun _ => rfl) (fun _ => id) ?_
  rintro queue impl - (present | ⟨running, member, rfl, held⟩)
  · by_cases same : queue = frame.queue
    · subst same
      have present : impl ∈ (store.queues frame.queue).heap := present
      rw [heap, List.mem_cons] at present
      rcases present with rfl | old
      · exact Or.inr ⟨_, List.mem_cons_self, rfl, rfl⟩
      · left
        rw [Store.queues_setHeap_self, heap]
        exact popped.mem_iff.mpr old
    · left
      rw [Store.queues_setHeap_of_ne _ same]
      exact present
  · refine Or.inr ⟨running, ?_, rfl, held⟩
    rcases List.mem_cons.mp member with rfl | old
    · rw [idle] at held
      cases held
    · exact List.mem_cons_of_mem _ old

/-- A periodic timer goes back into the heap. -/
theorem Tracked.reschedule {store : Store Queue Slot} {frame : Frame Queue}
    {rest : List (Frame Queue)} {impl : Ptr}
    (tracked : Tracked (store, frame :: rest)) (held : frame.timer = some impl) (expiry : Int) :
    Tracked ((store.setExpiry impl expiry).setHeap frame.queue
      (BinaryHeap.pushHeap (store.setExpiry impl expiry).expiry
        (store.queues frame.queue).heap impl), frame.next :: rest) := by
  have pushed := BinaryHeap.pushHeap_perm (store.setExpiry impl expiry).expiry
    (store.queues frame.queue).heap impl
  have same : ∀ other, ((store.setExpiry impl expiry).impls other).slot =
      (store.impls other).slot ∧
      ((store.setExpiry impl expiry).impls other).tq = (store.impls other).tq := by
    intro other
    by_cases equal : other = impl
    · subst equal
      simp [Store.setExpiry, Store.setImpl]
    · simp [Store.setExpiry, Store.setImpl, equal]
  refine tracked.of_kept (fun _ alive _ => alive) (fun other => (same other).2)
    (fun other waiting => ?_) ?_
  · exact (congrArg Option.isSome (same other).1).symm.trans waiting
  · rintro queue other - (present | ⟨running, member, rfl, held'⟩)
    · left
      by_cases equal : queue = frame.queue
      · subst equal
        rw [Store.queues_setHeap_self]
        exact pushed.mem_iff.mpr (List.mem_cons_of_mem _ present)
      · rw [Store.queues_setHeap_of_ne _ equal]
        exact present
    · rcases List.mem_cons.mp member with rfl | old
      · obtain rfl := Option.some.inj (held.symm.trans held')
        left
        rw [Store.queues_setHeap_self]
        exact pushed.mem_iff.mpr List.mem_cons_self
      · exact Or.inr ⟨running, List.mem_cons_of_mem _ old, rfl, held'⟩

omit [DecidableEq Queue] in
/-- A dispatch lets go of its timer, which does not pend. -/
theorem Tracked.release {store store' : Store Queue Slot} {frame frame' : Frame Queue}
    {rest : List (Frame Queue)} (tracked : Tracked (store, frame :: rest))
    (allocated : ∀ impl, store'.Allocated impl → store.Allocated impl)
    (tq : ∀ impl, (store'.impls impl).tq = (store.impls impl).tq)
    (queues : store'.queues = store.queues)
    (pending : ∀ impl, store'.pending impl → store.pending impl ∧ frame.timer ≠ some impl) :
    Tracked (store', frame' :: rest) := by
  refine tracked.of_kept (fun impl alive _ => allocated impl alive) tq
    (fun impl waiting => (pending impl waiting).1) ?_
  rintro queue impl waiting (present | ⟨running, member, rfl, held⟩)
  · exact Or.inl (show impl ∈ (store'.queues queue).heap from queues ▸ present)
  · rcases List.mem_cons.mp member with rfl | old
    · exact absurd held (pending impl waiting).2
    · exact Or.inr ⟨running, List.mem_cons_of_mem _ old, rfl, held⟩

/-- Where the handle is left alone that a callback was passed, no pending timer is lost. -/
theorem Tracked.effect {action : TimerAction Queue Slot} {chosen : Option Ptr}
    (tracked : Tracked view) (effect : Effect action chosen view view')
    (keeps : ¬ action.takesArg) : Tracked view' := by
  cases effect with
  | collects collected => exact tracked.collects collected
  | cancels choice alive waiting collected rested => exact (tracked.retire _).collects collected
  | @setsInterval store frames impl interval target asked =>
      refine tracked.of_kept (fun _ alive _ => alive) (Store.tq_setInterval store impl interval)
        (fun other waiting => ?_) fun _ _ _ => id
      exact Store.pending_setInterval store impl interval other ▸ waiting
  | inserts queue expiry interval slot asked fresh unheld =>
      exact tracked.insert queue expiry interval slot
  | forgets frame asked => exact absurd asked keeps
  | enters queue now asked =>
      refine tracked.of_kept (fun _ alive _ => alive) (fun _ => rfl) (fun _ => id) ?_
      rintro other impl - (present | ⟨running, member, rfl, held⟩)
      · exact Or.inl present
      · exact .running (List.mem_cons_of_mem _ member) held
  | starts choice idle heap waiting due => exact tracked.start idle heap
  | @finishes store middle store' frame rest choice idle collected undue collected' rested =>
      have all := tracked.collects (collected.trans collected')
      refine all.of_kept (fun _ alive _ => alive) (fun _ => rfl) (fun _ => id) ?_
      rintro queue impl - (present | ⟨running, member, rfl, held⟩)
      · exact Or.inl present
      · rcases List.mem_cons.mp member with rfl | old
        · rw [idle] at held
          cases held
        · exact .running old held
  | reschedules asked choice held waiting periodic collected =>
      exact (tracked.reschedule held _).collects collected
  | @expires store store' frame rest impl asked choice held waiting oneShot collected =>
      have expired : Tracked (store.resetSlot impl, frame.next :: rest) := by
        refine tracked.release (fun _ alive => alive) (fun other => ?_) rfl fun other waiting' => ?_
        · by_cases same : other = impl
          · subst same
            simp [Store.resetSlot, Store.setImpl]
          · simp [Store.resetSlot, Store.setImpl, same]
        · refine ⟨Store.pending_of_resetSlot waiting', ?_⟩
          rintro held'
          obtain rfl := Option.some.inj (held.symm.trans held')
          rw [Store.pending_resetSlot_self] at waiting'
          cases waiting'
      exact expired.collects collected
  | @ends store store' frame rest impl asked choice held ended collected =>
      have released : Tracked (store, frame.next :: rest) := by
        refine tracked.release (fun _ alive => alive) (fun _ => rfl) rfl fun other waiting => ?_
        refine ⟨waiting, fun held' => ?_⟩
        obtain rfl := Option.some.inj (held.symm.trans held')
        rw [ended] at waiting
        cases waiting
      exact released.collects collected
  | @forgot store frame rest asked idle =>
      refine tracked.release (fun _ alive => alive) (fun _ => rfl) rfl fun other waiting => ?_
      rw [idle]
      exact ⟨waiting, by simp⟩

/-- Timers are where they belong, and their numbers tell them apart. -/
structure Tidy (view : View Queue Slot) : Prop where
  arranged : Arranged view.1 view.2
  numbered : Numbered view
  tracked : Tracked view

theorem Tidy.effect {action : TimerAction Queue Slot} {chosen : Option Ptr} (tidy : Tidy view)
    (effect : Effect action chosen view view') (keeps : ¬ action.takesArg) : Tidy view' where
  arranged := tidy.arranged.effect effect
  numbered := (effect_renumbers effect).numbered tidy.numbered
  tracked := tidy.tracked.effect effect keeps

/-- All that happens within a step keeps the queues tidy. -/
theorem Tidy.effects {action : TimerAction Queue Slot} {chosen : Option Ptr} (tidy : Tidy view)
    (effects : Effects action chosen view view') (keeps : ¬ action.takesArg) : Tidy view' := by
  induction effects with
  | refl => exact tidy
  | tail _ effect ih => exact ih.effect effect keeps

end ReactiveToolbox.Io
