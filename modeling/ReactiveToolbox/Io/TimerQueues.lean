import ReactiveToolbox.Io.TimerEffects

/-!
# The heaps and their counters

In every state, a timer is in the heap of its own queue at most once, or taken
out by one dispatch, the heap is in order, and the counter of cancelled entries
covers the entries that are not pending.  A queue that is not dispatching is at
rest.
-/

namespace ReactiveToolbox.Io

open ReactiveToolbox.Lib

universe u v

namespace Store

variable {Queue : Type u} {Slot : Type v} {store store' : Store Queue Slot}
    {queue : Queue} {impl : Ptr}

theorem dead_congr (heap : (store'.queues queue).heap = (store.queues queue).heap)
    (same : ∀ entry ∈ (store.queues queue).heap, store'.pending entry = store.pending entry) :
    store'.dead queue = store.dead queue := by
  rw [dead, dead, heap]
  refine List.countP_congr fun entry present => ?_
  rw [same entry present]

theorem Rested.congr (rested : store.Rested queue)
    (queues : store'.queues queue = store.queues queue)
    (same : ∀ entry ∈ (store.queues queue).heap, store'.pending entry = store.pending entry) :
    store'.Rested queue := by
  refine ⟨fun impl first => ?_, by rw [queues]; exact rested.few⟩
  rw [Store.front, queues] at first
  rw [same impl (List.mem_of_head? first)]
  exact rested.front impl first

section Interval

variable (store : Store Queue Slot) (impl : Ptr) (interval : Int) (other : Ptr)

theorem tq_setInterval :
    ((store.setInterval impl interval).impls other).tq = (store.impls other).tq := by
  by_cases same : other = impl
  · subst same
    simp [setInterval, setImpl]
  · simp [setInterval, setImpl, same]

theorem expiry_setInterval :
    (store.setInterval impl interval).expiry other = store.expiry other := by
  by_cases same : other = impl
  · subst same
    simp [expiry, setInterval, setImpl]
  · simp [expiry, setInterval, setImpl, same]

theorem pending_setInterval :
    (store.setInterval impl interval).pending other = store.pending other := by
  by_cases same : other = impl
  · subst same
    simp [pending, setInterval, setImpl]
  · simp [pending, setInterval, setImpl, same]

end Interval

theorem countP_not_pending (heap : List Ptr) (waiting : store.pending impl)
    (reset : store'.pending impl = false)
    (same : ∀ other, other ≠ impl → store'.pending other = store.pending other) :
    (heap.countP fun entry => !store'.pending entry) =
      (heap.countP fun entry => !store.pending entry) + heap.count impl := by
  induction heap with
  | nil => rfl
  | cons entry rest ih =>
      rw [List.countP_cons, List.countP_cons, List.count_cons, ih]
      by_cases equal : entry = impl
      · subst equal
        simp [waiting, reset]
        omega
      · simp [same entry equal, equal]
        omega

variable [DecidableEq Queue]

theorem dead_retire (waiting : store.pending impl) (queue : Queue) :
    (store.retire impl).dead queue =
      store.dead queue + (store.queues queue).heap.count impl := by
  rw [dead, heap_retire, dead]
  refine countP_not_pending _ waiting (pending_retire_self store impl) fun other apart => ?_
  rw [pending, impls_retire_of_ne apart, pending]

end Store

/-- Each timer is in the heap of its queue or with one dispatch, and the heaps are in order. -/
structure Arranged {Queue : Type u} {Slot : Type v} (store : Store Queue Slot)
    (frames : List (Frame Queue)) : Prop where
  nodup : ∀ queue, (store.queues queue).heap.Nodup
  owner : ∀ queue, ∀ impl ∈ (store.queues queue).heap, (store.impls impl).tq = queue
  running : ∀ frame ∈ frames, ∀ impl, frame.timer = some impl →
    (store.impls impl).tq = frame.queue ∧ ∀ queue, impl ∉ (store.queues queue).heap
  distinct : (frames.filterMap Frame.timer).Nodup
  ordered : ∀ queue, BinaryHeap.IsHeap store.expiry (store.queues queue).heap

namespace Arranged

variable {Queue : Type u} {Slot : Type v} {store store' : Store Queue Slot}
    {frames : List (Frame Queue)} {frame : Frame Queue} {queue : Queue} {impl : Ptr}

/-- Where the queues are left alone, and the timers in them. -/
theorem congr (arranged : Arranged store frames)
    (queues : store'.queues = store.queues)
    (tq : ∀ impl, (store'.impls impl).tq = (store.impls impl).tq)
    (same : ∀ queue, ∀ impl ∈ (store.queues queue).heap,
      store'.expiry impl = store.expiry impl ∧ store'.pending impl = store.pending impl) :
    Arranged store' frames where
  nodup := by
    rw [queues]
    exact arranged.nodup
  owner := by
    intro queue impl present
    rw [queues] at present
    rw [tq]
    exact arranged.owner queue impl present
  running := by
    intro frame running impl held
    rw [tq, queues]
    exact arranged.running frame running impl held
  distinct := arranged.distinct
  ordered := by
    intro queue
    rw [queues]
    exact (arranged.ordered queue).congr fun impl present => (same queue impl present).1

theorem collects (arranged : Arranged store frames) (collected : store.Collects store') :
    Arranged store' frames where
  nodup := by
    intro queue
    rcases collected.heap queue with ⟨kept, same, sub⟩
    exact same.nodup_iff.mp (sub.nodup (arranged.nodup queue))
  owner := by
    intro queue impl present
    rw [collected.timers.tq]
    exact arranged.owner queue impl ((collected.heap queue).subset present)
  running := by
    intro frame running impl held
    rw [collected.timers.tq]
    rcases arranged.running frame running impl held with ⟨own, absent⟩
    exact ⟨own, fun queue present => absent queue ((collected.heap queue).subset present)⟩
  distinct := arranged.distinct
  ordered := by
    intro queue
    rw [collected.timers.expiry]
    exact collected.ordered queue (arranged.ordered queue)

variable [DecidableEq Queue]

theorem retire (arranged : Arranged store frames) (impl : Ptr) :
    Arranged (store.retire impl) frames where
  nodup := by
    intro queue
    rw [Store.heap_retire]
    exact arranged.nodup queue
  owner := by
    intro queue other present
    rw [Store.heap_retire] at present
    rw [Store.tq_retire]
    exact arranged.owner queue other present
  running := by
    intro frame running other held
    simp only [Store.tq_retire, Store.heap_retire]
    exact arranged.running frame running other held
  distinct := arranged.distinct
  ordered := by
    intro queue
    rw [Store.heap_retire, Store.expiry_retire]
    exact arranged.ordered queue

/-- A timer that was nowhere is pushed on the heap of its queue. -/
theorem push {value : TimerQueue} (arranged : Arranged store frames)
    (fresh : ∀ other, impl ∉ (store.queues other).heap)
    (unheld : ∀ frame ∈ frames, frame.timer ≠ some impl)
    (impls : ∀ other, other ≠ impl → store'.impls other = store.impls other)
    (tq : (store'.impls impl).tq = queue)
    (own : store'.queues queue = value)
    (others : ∀ other, other ≠ queue → store'.queues other = store.queues other)
    (heap : value.heap = BinaryHeap.pushHeap store'.expiry (store.queues queue).heap impl) :
    Arranged store' frames := by
  have kept : ∀ other, ∀ entry ∈ (store.queues other).heap,
      store'.impls entry = store.impls entry := by
    intro other entry present
    refine impls entry ?_
    rintro rfl
    exact fresh other present
  have pushed := BinaryHeap.pushHeap_perm store'.expiry (store.queues queue).heap impl
  rw [← heap] at pushed
  have ordered : ∀ other, BinaryHeap.IsHeap store'.expiry (store.queues other).heap :=
    fun other => (arranged.ordered other).congr fun entry present => by
      rw [Store.expiry, kept other entry present, Store.expiry]
  refine ⟨fun other => ?_, fun other entry present => ?_, fun frame running entry held => ?_,
    arranged.distinct, fun other => ?_⟩
  · by_cases same : other = queue
    · rw [same, own]
      exact pushed.nodup_iff.mpr (List.nodup_cons.mpr ⟨fresh queue, arranged.nodup queue⟩)
    · rw [others other same]
      exact arranged.nodup other
  · by_cases same : other = queue
    · rw [same, own] at present
      rcases List.mem_cons.mp (pushed.mem_iff.mp present) with rfl | old
      · rw [tq, same]
      · rw [kept queue entry old, same]
        exact arranged.owner queue entry old
    · rw [others other same] at present
      rw [kept other entry present]
      exact arranged.owner other entry present
  · have different : entry ≠ impl := by
      rintro rfl
      exact unheld frame running held
    rcases arranged.running frame running entry held with ⟨tq, absent⟩
    rw [impls entry different]
    refine ⟨tq, fun other present => ?_⟩
    by_cases same : other = queue
    · rw [same, own] at present
      rcases List.mem_cons.mp (pushed.mem_iff.mp present) with equal | old
      · exact different equal
      · exact absent queue old
    · rw [others other same] at present
      exact absent other present
  · by_cases same : other = queue
    · rw [same, own, heap]
      exact (ordered queue).pushHeap _
    · rw [others other same]
      exact ordered other

theorem insert (arranged : Arranged store frames) (queue : Queue) (expiry interval : Int)
    (slot : Slot)
    (fresh : ∀ other, store.poolAlloc.1 ∉ (store.queues other).heap)
    (unheld : ∀ frame ∈ frames, frame.timer ≠ some store.poolAlloc.1) :
    Arranged (store.insert queue expiry interval slot).2 frames := by
  refine arranged.push fresh unheld
    (fun other apart => Store.impls_insert_of_ne store queue expiry interval slot apart) ?_
    (Store.queues_insert_self store queue expiry interval slot)
    (fun other apart => Store.queues_insert_of_ne store queue expiry interval slot apart) rfl
  rw [Store.impls_insert_self]

/-- The front is taken out by a dispatch. -/
theorem start {rest : List (Frame Queue)} {front : Ptr} {left : List Ptr}
    (arranged : Arranged store (frame :: rest))
    (idle : frame.timer = none)
    (heap : (store.queues frame.queue).heap = front :: left) :
    Arranged (store.setHeap frame.queue
        (BinaryHeap.popHeap store.expiry (store.queues frame.queue).heap))
      ({ frame with timer := some front } :: rest) := by
  have popped : (BinaryHeap.popHeap store.expiry (store.queues frame.queue).heap).Perm left := by
    rw [heap]
    exact BinaryHeap.popHeap_perm store.expiry front left
  have nodup := arranged.nodup frame.queue
  rw [heap] at nodup
  have present : front ∈ (store.queues frame.queue).heap := heap ▸ List.mem_cons_self
  have sub : ∀ other, ∀ impl ∈ ((store.setHeap frame.queue
      (BinaryHeap.popHeap store.expiry (store.queues frame.queue).heap)).queues other).heap,
      impl ∈ (store.queues other).heap ∧ impl ≠ front := by
    intro other impl member
    by_cases same : other = frame.queue
    · rw [same, Store.queues_setHeap_self] at member
      have old := popped.mem_iff.mp member
      refine ⟨by rw [same, heap]; exact List.mem_cons_of_mem _ old, ?_⟩
      rintro rfl
      exact (List.nodup_cons.mp nodup).1 old
    · rw [Store.queues_setHeap_of_ne _ same] at member
      refine ⟨member, ?_⟩
      rintro rfl
      exact same ((arranged.owner other _ member).symm.trans
        (arranged.owner frame.queue _ present))
  refine ⟨fun other => ?_, fun other impl member => ?_, fun running member impl held => ?_, ?_,
    fun other => ?_⟩
  · by_cases same : other = frame.queue
    · rw [same, Store.queues_setHeap_self]
      exact popped.nodup_iff.mpr (List.nodup_cons.mp nodup).2
    · rw [Store.queues_setHeap_of_ne _ same]
      exact arranged.nodup other
  · exact arranged.owner other impl (sub other impl member).1
  · rcases List.mem_cons.mp member with rfl | old
    · cases held
      exact ⟨arranged.owner frame.queue front present,
        fun other member => (sub other front member).2 rfl⟩
    · rcases arranged.running running (List.mem_cons_of_mem _ old) impl held with ⟨tq, absent⟩
      exact ⟨tq, fun other member => absent other (sub other impl member).1⟩
  · have before := arranged.distinct
    rw [List.filterMap_cons_none idle] at before
    refine show (front :: rest.filterMap Frame.timer).Nodup from
      List.nodup_cons.mpr ⟨fun member => ?_, before⟩
    rcases List.mem_filterMap.mp member with ⟨running, old, held⟩
    exact (arranged.running running (List.mem_cons_of_mem _ old) front held).2 _ present
  · by_cases same : other = frame.queue
    · rw [same, Store.queues_setHeap_self]
      have ordered := arranged.ordered frame.queue
      rw [heap] at ordered ⊢
      exact ordered.popHeap
    · rw [Store.queues_setHeap_of_ne _ same]
      exact arranged.ordered other

omit [DecidableEq Queue] in
/-- A dispatch lets go of its timer. -/
theorem release {rest : List (Frame Queue)} (arranged : Arranged store (frame :: rest))
    (work : Nat) :
    Arranged store ({ frame with timer := none, work := work } :: rest) := by
  refine ⟨arranged.nodup, arranged.owner, fun running member impl held => ?_, ?_,
    arranged.ordered⟩
  · rcases List.mem_cons.mp member with rfl | old
    · cases held
    · exact arranged.running running (List.mem_cons_of_mem _ old) impl held
  · refine arranged.distinct.sublist ?_
    exact (List.sublist_cons_self frame rest).filterMap Frame.timer

omit [DecidableEq Queue] in
theorem enter (arranged : Arranged store frames) (idle : frame.timer = none) :
    Arranged store (frame :: frames) := by
  refine ⟨arranged.nodup, arranged.owner, fun running member impl held => ?_, ?_,
    arranged.ordered⟩
  · rcases List.mem_cons.mp member with rfl | old
    · rw [idle] at held
      cases held
    · exact arranged.running running old impl held
  · rw [List.filterMap_cons_none idle]
    exact arranged.distinct

omit [DecidableEq Queue] in
theorem finish {rest : List (Frame Queue)} (arranged : Arranged store (frame :: rest)) :
    Arranged store rest := by
  refine ⟨arranged.nodup, arranged.owner, fun running member => ?_, ?_,
    arranged.ordered⟩
  · exact arranged.running running (List.mem_cons_of_mem _ member)
  · exact arranged.distinct.sublist ((List.sublist_cons_self frame rest).filterMap Frame.timer)

omit [DecidableEq Queue] in
/-- The timer of a dispatch is nowhere else. -/
theorem held_alone {rest : List (Frame Queue)} (arranged : Arranged store (frame :: rest))
    (held : frame.timer = some impl) {running : Frame Queue} (member : running ∈ rest) :
    running.timer ≠ some impl := by
  intro held'
  have distinct := arranged.distinct
  rw [List.filterMap_cons, held] at distinct
  exact (List.nodup_cons.mp distinct).1 (List.mem_filterMap.mpr ⟨running, member, held'⟩)

/-- A periodic timer goes back into the heap. -/
theorem reschedule {rest : List (Frame Queue)} (arranged : Arranged store (frame :: rest))
    (held : frame.timer = some impl) (expiry : Int) :
    Arranged ((store.setExpiry impl expiry).setHeap frame.queue
      (BinaryHeap.pushHeap (store.setExpiry impl expiry).expiry
        (store.queues frame.queue).heap impl)) (frame.next :: rest) := by
  rcases arranged.running frame List.mem_cons_self impl held with ⟨tq, absent⟩
  refine (arranged.release (frame.work + 1)).push absent (fun running member => ?_)
    (fun other apart => ?_) ?_ (Store.queues_setHeap_self _ frame.queue _)
    (fun other apart => Store.queues_setHeap_of_ne _ apart) rfl
  · rcases List.mem_cons.mp member with rfl | old
    · exact nofun
    · exact arranged.held_alone held old
  · simp [Store.setHeap, Store.setQueue, Store.setExpiry, Store.setImpl, apart]
  · simpa [Store.setHeap, Store.setQueue, Store.setExpiry, Store.setImpl] using tq

omit [DecidableEq Queue] in
/-- A one-shot timer is over. -/
theorem expire {rest : List (Frame Queue)} (arranged : Arranged store (frame :: rest))
    (held : frame.timer = some impl) :
    Arranged (store.resetSlot impl) (frame.next :: rest) := by
  rcases arranged.running frame List.mem_cons_self impl held with ⟨-, absent⟩
  refine (arranged.release (frame.work + 1)).congr rfl (fun other => ?_)
    fun queue other present => ?_
  · by_cases same : other = impl
    · subst same
      simp [Store.resetSlot, Store.setImpl]
    · simp [Store.resetSlot, Store.setImpl, same]
  · have apart : other ≠ impl := by
      rintro rfl
      exact absent queue present
    refine ⟨?_, Store.pending_resetSlot_of_ne store apart⟩
    simp [Store.expiry, Store.resetSlot, Store.setImpl, apart]

/-- Every effect keeps the timers arranged. -/
theorem effect {action : TimerAction Queue Slot} {chosen : Option Ptr}
    {view view' : View Queue Slot}
    (arranged : Arranged view.1 view.2) (effect : Effect action chosen view view') :
    Arranged view'.1 view'.2 := by
  cases effect with
  | collects collected => exact arranged.collects collected
  | cancels choice alive waiting collected rested => exact (arranged.retire _).collects collected
  | setsInterval impl interval asked =>
      exact arranged.congr rfl (Store.tq_setInterval _ impl interval) fun _ other _ =>
        ⟨Store.expiry_setInterval _ impl interval other,
          Store.pending_setInterval _ impl interval other⟩
  | inserts queue expiry interval slot asked fresh unheld =>
      exact arranged.insert queue expiry interval slot fresh unheld
  | forgets frame asked => exact arranged.release frame.work
  | enters queue now asked => exact arranged.enter rfl
  | starts choice idle heap waiting due =>
      exact (arranged.start idle heap).congr rfl (fun _ => rfl) fun _ _ _ => ⟨rfl, rfl⟩
  | finishes choice idle collected undue collected' rested =>
      exact ((arranged.collects collected).collects collected').finish.congr rfl (fun _ => rfl)
        fun _ _ _ => ⟨rfl, rfl⟩
  | reschedules asked choice held waiting periodic collected =>
      exact (arranged.reschedule held _).collects collected
  | expires asked choice held waiting oneShot collected =>
      exact (arranged.expire held).collects collected
  | ends asked choice held ended collected => exact (arranged.release _).collects collected
  | forgot asked idle => exact arranged.release _

end Arranged

/-- A queue without a running dispatch is at rest. -/
def AtRest {Queue : Type u} {Slot : Type v} (store : Store Queue Slot)
    (frames : List (Frame Queue)) : Prop :=
  ∀ queue, (∀ frame ∈ frames, frame.queue ≠ queue) → store.Rested queue

namespace AtRest

variable {Queue : Type u} {Slot : Type v} {store : Store Queue Slot}
    {frame : Frame Queue} {rest : List (Frame Queue)}

theorem replace (frame' : Frame Queue) (atRest : AtRest store (frame :: rest))
    (same : frame'.queue = frame.queue) :
    AtRest store (frame' :: rest) := by
  intro queue idle
  refine atRest queue fun running member => ?_
  rcases List.mem_cons.mp member with rfl | old
  · exact same ▸ idle frame' List.mem_cons_self
  · exact idle running (List.mem_cons_of_mem _ old)

/-- The front of a queue pends with a timer more, and no more of its entries are cancelled. -/
theorem insert [DecidableEq Queue] {frames : List (Frame Queue)} (atRest : AtRest store frames)
    (queue : Queue) (expiry interval : Int) (slot : Slot)
    (fresh : ∀ other, store.poolAlloc.1 ∉ (store.queues other).heap) :
    AtRest (store.insert queue expiry interval slot).2 frames := by
  intro other idle
  have rested : store.Rested other := atRest other idle
  have kept : ∀ entry ∈ (store.queues other).heap,
      (store.insert queue expiry interval slot).2.pending entry = store.pending entry := by
    intro entry present
    have apart : entry ≠ store.poolAlloc.1 := by
      rintro rfl
      exact fresh other present
    rw [Store.pending, Store.impls_insert_of_ne _ _ _ _ _ apart, Store.pending]
  by_cases same : other = queue
  · subst same
    have own := Store.queues_insert_self store other expiry interval slot
    refine ⟨fun impl first => ?_, ?_⟩
    · rw [Store.front, own] at first
      rcases BinaryHeap.pushHeap_front first with old | rfl
      · rw [kept impl (List.mem_of_head? old)]
        exact rested.front impl old
      · rw [Store.pending, Store.impls_insert_self]
        rfl
    · have few := rested.few
      rw [own, (BinaryHeap.pushHeap_perm _ _ _).length_eq, List.length_cons]
      simp only
      omega
  · exact rested.congr (Store.queues_insert_of_ne _ _ _ _ _ same) kept

/-- Every effect leaves the queues at rest that no dispatch is running. -/
theorem effect [DecidableEq Queue] {action : TimerAction Queue Slot} {chosen : Option Ptr}
    {view view' : View Queue Slot}
    (atRest : AtRest view.1 view.2) (arranged : Arranged view.1 view.2)
    (effect : Effect action chosen view view') : AtRest view'.1 view'.2 := by
  cases effect with
  | collects collected => exact fun queue idle => collected.rested queue (atRest queue idle)
  | @cancels store store' frames impl choice alive waiting collected rested =>
      intro queue idle
      by_cases same : queue = (store.impls impl).tq
      · exact same ▸ rested
      · refine collected.rested queue ((atRest queue idle).congr
          (Store.queues_retire_of_ne same) fun entry present => ?_)
        have apart : entry ≠ impl := by
          rintro rfl
          exact same (arranged.owner queue entry present).symm
        rw [Store.pending, Store.impls_retire_of_ne apart, Store.pending]
  | setsInterval impl interval asked =>
      exact fun queue idle => (atRest queue idle).congr rfl fun entry _ =>
        Store.pending_setInterval _ impl interval entry
  | inserts queue expiry interval slot asked fresh unheld =>
      exact atRest.insert queue expiry interval slot fresh
  | forgets frame asked => exact atRest.replace _ rfl
  | enters queue now asked =>
      exact fun other idle => atRest other fun running member =>
        idle running (List.mem_cons_of_mem _ member)
  | @starts store frame rest front left choice notRunning heap waiting due =>
      intro queue idle
      have apart : queue ≠ frame.queue := (idle _ List.mem_cons_self).symm
      exact (atRest.replace { frame with timer := some front } rfl queue idle).congr
        (Store.queues_setHeap_of_ne _ apart) fun _ _ => rfl
  | @finishes store middle store' frame rest choice notRunning collected undue collected' rested =>
      intro queue idle
      have left : store'.Rested queue := by
        by_cases same : queue = frame.queue
        · exact same ▸ rested
        · refine collected'.rested queue
            (collected.rested queue (atRest queue fun running member => ?_))
          rcases List.mem_cons.mp member with rfl | old
          · exact Ne.symm same
          · exact idle running old
      exact left.congr rfl fun _ _ => rfl
  | @reschedules store store' frame rest impl asked choice held waiting periodic collected =>
      intro queue idle
      have apart : queue ≠ frame.queue := (idle _ List.mem_cons_self).symm
      rcases arranged.running frame List.mem_cons_self impl held with ⟨-, absent⟩
      refine collected.rested queue ((atRest.replace frame.next rfl queue idle).congr
        (Store.queues_setHeap_of_ne _ apart) fun entry present => ?_)
      have different : entry ≠ impl := by
        rintro rfl
        exact absent queue present
      simp [Store.pending, Store.setHeap, Store.setQueue, Store.setExpiry, Store.setImpl,
        different]
  | @expires store store' frame rest impl asked choice held waiting oneShot collected =>
      intro queue idle
      rcases arranged.running frame List.mem_cons_self impl held with ⟨-, absent⟩
      refine collected.rested queue ((atRest.replace frame.next rfl queue idle).congr
        rfl fun entry present => Store.pending_resetSlot_of_ne store ?_)
      rintro rfl
      exact absent queue present
  | @ends store store' frame rest impl asked choice held ended collected =>
      exact fun queue idle =>
        collected.rested queue (atRest.replace frame.next rfl queue idle)
  | @forgot store frame rest asked idle => exact atRest.replace frame.next rfl

end AtRest

/-! ## The counter of cancelled entries -/

namespace Store

variable {Queue : Type u} {Slot : Type v} {store store' : Store Queue Slot}
    {queue : Queue} {impl : Ptr}

/-- How far the counter is ahead of the entries that are not pending. -/
def slack (store : Store Queue Slot) (queue : Queue) : Int :=
  (store.queues queue).cancelled - store.dead queue

theorem slack_congr (queues : store'.queues queue = store.queues queue)
    (same : ∀ entry ∈ (store.queues queue).heap, store'.pending entry = store.pending entry) :
    store'.slack queue = store.slack queue := by
  rw [slack, slack, queues, dead_congr (by rw [queues]) same]

theorem Collects.slack (collected : store.Collects store') (queue : Queue) :
    store'.slack queue = store.slack queue ∨ store'.slack queue = 0 := by
  rcases collected.counter queue with same | ⟨zero, none⟩
  · exact Or.inl same
  · right
    rw [Store.slack, zero, none]
    rfl

/-- A pending timer that is pushed is not counted. -/
theorem slack_push {value : TimerQueue} {key : Ptr → Int}
    (fresh : ∀ other, impl ∉ (store.queues other).heap)
    (impls : ∀ other, other ≠ impl → store'.impls other = store.impls other)
    (waiting : store'.pending impl)
    (own : store'.queues queue = value)
    (others : ∀ other, other ≠ queue → store'.queues other = store.queues other)
    (cancelled : value.cancelled = (store.queues queue).cancelled)
    (heap : value.heap = BinaryHeap.pushHeap key (store.queues queue).heap impl)
    (other : Queue) :
    store'.slack other = store.slack other := by
  have kept : ∀ entry ∈ (store.queues other).heap,
      store'.pending entry = store.pending entry := by
    intro entry present
    have apart : entry ≠ impl := by
      rintro rfl
      exact fresh other present
    rw [pending, impls entry apart, pending]
  by_cases same : other = queue
  · subst same
    have pushed := BinaryHeap.pushHeap_perm key (store.queues other).heap impl
    have counted : ((store.queues other).heap.countP fun entry => !store'.pending entry) =
        store.dead other :=
      List.countP_congr fun entry present => by rw [kept entry present]
    rw [slack, dead, own, heap, pushed.countP_eq, List.countP_cons_of_neg (by simp [waiting]),
      counted, cancelled, slack]
  · exact slack_congr (others other same) kept

variable [DecidableEq Queue]

theorem slack_reschedule (absent : ∀ other, impl ∉ (store.queues other).heap)
    (waiting : store.pending impl) (home : Queue) (expiry : Int) (queue : Queue) :
    ((store.setExpiry impl expiry).setHeap home
      (BinaryHeap.pushHeap (store.setExpiry impl expiry).expiry
        (store.queues home).heap impl)).slack queue = store.slack queue := by
  refine slack_push absent (fun entry apart => ?_) ?_
    (queues_setHeap_self (store.setExpiry impl expiry) home
      (BinaryHeap.pushHeap (store.setExpiry impl expiry).expiry (store.queues home).heap impl))
    (fun other apart => queues_setHeap_of_ne (store.setExpiry impl expiry) apart) rfl rfl queue
  · simp [setHeap, setQueue, setExpiry, setImpl, apart]
  · simpa [pending, setHeap, setQueue, setExpiry, setImpl] using waiting

/-- A cancelled timer is counted, also where it is not in its heap. -/
theorem slack_retire {frames : List (Frame Queue)} (arranged : Arranged store frames)
    (waiting : store.pending impl) (queue : Queue) :
    (store.retire impl).slack queue = store.slack queue ∨
      (queue = (store.impls impl).tq ∧ impl ∉ (store.queues queue).heap ∧
        (store.retire impl).slack queue = store.slack queue + 1) := by
  rw [slack, slack, dead_retire waiting]
  by_cases same : queue = (store.impls impl).tq
  · subst same
    rw [cancelled_retire_self]
    by_cases present : impl ∈ (store.queues (store.impls impl).tq).heap
    · left
      rw [List.count_eq_one_of_mem (arranged.nodup _) present]
      push_cast
      omega
    · right
      refine ⟨rfl, present, ?_⟩
      rw [List.count_eq_zero.mpr present]
      push_cast
      omega
  · left
    have absent : impl ∉ (store.queues queue).heap :=
      fun present => same (arranged.owner queue impl present).symm
    rw [List.count_eq_zero.mpr absent, queues_retire_of_ne same]
    rfl

theorem slack_start {frame : Frame Queue} {front : Ptr} {left : List Ptr}
    (heap : (store.queues frame.queue).heap = front :: left) (waiting : store.pending front)
    (queue : Queue) :
    (store.setHeap frame.queue
      (BinaryHeap.popHeap store.expiry (store.queues frame.queue).heap)).slack queue =
        store.slack queue := by
  by_cases same : queue = frame.queue
  · subst same
    have popped := BinaryHeap.popHeap_perm store.expiry front left
    rw [slack, dead, queues_setHeap_self, heap, popped.countP_eq, slack, dead, heap,
      List.countP_cons_of_neg (by simp [waiting])]
    rfl
  · exact slack_congr (queues_setHeap_of_ne _ same) fun _ _ => rfl

/--
The counter only gets ahead where a timer is cancelled that is not in its heap.
-/
theorem slack_effect {action : TimerAction Queue Slot} {chosen : Option Ptr}
    {view view' : View Queue Slot}
    (arranged : Arranged view.1 view.2) (effect : Effect action chosen view view') (queue : Queue) :
    view'.1.slack queue = view.1.slack queue ∨ view'.1.slack queue = 0 ∨
      ∃ impl, chosen = some impl ∧ view.1.pending impl ∧ queue = (view.1.impls impl).tq ∧
        impl ∉ (view.1.queues queue).heap ∧
        view'.1.slack queue = view.1.slack queue + 1 := by
  have collecting : ∀ {store store' : Store Queue Slot}, store.Collects store' →
      store.slack queue = view.1.slack queue →
      store'.slack queue = view.1.slack queue ∨ store'.slack queue = 0 ∨
        ∃ impl, chosen = some impl ∧ view.1.pending impl ∧ queue = (view.1.impls impl).tq ∧
          impl ∉ (view.1.queues queue).heap ∧
          store'.slack queue = view.1.slack queue + 1 := by
    intro store store' collected same
    rcases collected.slack queue with kept | none
    · exact Or.inl (kept.trans same)
    · exact Or.inr (Or.inl none)
  cases effect with
  | collects collected => exact collecting collected rfl
  | @cancels store store' frames impl choice alive waiting collected rested =>
      rcases slack_retire arranged waiting queue with same | ⟨own, absent, more⟩
      · exact collecting collected same
      · rcases collected.slack queue with kept | none
        · exact Or.inr (Or.inr ⟨impl, choice, waiting, own, absent, kept.trans more⟩)
        · exact Or.inr (Or.inl none)
  | setsInterval impl interval asked =>
      exact Or.inl (slack_congr rfl fun entry _ => pending_setInterval _ impl interval entry)
  | @inserts store frames other expiry interval slot target asked fresh unheld =>
      left
      refine slack_push fresh (fun entry apart => impls_insert_of_ne _ _ _ _ _ apart) ?_
        (queues_insert_self store other expiry interval slot)
        (fun entry apart => queues_insert_of_ne _ _ _ _ _ apart) rfl rfl queue
      rw [pending, impls_insert_self]
      rfl
  | forgets frame asked => exact Or.inl rfl
  | enters queue now asked => exact Or.inl rfl
  | starts choice idle heap waiting due => exact Or.inl (slack_start heap waiting queue)
  | @finishes store middle store' frame rest choice idle collected undue collected' rested =>
      have left := collecting (collected.trans collected') rfl
      exact left
  | @reschedules store store' frame rest impl asked choice held waiting periodic collected =>
      rcases arranged.running frame List.mem_cons_self impl held with ⟨-, absent⟩
      exact collecting collected (slack_reschedule absent waiting frame.queue _ queue)
  | @expires store store' frame rest impl asked choice held waiting oneShot collected =>
      rcases arranged.running frame List.mem_cons_self impl held with ⟨-, absent⟩
      refine collecting collected (slack_congr rfl fun entry present =>
        pending_resetSlot_of_ne store ?_)
      rintro rfl
      exact absent queue present
  | ends asked choice held ended collected => exact collecting collected rfl
  | forgot asked idle => exact Or.inl rfl

end Store

/-! ## Every reachable state -/

namespace Machine

open Store

variable {Queue : Type u} {Slot : Type v} [DecidableEq Queue] [Fintype Queue]
    {machine machine' : Machine Queue Slot} {memory : Ptr → Impl Queue Slot}

/-- The invariant of users who keep to plain actions. -/
structure Placed (machine : Machine Queue Slot) : Prop where
  counted : machine.Counted
  arranged : Arranged machine.store machine.frames
  atRest : AtRest machine.store machine.frames
  covered : ∀ queue, 0 ≤ machine.store.slack queue

theorem initial_placed (memory : Ptr → Impl Queue Slot) : (initial memory).Placed where
  counted := initial_counted memory
  arranged := by
    refine ⟨fun queue => List.nodup_nil, fun queue impl present => ?_,
      fun frame running => ?_, List.nodup_nil, fun queue => BinaryHeap.isHeap_nil⟩
    · cases present
    · cases running
  atRest := by
    intro queue _
    refine ⟨fun impl first => ?_, ?_⟩
    · cases first
    · simp [initial, Store.initial]
  covered := fun queue => le_refl _

omit [Fintype Queue] in
theorem Placed.effects {action : TimerAction Queue Slot} {chosen : Option Ptr}
    {view view' : View Queue Slot}
    (arranged : Arranged view.1 view.2) (atRest : AtRest view.1 view.2)
    (covered : ∀ queue, 0 ≤ view.1.slack queue) (effects : Effects action chosen view view') :
    Arranged view'.1 view'.2 ∧ AtRest view'.1 view'.2 ∧ ∀ queue, 0 ≤ view'.1.slack queue := by
  induction effects with
  | refl => exact ⟨arranged, atRest, covered⟩
  | tail _ effect ih =>
      rcases ih with ⟨arranged, atRest, covered⟩
      refine ⟨arranged.effect effect, atRest.effect arranged effect, fun queue => ?_⟩
      have before := covered queue
      rcases slack_effect arranged effect queue with same | none | ⟨-, -, -, -, -, more⟩
      · omega
      · omega
      · omega

theorem Placed.step {action : TimerAction Queue Slot} (placed : machine.Placed)
    (plain : action.Plain) (taken : machine.step action = some machine') : machine'.Placed := by
  rcases Placed.effects placed.arranged placed.atRest placed.covered
    (step_effects placed.counted plain taken) with ⟨arranged, atRest, covered⟩
  exact ⟨placed.counted.step taken, arranged, atRest, covered⟩

end Machine

end ReactiveToolbox.Io
