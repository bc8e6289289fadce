import Mathlib.Data.List.Infix
import ReactiveToolbox.Io.TimerIds

/-!
# A dispatch in progress

What holds of a dispatch between its effects.  The timers that it may still fire
were due when it began, and expire no earlier than those it has fired; what
callbacks insert and what is rescheduled expires later.
-/

namespace ReactiveToolbox.Io

open ReactiveToolbox.Lib

universe u v

variable {Queue : Type u} {Slot : Type v}

namespace Store

variable {store store' : Store Queue Slot} {queue : Queue} {impl : Ptr}

/-- The event of a timer that is fired. -/
def firing (store : Store Queue Slot) (queue : Queue) (impl : Ptr) : TimerEvent Queue :=
  .fired queue (store.impls impl).id (store.impls impl).expiry (store.impls impl).interval

/-- The event of a timer that is cancelled. -/
def cancellation (store : Store Queue Slot) (queue : Queue) (impl : Ptr) : TimerEvent Queue :=
  .cancelled queue (store.impls impl).id

/-- The event of a periodic timer that is fired again. -/
def refiring (store : Store Queue Slot) (queue : Queue) (now : Int) (impl : Ptr) :
    TimerEvent Queue :=
  .fired queue (store.impls impl).id
    (max ((store.impls impl).expiry + (store.impls impl).interval) (now + 1))
    (store.impls impl).interval

/-- A pending timer of the queue that has expired. -/
structure Due (store : Store Queue Slot) (queue : Queue) (now : Int) (impl : Ptr) : Prop where
  alive : store.Allocated impl
  owner : (store.impls impl).tq = queue
  waiting : store.pending impl
  expired : store.expiry impl ≤ now

/-- A pending timer in the heap of the queue. -/
def Waits (store : Store Queue Slot) (queue : Queue) (impl : Ptr) : Prop :=
  impl ∈ (store.queues queue).heap ∧ store.pending impl

theorem firing_eq_iff :
    store'.firing queue impl = store.firing queue impl ↔
      (store'.impls impl).id = (store.impls impl).id ∧ store'.expiry impl = store.expiry impl ∧
        (store'.impls impl).interval = (store.impls impl).interval := by
  simp [firing, expiry]

theorem cancellation_eq {other : Ptr}
    (same : store'.firing queue other = store.firing queue impl) :
    store'.cancellation queue other = store.cancellation queue impl := by
  rw [cancellation, cancellation, (TimerEvent.fired.inj same).2.1]

theorem SameTimers.firing (timers : store.SameTimers store') (queue : Queue) (impl : Ptr) :
    store'.firing queue impl = store.firing queue impl := by
  rw [Store.firing, timers impl, Store.firing]

theorem firing_resetSlot (store : Store Queue Slot) (queue : Queue) (impl other : Ptr) :
    (store.resetSlot impl).firing queue other = store.firing queue other := by
  by_cases same : other = impl
  · subst same
    simp [firing, resetSlot, setImpl]
  · simp [firing, resetSlot, setImpl, same]

end Store

/-! ## Between two firings -/

/-- What callbacks and collection may do to the timers that a dispatch may fire. -/
structure Quiet (queue : Queue) (now : Int) (more : List (TimerEvent Queue))
    (view view' : View Queue Slot) : Prop where
  logged : view'.1.log = view.1.log ++ more
  silent : ∀ event ∈ more, event.Silent
  frames : view'.2 = view.2
  kept : ∀ impl, InQueue view queue impl → view.1.pending impl →
    view.1.cancellation queue impl ∈ more ∨
      view'.1.pending impl ∧
        (impl ∈ (view.1.queues queue).heap → impl ∈ (view'.1.queues queue).heap)
  same : ∀ impl, InQueue view queue impl →
    view'.1.firing queue impl = view.1.firing queue impl
  old : ∀ impl, view'.1.Waits queue impl → view'.1.expiry impl ≤ now →
    view.1.Waits queue impl ∧ view.1.cancellation queue impl ∉ more
  renumbers : Renumbers view view'

variable {queue : Queue} {now : Int} {view view' : View Queue Slot}

theorem Store.Waits.inQueue {impl : Ptr} (waits : view.1.Waits queue impl) :
    InQueue view queue impl :=
  Or.inl waits.1

theorem quiet_collects [DecidableEq Queue] {store store' : Store Queue Slot} (queue : Queue)
    (now : Int) (frames : List (Frame Queue)) (collected : store.Collects store') :
    ∃ more, Quiet queue now more (store, frames) (store', frames) := by
  rcases collected.silent with ⟨more, logged, silent, uncancelled⟩
  refine ⟨more, logged, silent, rfl, fun impl _ waiting => Or.inr ⟨?_, collected.mem waiting⟩,
    fun impl _ => collected.timers.firing queue impl, fun impl waits _ => ⟨⟨?_, ?_⟩, ?_⟩, ?_⟩
  · rwa [collected.timers.pending]
  · exact (collected.heap queue).subset waits.1
  · exact collected.timers.pending ▸ waits.2
  · exact uncancelled queue _
  · exact effect_renumbers (.collects collected : Effect .declare none _ _)

section Actions

variable [DecidableEq Queue] {action : TimerAction Queue Slot} {chosen : Option Ptr}
    {store store' : Store Queue Slot} {frames : List (Frame Queue)} {impl : Ptr}

theorem quiet_cancels (queue : Queue) (now : Int) (tidy : Tidy (store, frames))
    (alive : store.Allocated impl)
    (waiting : store.pending impl) (collected : (store.retire impl).Collects store')
    (rested : store'.Rested (store.impls impl).tq) :
    ∃ more, Quiet queue now more (store, frames) (store', frames) := by
  rcases collected.silent with ⟨returned, logged, silent, uncancelled⟩
  have tracked : InQueue (store, frames) (store.impls impl).tq impl :=
    tidy.tracked impl alive waiting
  have unretired : ∀ other, other ≠ impl →
      (store.retire impl).pending other = store.pending other :=
    fun other apart => by rw [Store.pending, Store.impls_retire_of_ne apart, Store.pending]
  refine ⟨store.cancellation (store.impls impl).tq impl :: returned, ?_, ?_, rfl, ?_, ?_, ?_, ?_⟩
  · rw [logged]
    exact List.append_assoc _ _ _
  · intro event present
    rcases List.mem_cons.mp present with rfl | later
    · exact ⟨rfl, rfl⟩
    · exact silent event later
  · intro other queued waiting'
    by_cases same : other = impl
    · -- A timer is in no heap but that of its own queue.
      subst same
      have own : (store.impls other).tq = queue := by
        rcases queued with present | ⟨frame, member, rfl, held⟩
        · exact tidy.arranged.owner queue other present
        · exact (tidy.arranged.running frame member other held).1
      rw [own]
      exact Or.inl List.mem_cons_self
    · right
      rw [collected.timers.pending, unretired other same]
      refine ⟨waiting', fun present => collected.mem ?_ ?_⟩
      · rwa [unretired other same]
      · rwa [Store.heap_retire]
  · intro other _
    rw [collected.timers.firing]
    exact Store.firing_resetSlot store queue impl other
  · intro other waits _
    have waiting' : (store.retire impl).pending other := collected.timers.pending ▸ waits.2
    have present : other ∈ (store.queues queue).heap := by
      have before := (collected.heap queue).subset waits.1
      rwa [Store.heap_retire] at before
    refine ⟨⟨present, Store.pending_of_resetSlot waiting'⟩, fun cancelled => ?_⟩
    rcases List.mem_cons.mp cancelled with equal | later
    · obtain ⟨own, number⟩ := TimerEvent.cancelled.inj equal
      have same := tidy.numbered.distinct queue other impl (Or.inl present) (own ▸ tracked) number
      rw [same, Store.pending_retire_self] at waiting'
      cases waiting'
    · exact uncancelled queue _ later
  · exact effect_renumbers
      (.cancels rfl alive waiting collected rested : Effect .declare (some impl) _ _)

theorem quiet_inserts (home : Queue) (expiry interval : Int) (slot : Slot)
    (fresh : ∀ other, store.poolAlloc.1 ∉ (store.queues other).heap)
    (unheld : ∀ frame ∈ frames, frame.timer ≠ some store.poolAlloc.1)
    (later : home = queue → now < expiry) :
    Quiet queue now [.allocated store.poolAlloc.1] (store, frames)
      ((store.insert home expiry interval slot).2, frames) := by
  have apart : ∀ impl, InQueue (store, frames) queue impl → impl ≠ store.poolAlloc.1 := by
    rintro impl (present | ⟨frame, member, -, held⟩) rfl
    · exact fresh queue present
    · exact unheld frame member held
  have kept : ∀ impl, impl ≠ store.poolAlloc.1 →
      (store.insert home expiry interval slot).2.impls impl = store.impls impl :=
    fun impl different => Store.impls_insert_of_ne store home expiry interval slot different
  have heap : ∀ impl, impl ≠ store.poolAlloc.1 →
      (impl ∈ ((store.insert home expiry interval slot).2.queues queue).heap ↔
        impl ∈ (store.queues queue).heap) := by
    intro impl different
    rw [Store.mem_heap_insert]
    exact or_iff_right fun own => different own.2
  refine ⟨Store.log_timerAlloc store home expiry interval slot, ?_, rfl, ?_, ?_, ?_, ?_⟩
  · intro event present
    rw [List.mem_singleton] at present
    subst present
    exact ⟨rfl, rfl⟩
  · intro impl queued waiting
    have different := apart impl queued
    refine Or.inr ⟨?_, (heap impl different).mpr⟩
    rwa [Store.pending, kept impl different]
  · intro impl queued
    rw [Store.firing, kept impl (apart impl queued), Store.firing]
  · intro impl waits expired
    have different : impl ≠ store.poolAlloc.1 := by
      rintro rfl
      have late : expiry ≤ now := by
        rw [Store.expiry, Store.impls_insert_self] at expired
        exact expired
      by_cases own : home = queue
      · exact absurd (later own) (not_lt_of_ge late)
      · have present := waits.1
        rw [Store.queues_insert_of_ne _ _ _ _ _ (Ne.symm own)] at present
        exact fresh queue present
    refine ⟨⟨(heap impl different).mp waits.1, ?_⟩, by simp [Store.cancellation]⟩
    rw [Store.pending, ← kept impl different]
    exact waits.2
  · exact effect_renumbers (.inserts home expiry interval slot rfl fresh unheld :
      Effect (.insert (.var 0) home expiry interval slot) none _ _)

end Actions

/-! ## A dispatch and its log -/

/--
Where a dispatch is that has fired some timers: between two callbacks, in the
callback of the last one, or at its end.
-/
inductive Stage (start : Store Queue Slot) (queue : Queue) (now : Int) (leaves : Nat)
    (log : List (TimerEvent Queue)) (fired : List Ptr) (store : Store Queue Slot) :
    List (Frame Queue) → Prop where
  | between (count : leaves = fired.length) :
      Stage start queue now leaves log fired store [{ queue, now, work := leaves, timer := none }]
  | calling {early : List Ptr} {impl : Ptr}
      (last : fired = early ++ [impl])
      (count : leaves = early.length)
      (same : store.firing queue impl = start.firing queue impl)
      (ongoing : store.pending impl ∨ start.cancellation queue impl ∈ log) :
      Stage start queue now leaves log fired store
        [{ queue, now, work := leaves, timer := some impl }]
  | returned (count : leaves = fired.length) :
      Stage start queue now leaves log fired store []

/--
What holds of a dispatch that began at `start`, after `leaves` callbacks, with
its log and the timers it has fired.
-/
structure Progress (start : Store Queue Slot) (queue : Queue) (now : Int) (leaves : Nat)
    (log : List (TimerEvent Queue)) (fired : List Ptr) (view : View Queue Slot) : Prop where
  logged : view.1.log = start.log ++ log
  firings : log.filter TimerEvent.isFired = fired.map (start.firing queue)
  dispatches : log.filter TimerEvent.isDispatched =
    if view.2.isEmpty then [.dispatched queue fired.length] else []
  due : ∀ impl ∈ fired, start.Due queue now impl
  once : fired.Nodup
  sorted : fired.Pairwise fun first second => start.expiry first ≤ start.expiry second
  uncancelled : ∀ impl ∈ fired, ∀ early, early ++ [start.firing queue impl] <+: log →
    start.cancellation queue impl ∉ early
  stage : Stage start queue now leaves log fired view.1 view.2
  /-- What is still to be fired was due from the start. -/
  waiting : ∀ impl, view.1.Waits queue impl → view.1.expiry impl ≤ now →
    start.Due queue now impl ∧ impl ∉ fired ∧
      view.1.firing queue impl = start.firing queue impl ∧
      start.cancellation queue impl ∉ log ∧
      ∀ early ∈ fired, start.expiry early ≤ start.expiry impl
  covered : ∀ impl, start.Due queue now impl →
    impl ∈ fired ∨ start.cancellation queue impl ∈ log ∨
      view.1.Waits queue impl ∧ view.1.firing queue impl = start.firing queue impl
  periodic : ∀ impl ∈ fired, (∀ frame ∈ view.2, frame.timer ≠ some impl) →
    0 < (start.impls impl).interval →
    start.cancellation queue impl ∈ log ∨
      view.1.Waits queue impl ∧ view.1.firing queue impl = start.refiring queue now impl
  oneShot : ∀ impl ∈ fired, (∀ frame ∈ view.2, frame.timer ≠ some impl) →
    ¬ 0 < (start.impls impl).interval → Gone view queue (start.impls impl).id
  finished : view.2 = [] → ∀ impl, view.1.Waits queue impl → now < view.1.expiry impl

variable {start : Store Queue Slot} {leaves : Nat} {log more : List (TimerEvent Queue)}
    {fired : List Ptr}

theorem filter_silent {keep : TimerEvent Queue → Bool} (log : List (TimerEvent Queue))
    (unkept : ∀ event ∈ more, keep event = false) :
    (log ++ more).filter keep = log.filter keep := by
  have dropped : more.filter keep = [] :=
    List.filter_eq_nil_iff.mpr fun event present => by simp [unkept event present]
  rw [List.filter_append, dropped, List.append_nil]

/-- A firing is not among silent events. -/
theorem before_silent {event : TimerEvent Queue} (isFired : event.isFired = true)
    (silent : ∀ event ∈ more, event.Silent) {early : List (TimerEvent Queue)}
    (here : early ++ [event] <+: log ++ more) : early ++ [event] <+: log := by
  induction more using List.reverseRecOn with
  | nil => rwa [List.append_nil] at here
  | append_singleton more last ih =>
      rw [← List.append_assoc, List.prefix_concat_iff] at here
      rcases here with equal | shorter
      · obtain ⟨-, same⟩ := List.append_inj' equal rfl
        obtain rfl := List.singleton_inj.mp same
        have quiet := (silent event (List.mem_append_right _ List.mem_cons_self)).1
        rw [isFired] at quiet
        cases quiet
      · exact ih (fun event present => silent event (List.mem_append_left _ present)) shorter

/-- Callbacks and collection keep the account of a dispatch. -/
theorem Progress.quiet (progress : Progress start queue now leaves log fired view)
    (quiet : Quiet queue now more view view') :
    Progress start queue now leaves (log ++ more) fired view' := by
  have stage : Stage start queue now leaves (log ++ more) fired view'.1 view'.2 := by
    have before := progress.stage
    have same := quiet.same
    have kept := quiet.kept
    rw [quiet.frames]
    generalize frames : view.2 = running at before
    cases before with
    | between count => exact .between count
    | @calling early impl last count unchanged ongoing =>
        have queued : InQueue view queue impl :=
          Or.inr ⟨_, frames ▸ List.mem_cons_self, rfl, rfl⟩
        refine .calling last count ((same impl queued).trans unchanged) ?_
        rcases ongoing with waiting | cancelled
        · rcases kept impl queued waiting with cancelled | ⟨waiting, -⟩
          · rw [Store.cancellation_eq unchanged] at cancelled
            exact Or.inr (List.mem_append_right _ cancelled)
          · exact Or.inl waiting
        · exact Or.inr (List.mem_append_left _ cancelled)
    | returned count => exact .returned count
  have remains : ∀ impl event, view.1.Waits queue impl → view.1.firing queue impl = event →
      view.1.cancellation queue impl = start.cancellation queue impl →
      start.cancellation queue impl ∈ log ++ more ∨
        view'.1.Waits queue impl ∧ view'.1.firing queue impl = event := by
    intro impl event waits equal number
    rcases quiet.kept impl waits.inQueue waits.2 with cancelled | ⟨waiting, present⟩
    · exact Or.inl (List.mem_append_right _ (number ▸ cancelled))
    · exact Or.inr ⟨⟨present waits.1, waiting⟩, (quiet.same impl waits.inQueue).trans equal⟩
  refine { progress with
    logged := ?_, firings := ?_, dispatches := ?_, uncancelled := ?_, stage := stage,
    waiting := ?_, covered := ?_, periodic := ?_, oneShot := ?_, finished := ?_ }
  · rw [quiet.logged, progress.logged, List.append_assoc]
  · rw [filter_silent log fun event present => (quiet.silent event present).1, progress.firings]
  · rw [filter_silent log fun event present => (quiet.silent event present).2,
      progress.dispatches, quiet.frames]
  · intro impl member early here
    exact progress.uncancelled impl member early (before_silent rfl quiet.silent here)
  · intro impl waits expired
    rcases quiet.old impl waits expired with ⟨before, uncancelled⟩
    have same := quiet.same impl before.inQueue
    have expired' : view.1.expiry impl ≤ now := by
      rwa [← (Store.firing_eq_iff.mp same).2.1]
    rcases progress.waiting impl before expired' with ⟨due, unfired, unchanged, unlogged, sorted⟩
    refine ⟨due, unfired, same.trans unchanged, ?_, sorted⟩
    rw [Store.cancellation_eq unchanged] at uncancelled
    exact List.not_mem_append unlogged uncancelled
  · intro impl due
    rcases progress.covered impl due with done | cancelled | ⟨waits, unchanged⟩
    · exact Or.inl done
    · exact Or.inr (Or.inl (List.mem_append_left _ cancelled))
    · exact Or.inr (remains impl _ waits unchanged (Store.cancellation_eq unchanged))
  · intro impl member past positive
    rw [quiet.frames] at past
    rcases progress.periodic impl member past positive with cancelled | ⟨waits, again⟩
    · exact Or.inl (List.mem_append_left _ cancelled)
    · refine remains impl _ waits again ?_
      rw [Store.cancellation, (TimerEvent.fired.inj again).2.1, Store.cancellation]
  · intro impl member past single
    rw [quiet.frames] at past
    exact quiet.renumbers.gone (progress.oneShot impl member past single)
  · intro returned impl waits
    rw [quiet.frames] at returned
    by_contra early
    have expired : view'.1.expiry impl ≤ now := le_of_not_gt early
    rcases quiet.old impl waits expired with ⟨before, -⟩
    have same := quiet.same impl before.inQueue
    have later := progress.finished returned impl before
    rw [← (Store.firing_eq_iff.mp same).2.1] at later
    exact early later

/-- What the log says was fired. -/
theorem Progress.mem_log (progress : Progress start queue now leaves log fired view)
    {event : TimerEvent Queue} (isFired : event.isFired = true) (present : event ∈ log) :
    ∃ impl ∈ fired, start.firing queue impl = event := by
  have kept : event ∈ log.filter TimerEvent.isFired := List.mem_filter.mpr ⟨present, isFired⟩
  rw [progress.firings] at kept
  exact List.mem_map.mp kept

section Frames

variable [DecidableEq Queue] {store : Store Queue Slot} {frame : Frame Queue}
    {rest : List (Frame Queue)} {impl : Ptr}

/-- Without its front, a heap holds the timers behind it. -/
theorem Store.waits_popHeap {front : Ptr} {left : List Ptr}
    (heap : (store.queues queue).heap = front :: left) (nodup : (front :: left).Nodup) :
    (store.setHeap queue (BinaryHeap.popHeap store.expiry (store.queues queue).heap)).Waits
        queue impl ↔
      store.Waits queue impl ∧ impl ≠ front := by
  have popped : (BinaryHeap.popHeap store.expiry (store.queues queue).heap).Perm left := by
    rw [heap]
    exact BinaryHeap.popHeap_perm store.expiry front left
  rw [Waits, queues_setHeap_self, Waits, popped.mem_iff, heap, List.mem_cons]
  constructor
  · rintro ⟨member, waiting⟩
    refine ⟨⟨Or.inr member, waiting⟩, ?_⟩
    rintro rfl
    exact (List.nodup_cons.mp nodup).1 member
  · rintro ⟨⟨member, waiting⟩, apart⟩
    exact ⟨member.resolve_left apart, waiting⟩

omit [DecidableEq Queue] in
/-- A timer that is fired again was not cancelled before its first firing. -/
theorem Progress.uncancelled_of_mem (progress : Progress start queue now leaves log fired view)
    {early : List (TimerEvent Queue)} (here : early ++ [start.firing queue impl] <+: log) :
    start.cancellation queue impl ∉ early := by
  have logged : start.firing queue impl ∈ log :=
    here.subset (List.mem_append_right _ List.mem_cons_self)
  rcases progress.mem_log rfl logged with ⟨other, member, equal⟩
  rw [← Store.cancellation_eq equal]
  exact progress.uncancelled other member early (equal ▸ here)

omit [DecidableEq Queue] in
/-- What waits behind a timer that is fired, and has expired, is still to be fired. -/
theorem Progress.waiting_behind (progress : Progress start queue now leaves log fired view)
    {front : Ptr} (same : view.1.firing queue front = start.firing queue front) {impl : Ptr}
    (waits : view.1.Waits queue impl) (apart : impl ≠ front) (expired : view.1.expiry impl ≤ now)
    (least : view.1.expiry front ≤ view.1.expiry impl) :
    start.Due queue now impl ∧ impl ∉ fired ++ [front] ∧
      view.1.firing queue impl = start.firing queue impl ∧
      start.cancellation queue impl ∉ log ++ [start.firing queue front] ∧
      ∀ early ∈ fired ++ [front], start.expiry early ≤ start.expiry impl := by
  rcases progress.waiting impl waits expired with ⟨isDue, unfired, unchanged, unlogged, sorted⟩
  refine ⟨isDue, List.not_mem_append unfired (by simpa using apart), unchanged,
    List.not_mem_append unlogged (by simp [Store.cancellation, Store.firing]),
    fun early member => ?_⟩
  rcases List.mem_append.mp member with old | new
  · exact sorted early old
  · rw [(Store.firing_eq_iff.mp same).2.1, (Store.firing_eq_iff.mp unchanged).2.1] at least
    rwa [List.mem_singleton.mp new]

omit [DecidableEq Queue] in
/-- What is due is fired, has been cancelled, or waits behind the timer that is fired. -/
theorem Progress.covered_behind (progress : Progress start queue now leaves log fired view)
    (front : Ptr) {impl : Ptr} (isDue : start.Due queue now impl) :
    impl ∈ fired ++ [front] ∨
      start.cancellation queue impl ∈ log ++ [start.firing queue front] ∨
      (view.1.Waits queue impl ∧ impl ≠ front) ∧
        view.1.firing queue impl = start.firing queue impl := by
  rcases progress.covered impl isDue with done | cancelled | ⟨waits, unchanged⟩
  · exact .inl (List.mem_append_left _ done)
  · exact .inr (.inl (List.mem_append_left _ cancelled))
  · by_cases equal : impl = front
    · exact .inl (List.mem_append_right _ (List.mem_singleton.mpr equal))
    · exact .inr (.inr ⟨⟨waits, equal⟩, unchanged⟩)

omit [DecidableEq Queue] in
/-- A timer that has been fired and is not being fired has been fired before. -/
theorem fired_before {front : Ptr} (member : impl ∈ fired ++ [front])
    (past : ∀ running ∈ [Frame.mk queue now leaves (some front)], running.timer ≠ some impl) :
    impl ∈ fired ∧ impl ≠ front := by
  have apart : impl ≠ front := fun equal => past _ List.mem_cons_self (equal ▸ rfl)
  exact ⟨(List.mem_append.mp member).resolve_right (by simpa using apart), apart⟩

/-- The front of the heap is fired. -/
theorem Progress.fire {front : Ptr} {left : List Ptr}
    (progress : Progress start queue now leaves log fired (store, frame :: rest))
    (tidy : Tidy (store, frame :: rest)) (idle : frame.timer = none)
    (heap : (store.queues frame.queue).heap = front :: left) (waiting : store.pending front)
    (due : store.expiry front ≤ frame.now) :
    Progress start queue now leaves (log ++ [start.firing queue front]) (fired ++ [front])
      ((store.setHeap frame.queue
          (BinaryHeap.popHeap store.expiry (store.queues frame.queue).heap)).record
        (.fired frame.queue (store.impls front).id (store.impls front).expiry
          (store.impls front).interval),
        { frame with timer := some front } :: rest) := by
  have renumbers := effect_renumbers
    (.starts rfl idle heap waiting due : Effect .declare none (store, frame :: rest) _)
  have stage := progress.stage
  cases stage with
  | calling => cases idle
  | between count =>
      have nodup := tidy.arranged.nodup queue
      have ordered := tidy.arranged.ordered queue
      rw [heap] at nodup ordered
      have present : ∀ impl, (store.setHeap queue
          (BinaryHeap.popHeap store.expiry (store.queues queue).heap)).Waits queue impl ↔
          store.Waits queue impl ∧ impl ≠ front :=
        fun _ => Store.waits_popHeap heap nodup
      have frontWaits : store.Waits queue front := ⟨heap ▸ List.mem_cons_self, waiting⟩
      rcases progress.waiting front frontWaits due with ⟨isDue, unfired, same, unlogged, sorted⟩
      exact {
        logged := by
          rw [← same, ← List.append_assoc, ← progress.logged]
          rfl
        firings := by
          rw [List.filter_append, progress.firings, List.map_append]
          rfl
        dispatches := by
          rw [List.filter_append, progress.dispatches]
          rfl
        due := by
          intro impl member
          rcases List.mem_append.mp member with old | new
          · exact progress.due impl old
          · exact List.mem_singleton.mp new ▸ isDue
        once := by
          refine List.nodup_append.mpr ⟨progress.once, List.nodup_singleton front, ?_⟩
          rintro impl old other new rfl
          exact unfired (List.mem_singleton.mp new ▸ old)
        sorted := by
          refine List.pairwise_append.mpr
            ⟨progress.sorted, List.pairwise_singleton _ front, fun impl old other new => ?_⟩
          exact List.mem_singleton.mp new ▸ sorted impl old
        uncancelled := by
          intro impl _ early here
          rcases List.prefix_concat_iff.mp here with equal | shorter
          · obtain ⟨rfl, last⟩ := List.append_inj' equal rfl
            rwa [Store.cancellation_eq (List.singleton_inj.mp last)]
          · exact progress.uncancelled_of_mem shorter
        stage := .calling rfl count same (Or.inl waiting)
        waiting := by
          intro impl waits expired
          rcases (present impl).mp waits with ⟨before, apart⟩
          exact progress.waiting_behind same before apart expired
            (ordered.front_le (heap ▸ before.1))
        covered := by
          intro impl isDue'
          exact (progress.covered_behind front isDue').imp_right
            (Or.imp_right (And.imp_left (present impl).mpr))
        periodic := by
          intro impl member past positive
          rcases fired_before member past with ⟨old, apart⟩
          rcases progress.periodic impl old (by simp) positive with cancelled | ⟨waits, again⟩
          · exact Or.inl (List.mem_append_left _ cancelled)
          · exact Or.inr ⟨(present impl).mpr ⟨waits, apart⟩, again⟩
        oneShot := by
          intro impl member past single
          rcases fired_before member past with ⟨old, -⟩
          exact renumbers.gone (progress.oneShot impl old (by simp) single)
        finished := by
          intro returned
          cases returned }

omit [DecidableEq Queue] in
/-- No timer that waits has expired, and the dispatch returns. -/
theorem Progress.finish
    (progress : Progress start queue now leaves log fired (store, frame :: rest))
    (idle : frame.timer = none)
    (undue : ∀ impl, store.Waits frame.queue impl → frame.now < store.expiry impl) :
    Progress start queue now leaves (log ++ [.dispatched queue fired.length]) fired
      (store.record (.dispatched frame.queue frame.work), rest) := by
  have stage := progress.stage
  cases stage with
  | calling => cases idle
  | between count =>
      exact { progress with
        logged := by
          rw [← List.append_assoc, ← progress.logged, ← count]
          rfl
        firings := by
          rw [List.filter_append, progress.firings]
          exact List.append_nil _
        dispatches := by
          rw [List.filter_append, progress.dispatches]
          rfl
        uncancelled := by
          intro impl member early here
          rcases List.prefix_concat_iff.mp here with equal | shorter
          · have last := (List.append_inj' equal rfl).2
            cases List.singleton_inj.mp last
          · exact progress.uncancelled impl member early shorter
        stage := .returned count
        waiting := fun impl waits expired => absurd (undue impl waits) (not_lt_of_ge expired)
        covered := by
          intro impl isDue
          refine (progress.covered impl isDue).imp_right (Or.imp_left fun cancelled => ?_)
          exact List.mem_append_left _ cancelled
        periodic := by
          intro impl member _ positive
          refine (progress.periodic impl member (by simp) positive).imp_left fun cancelled => ?_
          exact List.mem_append_left _ cancelled
        oneShot := by
          intro impl member _ single
          have gone := progress.oneShot impl member (by simp) single
          refine ⟨gone.given, fun other queued => gone.absent other ?_⟩
          rcases queued with present | ⟨frame, member, -, -⟩
          · exact Or.inl present
          · cases member
        finished := fun _ => undue }

omit [DecidableEq Queue] in
/--
The callback of a timer ends.  Other timers stay as they are, and the timer
itself waits for a later time, or does not wait.
-/
theorem Progress.leave {store' : Store Queue Slot}
    (progress : Progress start queue now leaves log fired (store, frame :: rest))
    (held : frame.timer = some impl)
    (renumbers : Renumbers (store, frame :: rest) (store', frame.next :: rest))
    (logged : store'.log = store.log)
    (others : ∀ other, other ≠ impl → store'.impls other = store.impls other)
    (heap : ∀ other, other ≠ impl →
      (other ∈ (store'.queues queue).heap ↔ other ∈ (store.queues queue).heap))
    (later : store'.Waits queue impl → now < store'.expiry impl)
    (again : 0 < (start.impls impl).interval →
      start.cancellation queue impl ∈ log ∨
        store'.Waits queue impl ∧ store'.firing queue impl = start.refiring queue now impl)
    (gone : ¬ 0 < (start.impls impl).interval →
      Gone (store', frame.next :: rest) queue (start.impls impl).id) :
    Progress start queue now (leaves + 1) log fired (store', frame.next :: rest) := by
  have same : ∀ other, other ≠ impl →
      (store'.Waits queue other ↔ store.Waits queue other) ∧
        store'.firing queue other = store.firing queue other ∧
        store'.expiry other = store.expiry other := by
    intro other apart
    rw [Store.Waits, Store.Waits, heap other apart, Store.pending, Store.pending, Store.firing,
      Store.firing, Store.expiry, Store.expiry, others other apart]
    exact ⟨Iff.rfl, rfl, rfl⟩
  have stage := progress.stage
  cases stage with
  | between => cases held
  | @calling early timer last count unchanged ongoing =>
      obtain rfl := Option.some.inj held
      have past : ∀ other, other ≠ timer →
          ∀ running ∈ [Frame.mk queue now leaves (some timer)], running.timer ≠ some other := by
        intro other apart running member equal
        rw [List.mem_singleton.mp member] at equal
        exact apart (Option.some.inj equal).symm
      have called : timer ∈ fired := last ▸ List.mem_append_right _ List.mem_cons_self
      exact { progress with
        logged := logged.trans progress.logged
        stage := by
          refine .between ?_
          rw [last, List.length_append, count]
          rfl
        waiting := by
          intro other waits expired
          have apart : other ≠ timer := by
            rintro rfl
            exact absurd (later waits) (not_lt_of_ge expired)
          rcases same other apart with ⟨waits', data, expiry⟩
          rw [data]
          exact progress.waiting other (waits'.mp waits) (expiry ▸ expired)
        covered := by
          intro other isDue
          rcases progress.covered other isDue with done | cancelled | ⟨waits, unchanged⟩
          · exact Or.inl done
          · exact Or.inr (Or.inl cancelled)
          · by_cases equal : other = timer
            · exact Or.inl (equal ▸ called)
            · rcases same other equal with ⟨waits', data, -⟩
              exact Or.inr (Or.inr ⟨waits'.mpr waits, data.trans unchanged⟩)
        periodic := by
          intro other member _ positive
          by_cases equal : other = timer
          · subst equal
            exact again positive
          · rcases same other equal with ⟨waits', data, -⟩
            rw [waits', data]
            exact progress.periodic other member (past other equal) positive
        oneShot := by
          intro other member _ single
          by_cases equal : other = timer
          · subst equal
            exact gone single
          · exact renumbers.gone (progress.oneShot other member (past other equal) single)
        finished := by
          intro returned
          cases returned }

omit [DecidableEq Queue] in
/-- A timer that is let go of and does not wait does not come back. -/
theorem Tidy.gone {store' : Store Queue Slot} (tidy : Tidy (store, frame :: rest))
    (held : frame.timer = some impl) (id : store'.id = store.id)
    (queues : store'.queues = store.queues) :
    Gone (store', frame.next :: rest) frame.queue (store.id impl) := by
  have own : InQueue (store, frame :: rest) frame.queue impl := .running List.mem_cons_self held
  refine ⟨?_, fun other queued same => ?_⟩
  · rw [queues]
    exact tidy.numbered.bounded frame.queue impl own
  · rw [id] at same
    rcases queued with present | ⟨running, member, own', held'⟩
    · have present : other ∈ (store.queues frame.queue).heap := queues ▸ present
      have equal := tidy.numbered.distinct frame.queue other impl (Or.inl present) own same
      exact (tidy.arranged.running frame List.mem_cons_self impl held).2 frame.queue
        (equal ▸ present)
    · rcases List.mem_cons.mp member with rfl | old
      · cases held'
      · have equal := tidy.numbered.distinct frame.queue other impl
          (Or.inr ⟨running, List.mem_cons_of_mem _ old, own', held'⟩) own same
        exact tidy.arranged.held_alone held old (equal ▸ held')

omit [DecidableEq Queue] in
/-- The timer whose callback is running, as it was when the dispatch began. -/
theorem Progress.held (progress : Progress start queue now leaves log fired (store, frame :: rest))
    (held : frame.timer = some impl) :
    frame.queue = queue ∧ frame.now = now ∧
      store.firing queue impl = start.firing queue impl ∧
      (store.pending impl ∨ start.cancellation queue impl ∈ log) := by
  have stage := progress.stage
  cases stage with
  | between => cases held
  | calling last count same ongoing =>
      obtain rfl := Option.some.inj held
      exact ⟨rfl, rfl, same, ongoing⟩

theorem Progress.reschedule
    (progress : Progress start queue now leaves log fired (store, frame :: rest))
    (held : frame.timer = some impl) (waiting : store.pending impl)
    (periodic : (store.impls impl).interval > 0) :
    Progress start queue now (leaves + 1) log fired
      ((store.setExpiry impl
          (max ((store.impls impl).expiry + (store.impls impl).interval)
            (frame.now + 1))).setHeap frame.queue
        (BinaryHeap.pushHeap
          (store.setExpiry impl
            (max ((store.impls impl).expiry + (store.impls impl).interval)
              (frame.now + 1))).expiry
          (store.queues frame.queue).heap impl), frame.next :: rest) := by
  rcases progress.held held with ⟨own, time, same, -⟩
  rcases Store.firing_eq_iff.mp same with ⟨number, expiry, interval⟩
  rw [Store.expiry, Store.expiry] at expiry
  have renumbers := effect_renumbers
    (.reschedules rfl rfl held waiting periodic (.refl _) :
      Effect .leave none (store, frame :: rest) _)
  have positive : 0 < (start.impls impl).interval := interval ▸ periodic
  have pushed : ∀ key : Ptr → Int, ∀ other, other ∈ ((store.setHeap frame.queue
      (BinaryHeap.pushHeap key (store.queues frame.queue).heap impl)).queues queue).heap ↔
        other = impl ∨ other ∈ (store.queues queue).heap := by
    intro key other
    rw [← own, Store.queues_setHeap_self]
    exact (BinaryHeap.pushHeap_perm key _ impl).mem_iff.trans List.mem_cons
  refine progress.leave held renumbers rfl (fun other apart => ?_) (fun other apart => ?_)
    (fun _ => ?_) (fun _ => Or.inr ⟨⟨(pushed _ impl).mpr (Or.inl rfl), ?_⟩, ?_⟩)
    (fun single => absurd positive single)
  · simp [Store.setHeap, Store.setQueue, Store.setExpiry, Store.setImpl, apart]
  · exact (pushed _ other).trans (or_iff_right apart)
  · simp only [Store.expiry, Store.setHeap, Store.setQueue, Store.setExpiry, Store.setImpl,
      Function.update_self, time]
    exact lt_of_lt_of_le (Int.lt_succ now) (le_max_right _ _)
  · simpa [Store.pending, Store.setHeap, Store.setQueue, Store.setExpiry, Store.setImpl]
      using waiting
  · simp only [Store.firing, Store.refiring, Store.setHeap, Store.setQueue, Store.setExpiry,
      Store.setImpl, Function.update_self, time, number, expiry, interval]

theorem Progress.expire
    (progress : Progress start queue now leaves log fired (store, frame :: rest))
    (tidy : Tidy (store, frame :: rest)) (held : frame.timer = some impl)
    (waiting : store.pending impl) (oneShot : ¬ (store.impls impl).interval > 0) :
    Progress start queue now (leaves + 1) log fired
      (store.resetSlot impl, frame.next :: rest) := by
  rcases progress.held held with ⟨own, -, same, -⟩
  rcases Store.firing_eq_iff.mp same with ⟨number, -, interval⟩
  have renumbers := effect_renumbers
    (.expires rfl rfl held waiting oneShot (.refl _) :
      Effect .leave none (store, frame :: rest) _)
  refine progress.leave held renumbers rfl (fun other apart => ?_) (fun _ _ => Iff.rfl)
    (fun waits => ?_) (fun positive => absurd (interval ▸ positive) oneShot) (fun _ => ?_)
  · simp [Store.resetSlot, Store.setImpl, apart]
  · have waiting' := waits.2
    rw [Store.pending_resetSlot_self] at waiting'
    cases waiting'
  · rw [← number, ← own]
    exact tidy.gone held (Store.id_resetSlot store impl) rfl

omit [DecidableEq Queue] in
theorem Progress.end
    (progress : Progress start queue now leaves log fired (store, frame :: rest))
    (tidy : Tidy (store, frame :: rest)) (held : frame.timer = some impl)
    (ended : store.pending impl = false) :
    Progress start queue now (leaves + 1) log fired (store, frame.next :: rest) := by
  rcases progress.held held with ⟨own, -, same, ongoing⟩
  have idle : ¬ store.pending impl = true := by simp [ended]
  refine progress.leave held ?_ rfl (fun _ _ => rfl) (fun _ _ => Iff.rfl)
    (fun waits => absurd waits.2 idle) (fun _ => Or.inl (ongoing.resolve_left idle)) (fun _ => ?_)
  · exact .of_subset rfl (fun _ => rfl) (fun _ _ present => Or.inl present) (.behind rfl)
  · rw [← (Store.firing_eq_iff.mp same).1, ← own]
    exact tidy.gone held rfl rfl

end Frames

/-! ## What callbacks may do -/

namespace TimerAction

/--
The handle that a callback was passed is left alone, and callbacks throw nothing
that the dispatch does not catch.
-/
def Keeps (action : TimerAction Queue Slot) : Prop :=
  action.Plain ∧ ¬ action.takesArg

/-- What is inserted into the queue expires after `now`; nothing else is dispatched. -/
def AllowedIn (queue : Queue) (now : Int) : TimerAction Queue Slot → Prop
  | .insert _ home expiry _ _ => home = queue → now < expiry
  | .setInterval _ _ | .dispatch _ _ => False
  | _ => True

end TimerAction

section Effects

variable [DecidableEq Queue] {action : TimerAction Queue Slot} {chosen : Option Ptr}

omit [DecidableEq Queue] in
/-- Where the front has not expired, nothing has. -/
theorem Store.undue_of_front {store : Store Queue Slot} {limit : Int}
    (ordered : BinaryHeap.IsHeap store.expiry (store.queues queue).heap)
    (undue : ∀ impl, store.front queue = some impl → limit < store.expiry impl)
    {impl : Ptr} (present : impl ∈ (store.queues queue).heap) : limit < store.expiry impl := by
  cases heap : (store.queues queue).heap with
  | nil =>
      rw [heap] at present
      cases present
  | cons front rest =>
      rw [heap] at ordered present
      refine lt_of_lt_of_le (undue front ?_) (ordered.front_le present)
      rw [Store.front, heap]
      rfl

theorem Progress.effect (progress : Progress start queue now leaves log fired view)
    (tidy : Tidy view) (effect : Effect action chosen view view')
    (keeps : ¬ action.takesArg) (allowed : action.AllowedIn queue now)
    (staying : action ≠ .leave) :
    ∃ log fired, Progress start queue now leaves log fired view' := by
  cases effect with
  | collects collected =>
      rcases quiet_collects queue now _ collected with ⟨more, quiet⟩
      exact ⟨_, _, progress.quiet quiet⟩
  | cancels choice alive waiting collected rested =>
      rcases quiet_cancels queue now tidy alive waiting collected rested with ⟨more, quiet⟩
      exact ⟨_, _, progress.quiet quiet⟩
  | setsInterval impl interval asked =>
      subst asked
      exact allowed.elim
  | inserts home expiry interval slot asked fresh unheld =>
      subst asked
      exact ⟨_, _, progress.quiet (quiet_inserts home expiry interval slot fresh unheld allowed)⟩
  | forgets frame asked => exact absurd asked keeps
  | enters home time asked =>
      subst asked
      exact allowed.elim
  | starts choice idle heap waiting due => exact ⟨_, _, progress.fire tidy idle heap waiting due⟩
  | @finishes store middle store' frame rest choice idle collected undue collected' rested =>
      rcases quiet_collects queue now (frame :: rest) (collected.trans collected') with
        ⟨more, quiet⟩
      refine ⟨_, _, (progress.quiet quiet).finish idle fun impl waits => ?_⟩
      rw [collected'.timers.expiry]
      exact Store.undue_of_front ((tidy.arranged.collects collected).ordered frame.queue) undue
        ((collected'.heap frame.queue).subset waits.1)
  | reschedules asked => exact absurd asked staying
  | expires asked => exact absurd asked staying
  | ends asked => exact absurd asked staying
  | forgot asked => exact absurd asked staying

theorem Progress.effects (progress : Progress start queue now leaves log fired view)
    (tidy : Tidy view) (effects : Effects action chosen view view')
    (keeps : ¬ action.takesArg) (allowed : action.AllowedIn queue now)
    (staying : action ≠ .leave) :
    ∃ log fired, Progress start queue now leaves log fired view' := by
  induction effects with
  | refl => exact ⟨log, fired, progress⟩
  | tail earlier effect ih =>
      rcases ih with ⟨log, fired, progress⟩
      exact progress.effect (tidy.effects earlier keeps) effect keeps allowed staying

end Effects

end ReactiveToolbox.Io
