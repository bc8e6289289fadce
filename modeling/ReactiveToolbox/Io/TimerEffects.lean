import Mathlib.Logic.Relation
import ReactiveToolbox.Io.TimerCollect
import ReactiveToolbox.Io.TimerRefs

/-!
# What an action does to queues and dispatches

The counts of handles matter for the pool.  For the queues it is enough to know
which timer an action cancels, if any: everything else it does is one of a few
effects on the timers, the heaps and the running dispatches.
-/

namespace ReactiveToolbox.Io

open ReactiveToolbox.Lib

universe u v

/-- The timers and the running dispatches, without the user's handles. -/
abbrev View (Queue : Type u) (Slot : Type v) := Store Queue Slot × List (Frame Queue)

section Effects

variable {Queue : Type u} {Slot : Type v} [DecidableEq Queue]

/-- The action empties the handle that a callback was passed. -/
def TimerAction.takesArg : TimerAction Queue Slot → Prop
  | .move _ source => source = .arg
  | .reset target => target = .arg
  | _ => False

/-- A frame at the end of its callback. -/
def Frame.next (frame : Frame Queue) : Frame Queue :=
  { frame with timer := none, work := frame.work + 1 }

/-- The effects an action is made of; `chosen` is the timer that it may cancel. -/
inductive Effect (action : TimerAction Queue Slot) (chosen : Option Ptr) :
    View Queue Slot → View Queue Slot → Prop where
  | collects {store store' : Store Queue Slot} {frames : List (Frame Queue)}
      (collected : store.Collects store') :
      Effect action chosen (store, frames) (store', frames)
  | cancels {store store' : Store Queue Slot} {frames : List (Frame Queue)} {impl : Ptr}
      (choice : chosen = some impl)
      (alive : store.Allocated impl)
      (waiting : store.pending impl)
      (collected : (store.retire impl).Collects store')
      (rested : store'.Rested (store.impls impl).tq) :
      Effect action chosen (store, frames) (store', frames)
  | setsInterval {store : Store Queue Slot} {frames : List (Frame Queue)}
      (impl : Ptr) (interval : Int) {target : Ref}
      (asked : action = .setInterval target interval) :
      Effect action chosen (store, frames) (store.setInterval impl interval, frames)
  | inserts {store : Store Queue Slot} {frames : List (Frame Queue)}
      (queue : Queue) (expiry interval : Int) (slot : Slot) {target : Ref}
      (asked : action = .insert target queue expiry interval slot)
      (fresh : ∀ other, store.poolAlloc.1 ∉ (store.queues other).heap)
      (unheld : ∀ frame ∈ frames, frame.timer ≠ some store.poolAlloc.1) :
      Effect action chosen (store, frames) ((store.insert queue expiry interval slot).2, frames)
  | forgets {store : Store Queue Slot} {rest : List (Frame Queue)} (frame : Frame Queue)
      (asked : action.takesArg) :
      Effect action chosen (store, frame :: rest) (store, { frame with timer := none } :: rest)
  | enters {store : Store Queue Slot} {frames : List (Frame Queue)} (queue : Queue) (now : Int)
      (asked : action = .dispatch queue now) :
      Effect action chosen (store, frames)
        (store, { queue, now, work := 0, timer := none } :: frames)
  | starts {store : Store Queue Slot} {frame : Frame Queue} {rest : List (Frame Queue)}
      {front : Ptr} {left : List Ptr}
      (choice : chosen = none)
      (idle : frame.timer = none)
      (heap : (store.queues frame.queue).heap = front :: left)
      (waiting : store.pending front)
      (due : store.expiry front ≤ frame.now) :
      Effect action chosen (store, frame :: rest)
        ((store.setHeap frame.queue
            (BinaryHeap.popHeap store.expiry (store.queues frame.queue).heap)).record
          (.fired frame.queue (store.impls front).id (store.impls front).expiry
            (store.impls front).interval),
          { frame with timer := some front } :: rest)
  | finishes {store middle store' : Store Queue Slot} {frame : Frame Queue}
      {rest : List (Frame Queue)}
      (choice : chosen = none)
      (idle : frame.timer = none)
      (collected : store.Collects middle)
      (undue : ∀ impl, middle.front frame.queue = some impl → frame.now < middle.expiry impl)
      (collected' : middle.Collects store')
      (rested : store'.Rested frame.queue) :
      Effect action chosen (store, frame :: rest)
        (store'.record (.dispatched frame.queue frame.work), rest)
  | reschedules {store store' : Store Queue Slot} {frame : Frame Queue}
      {rest : List (Frame Queue)} {impl : Ptr}
      (asked : action = .leave)
      (choice : chosen = none)
      (held : frame.timer = some impl)
      (waiting : store.pending impl)
      (periodic : (store.impls impl).interval > 0)
      (collected : ((store.setExpiry impl
          (max ((store.impls impl).expiry + (store.impls impl).interval)
            (frame.now + 1))).setHeap frame.queue
        (BinaryHeap.pushHeap
          (store.setExpiry impl
            (max ((store.impls impl).expiry + (store.impls impl).interval)
              (frame.now + 1))).expiry
          (store.queues frame.queue).heap impl)).Collects store') :
      Effect action chosen (store, frame :: rest) (store', frame.next :: rest)
  | expires {store store' : Store Queue Slot} {frame : Frame Queue}
      {rest : List (Frame Queue)} {impl : Ptr}
      (asked : action = .leave)
      (choice : chosen = none)
      (held : frame.timer = some impl)
      (waiting : store.pending impl)
      (oneShot : ¬ (store.impls impl).interval > 0)
      (collected : (store.resetSlot impl).Collects store') :
      Effect action chosen (store, frame :: rest) (store', frame.next :: rest)
  | ends {store store' : Store Queue Slot} {frame : Frame Queue}
      {rest : List (Frame Queue)} {impl : Ptr}
      (asked : action = .leave)
      (choice : chosen = none)
      (held : frame.timer = some impl)
      (ended : store.pending impl = false)
      (collected : store.Collects store') :
      Effect action chosen (store, frame :: rest) (store', frame.next :: rest)
  | forgot {store : Store Queue Slot} {frame : Frame Queue} {rest : List (Frame Queue)}
      (asked : action = .leave)
      (idle : frame.timer = none) :
      Effect action chosen (store, frame :: rest) (store, frame.next :: rest)

/-- The effects of an action, one after another. -/
abbrev Effects (action : TimerAction Queue Slot) (chosen : Option Ptr) :
    View Queue Slot → View Queue Slot → Prop :=
  Relation.ReflTransGen (Effect action chosen)

/-! ## Handles that are released -/

variable {store : Store Queue Slot} {frames : List (Frame Queue)} {chosen : Option Ptr}
    {action : TimerAction Queue Slot}

theorem release_effects {impl : Ptr} (alive : store.Allocated impl)
    (choice : store.lastHandle impl → chosen = some impl) :
    Effects action chosen (store, frames) (store.release impl, frames) := by
  by_cases last : store.lastHandle impl
  · rcases Store.release_effect_last last with ⟨collected, rested⟩
    exact .single
      (.cancels (choice last) alive (Store.lastHandle_iff.mp last).1 collected rested)
  · exact .single (.collects (Store.release_collects (by simpa using last)))

theorem releaseTimer_effects {timer : Option Ptr}
    (alive : ∀ impl, timer = some impl → store.Allocated impl)
    (choice : ∀ impl, timer = some impl → store.lastHandle impl → chosen = some impl) :
    Effects action chosen (store, frames) (store.releaseTimer timer, frames) := by
  cases timer with
  | none => exact .refl
  | some impl => exact release_effects (alive impl rfl) (choice impl rfl)

end Effects

namespace Machine

variable {Queue : Type u} {Slot : Type v} [DecidableEq Queue]
    {machine machine' : Machine Queue Slot}

/-- The timer that is cancelled when a handle drops it. -/
def droppedBy (machine : Machine Queue Slot) (target : Ref) : Option Ptr :=
  (machine.get target).join.filter machine.store.lastHandle

/-- The pending timer that an action cancels. -/
def cancelledBy (machine : Machine Queue Slot) : TimerAction Queue Slot → Option Ptr
  | .cancel target => (machine.get target).join.filter machine.store.pending
  | .reset target => machine.droppedBy target
  | .insert target _ _ _ _ => machine.droppedBy target
  | .copy target source =>
      if machine.get target = machine.get source then none else machine.droppedBy target
  | .move target source => if target = source then none else machine.droppedBy target
  | _ => none

end Machine

namespace TimerAction

variable {Queue : Type u} {Slot : Type v}

/--
Nothing is assigned to the handle that a callback was passed, and callbacks
throw nothing that the dispatch does not catch.
-/
def Plain : TimerAction Queue Slot → Prop
  | .insert target _ _ _ _ => target ≠ .arg
  | .copy target _ => target ≠ .arg
  | .move target _ => target ≠ .arg
  | .unwind => False
  | _ => True

instance (action : TimerAction Queue Slot) : Decidable action.Plain :=
  match action with
  | .insert _ _ _ _ _ => inferInstanceAs (Decidable (_ ≠ _))
  | .copy _ _ => inferInstanceAs (Decidable (_ ≠ _))
  | .move _ _ => inferInstanceAs (Decidable (_ ≠ _))
  | .unwind => instDecidableFalse
  | .declare | .reset _ | .cancel _ | .setInterval _ _ | .dispatch _ _ | .leave =>
      instDecidableTrue

end TimerAction

namespace Store

variable {Queue : Type u} {Slot : Type v} [DecidableEq Queue] [Fintype Queue]
    {store : Store Queue Slot} {outside : Ptr → Nat} {impl : Ptr}

/-- A pending timer in use counts at least two handles. -/
theorem Counted.two_le (counted : store.Counted outside)
    (live : 0 < store.refs outside impl) (waiting : store.pending impl) :
    2 ≤ (store.impls impl).refCount := by
  rw [counted.cells.counted impl (counted.cells.allocs_pos live)]
  exact_mod_cast counted.held impl live waiting

/-- A timer with a handle is in use. -/
theorem Counted.alive (counted : store.Counted outside)
    (live : 0 < store.refs outside impl) : store.Allocated impl :=
  ⟨counted.cells.lt_bound live, fun free =>
    absurd ((counted.cells.free_iff impl).mp free).2 (Nat.ne_of_gt live)⟩

omit [Fintype Queue] in
/-- A pending front that is popped only leaves the heap. -/
theorem pop_eq_setHeap (queue : Queue) (many : 2 ≤ (store.impls impl).refCount) :
    pop release store queue impl =
      store.setHeap queue (BinaryHeap.popHeap store.expiry (store.queues queue).heap) := by
  have count : ((((store.addRef impl).setHeap queue
      (BinaryHeap.popHeap store.expiry (store.queues queue).heap)).addCount impl (-1)).impls
        impl).refCount = (store.impls impl).refCount := by
    simp [addCount, addRef, setImpl, setHeap, Store.setQueue]
  rw [pop, release, count, if_neg (by omega), if_neg (by omega)]
  have same : { store.impls impl with refCount := (store.impls impl).refCount + 1 + -1 } =
      store.impls impl := by
    rw [Int.add_neg_cancel_right]
  simp only [addCount, addRef, setImpl, setHeap, Store.setQueue, Function.update_self,
    Function.update_idem, same, Function.update_eq_self]

omit [Fintype Queue] in
theorem push_collects (store : Store Queue Slot) (queue : Queue) (impl : Ptr) :
    (store.setHeap queue
      (BinaryHeap.pushHeap store.expiry (store.queues queue).heap impl)).Collects
        (store.push queue impl) :=
  .addCount _ impl 1

end Store

namespace Machine

variable {Queue : Type u} {Slot : Type v} [DecidableEq Queue] [Fintype Queue]
    {machine machine' : Machine Queue Slot} {chosen : Option Ptr}
    {action : TimerAction Queue Slot}

theorem Counted.alive (counted : machine.Counted) {ref : Ref} {impl : Ptr}
    (found : machine.get ref = some (some impl)) : machine.store.Allocated impl :=
  Store.Counted.alive counted (Nat.add_pos_right _ (outside_get_pos found))

/-- The loop of a dispatch up to the next callback. -/
theorem advance_effects (counted : machine.Counted) {frame : Frame Queue}
    (idle : frame.timer = none) :
    Effects action none (machine.store, frame :: machine.frames)
      ((machine.advance frame).store, (machine.advance frame).frames) := by
  have dropped : (machine.store.dropAllDead frame.queue).Counted machine.outside :=
    Store.Counted.dropDead counted
  have collected : machine.store.Collects (machine.store.dropAllDead frame.queue) :=
    Store.dropDead_collects _ _ _
  have first : ∀ impl, (machine.store.dropAllDead frame.queue).front frame.queue = some impl →
      (machine.store.dropAllDead frame.queue).pending impl :=
    fun _ present => Store.dropDead_front (Nat.le_refl _) present
  have finished
      (undue : ∀ impl, (machine.store.dropAllDead frame.queue).front frame.queue = some impl →
        frame.now < (machine.store.dropAllDead frame.queue).expiry impl) :
      Effects action none (machine.store, frame :: machine.frames)
        (((machine.store.dropAllDead frame.queue).gc frame.queue).record
          (.dispatched frame.queue frame.work), machine.frames) :=
    .single (.finishes rfl idle collected undue (Store.gc_collects _ _) (Store.gc_rested first))
  unfold Machine.advance
  simp only
  split
  · rename_i heap
    refine finished fun impl present => ?_
    rw [Store.front, heap] at present
    cases present
  · rename_i front left heap
    have present : (machine.store.dropAllDead frame.queue).front frame.queue = some front := by
      rw [Store.front, heap]
      rfl
    split
    · rename_i due
      have waiting := first front present
      have live : 0 < (machine.store.dropAllDead frame.queue).refs machine.outside front :=
        Store.refs_pos_of_mem (heap ▸ List.mem_cons_self)
      rw [Store.pop_eq_setHeap frame.queue (dropped.two_le live waiting)]
      exact .tail (.single (.collects collected)) (.starts rfl idle heap waiting due)
    · rename_i later
      refine finished fun impl isFront => ?_
      obtain rfl := Option.some.inj (present.symm.trans isFront)
      exact lt_of_not_ge later

/-- At the end of its callback a timer goes back into the heap, expires, or has ended before. -/
theorem expireEnd_cases (counted : machine.Counted) {frame : Frame Queue}
    {rest : List (Frame Queue)} (frames : machine.frames = frame :: rest) {impl : Ptr}
    (held : frame.timer = some impl) :
    (machine.store.pending impl ∧ (machine.store.impls impl).interval > 0 ∧
      ((machine.store.setExpiry impl
          (max ((machine.store.impls impl).expiry + (machine.store.impls impl).interval)
            (frame.now + 1))).setHeap frame.queue
        (BinaryHeap.pushHeap
          (machine.store.setExpiry impl
            (max ((machine.store.impls impl).expiry + (machine.store.impls impl).interval)
              (frame.now + 1))).expiry
          (machine.store.queues frame.queue).heap impl)).Collects
        ((machine.store.expireEnd frame.queue frame.now (some impl)).release impl)) ∨
    (machine.store.pending impl ∧ ¬ (machine.store.impls impl).interval > 0 ∧
      (machine.store.resetSlot impl).Collects
        ((machine.store.expireEnd frame.queue frame.now (some impl)).release impl)) ∨
    machine.store.pending impl = false ∧
      machine.store.Collects
        ((machine.store.expireEnd frame.queue frame.now (some impl)).release impl) := by
  have live : 0 < machine.refs impl := by
    refine Nat.add_pos_right _ (Nat.add_pos_right _ (List.count_pos_iff.mpr ?_))
    rw [frames, List.map_cons, held]
    exact List.mem_cons_self
  by_cases waiting : machine.store.pending impl
  · by_cases periodic : (machine.store.impls impl).interval > 0
    · left
      rw [Store.expireEnd, if_pos waiting, if_pos periodic]
      have many := Store.Counted.two_le counted live waiting
      refine ⟨waiting, periodic, (Store.push_collects _ _ _).trans (Store.release_collects ?_)⟩
      have count : ((((machine.store.setExpiry impl
          (max ((machine.store.impls impl).expiry + (machine.store.impls impl).interval)
            (frame.now + 1))).push frame.queue impl)).impls impl).refCount =
          (machine.store.impls impl).refCount + 1 := by
        simp [Store.push, Store.setHeap, Store.setQueue, Store.addRef, Store.addCount,
          Store.setImpl, Store.setExpiry]
      rw [Store.lastHandle, count]
      simp only [Bool.and_eq_false_iff, decide_eq_false_iff_not]
      exact Or.inr (by omega)
    · right; left
      rw [Store.expireEnd, if_pos waiting, if_neg periodic]
      refine ⟨waiting, periodic, Store.release_collects ?_⟩
      simp [Store.lastHandle]
  · right; right
    rw [Store.expireEnd, if_neg waiting]
    refine ⟨by simpa using waiting, Store.release_collects ?_⟩
    simp [Store.lastHandle, waiting]

/-- The end of a callback. -/
theorem expireEnd_effect (counted : machine.Counted) {frame : Frame Queue}
    {rest : List (Frame Queue)} (frames : machine.frames = frame :: rest) :
    Effect .leave none (machine.store, frame :: rest)
      ((machine.store.expireEnd frame.queue frame.now frame.timer).releaseTimer frame.timer,
        frame.next :: rest) := by
  cases timer : frame.timer with
  | none => exact .forgot rfl timer
  | some impl =>
      rcases expireEnd_cases counted frames timer with
        ⟨waiting, periodic, collected⟩ | ⟨waiting, oneShot, collected⟩ | ⟨ended, collected⟩
      · exact .reschedules rfl rfl timer waiting periodic collected
      · exact .expires rfl rfl timer waiting oneShot collected
      · exact .ends rfl rfl timer ended collected

omit [Fintype Queue] in
theorem assign_effects {index : Nat} {value : Option Ptr}
    (alive : ∀ impl, machine.get (.var index) = some (some impl) → machine.store.Allocated impl)
    (choice : ∀ impl, machine.get (.var index) = some (some impl) →
      machine.store.lastHandle impl → chosen = some impl)
    (taken : machine.assign (.var index) value = some machine') :
    Effects action chosen (machine.store, machine.frames) (machine'.store, machine'.frames) := by
  rcases Option.map_eq_some_iff.mp taken with ⟨old, found, rfl⟩
  exact releaseTimer_effects (fun impl same => alive impl (same ▸ found))
    fun impl same last => choice impl (same ▸ found) last

omit [DecidableEq Queue] [Fintype Queue] in
theorem droppedBy_eq {target : Ref} {impl : Ptr}
    (found : machine.get target = some (some impl)) (last : machine.store.lastHandle impl) :
    machine.droppedBy target = some impl := by
  simp [droppedBy, found, last]

omit [DecidableEq Queue] [Fintype Queue] in
theorem get_put_self {ref : Ref} {old value : Option Ptr} (found : machine.get ref = some old) :
    (machine.put value ref).get ref = some value := by
  cases ref with
  | var index =>
      obtain ⟨within, -⟩ := List.getElem?_eq_some_iff.mp found
      simp [put, get, within]
  | arg =>
      rw [get] at found
      cases frames : machine.frames with
      | nil =>
          rw [frames] at found
          cases found
      | cons frame rest => simp [put, get, frames]

omit [DecidableEq Queue] [Fintype Queue] in
theorem get_put_of_ne {target source : Ref} {value : Option Ptr} (apart : target ≠ source) :
    (machine.put value source).get target = machine.get target := by
  cases source with
  | var index =>
      cases target with
      | var other =>
          have different : index ≠ other := fun same => apart (by rw [same])
          simp [put, get, different]
      | arg => rfl
  | arg =>
      cases target with
      | var other =>
          rw [put]
          split <;> rfl
      | arg => exact absurd rfl apart

omit [Fintype Queue] in
/-- A handle that is emptied may be the one that a callback was passed. -/
theorem put_effects {source : Ref} {old : Option Ptr} (found : machine.get source = some old)
    (asked : source = .arg → action.takesArg) :
    Effects action chosen (machine.store, machine.frames)
      ((machine.put none source).store, (machine.put none source).frames) := by
  rw [store_put]
  cases source with
  | var index => exact .refl
  | arg =>
      rw [get] at found
      cases frames : machine.frames with
      | nil =>
          rw [frames] at found
          cases found
      | cons frame rest =>
          simp only [put, frames]
          exact .single (.forgets frame (asked rfl))

theorem insert_effects (counted : machine.Counted) {index : Nat} {queue : Queue}
    {expiry interval : Int} {slot : Slot}
    (taken : machine.step (.insert (.var index) queue expiry interval slot) = some machine') :
    Effects (.insert (.var index) queue expiry interval slot)
      (machine.cancelledBy (.insert (.var index) queue expiry interval slot))
      (machine.store, machine.frames) (machine'.store, machine'.frames) := by
  have inserting := Store.Counted.insert counted queue expiry interval slot
  have fresh := inserting.2
  have unused : ∀ impl, 0 < machine.outside impl → impl ≠ machine.store.poolAlloc.1 := by
    rintro impl live rfl
    exact absurd fresh (Nat.ne_of_gt (Nat.add_pos_right _ live))
  have inserted : Effect (.insert (.var index) queue expiry interval slot)
      (machine.cancelledBy (.insert (.var index) queue expiry interval slot))
      (machine.store, machine.frames)
      ((machine.store.insert queue expiry interval slot).2, machine.frames) := by
    refine .inserts queue expiry interval slot rfl (fun other present => ?_)
      (fun frame running held => ?_)
    · exact absurd fresh (Nat.ne_of_gt (Store.refs_pos_of_mem present))
    · refine unused _ (Nat.add_pos_right _ (List.count_pos_iff.mpr ?_)) rfl
      exact held ▸ List.mem_map_of_mem running
  have alive : ∀ impl, machine.get (.var index) = some (some impl) →
      (machine.store.insert queue expiry interval slot).2.Allocated impl := by
    intro impl found
    exact Store.Counted.alive inserting.1
      (Nat.add_pos_right _ (Nat.add_pos_left (outside_get_pos found) _))
  refine .head inserted (assign_effects ?_ (fun impl found last => ?_) taken)
  · exact fun impl found => alive impl found
  have found : machine.get (.var index) = some (some impl) := found
  have other := unused impl (outside_get_pos found)
  refine droppedBy_eq found ?_
  rwa [Store.lastHandle, Store.pending, setStore,
    Store.impls_insert_of_ne _ _ _ _ _ other] at last

theorem copy_effects (counted : machine.Counted) {index : Nat} {source : Ref}
    (taken : machine.step (.copy (.var index) source) = some machine') :
    Effects (.copy (.var index) source) (machine.cancelledBy (.copy (.var index) source))
      (machine.store, machine.frames) (machine'.store, machine'.frames) := by
  rcases Option.bind_eq_some_iff.mp taken with ⟨value, found, taken⟩
  cases value with
  | none =>
      refine assign_effects (fun impl present => counted.alive present)
        (fun impl present last => ?_) taken
      have present : machine.get (.var index) = some (some impl) := present
      rw [cancelledBy, if_neg (by simp [present, found])]
      exact droppedBy_eq present last
  | some copied =>
      have alive : ∀ impl, machine.get (.var index) = some (some impl) →
          (machine.store.addRef copied).Allocated impl :=
        fun impl present => counted.alive present
      refine .head (.collects (.addCount machine.store copied 1))
        (assign_effects ?_ (fun impl present last => ?_) taken)
      · exact fun impl present => alive impl present
      have present : machine.get (.var index) = some (some impl) := present
      have live : 0 < machine.refs impl := Nat.add_pos_right _ (outside_get_pos present)
      have last : (machine.store.addRef copied).lastHandle impl := last
      rw [Store.lastHandle_iff, Store.addRef, Store.pending_addCount] at last
      rcases last with ⟨waiting, two⟩
      have apart : impl ≠ copied := by
        rintro rfl
        have many := Store.Counted.two_le counted live waiting
        simp only [Store.addCount, Store.setImpl, Function.update_self] at two
        omega
      rw [cancelledBy, if_neg (by simp [present, found, apart])]
      refine droppedBy_eq present (Store.lastHandle_iff.mpr ⟨waiting, ?_⟩)
      simpa only [Store.addCount, Store.setImpl, Function.update_of_ne apart] using two

theorem move_effects (counted : machine.Counted) {index : Nat} {source : Ref}
    (taken : machine.step (.move (.var index) source) = some machine') :
    Effects (.move (.var index) source) (machine.cancelledBy (.move (.var index) source))
      (machine.store, machine.frames) (machine'.store, machine'.frames) := by
  rcases Option.bind_eq_some_iff.mp taken with ⟨value, found, taken⟩
  have alive : ∀ impl, (machine.put none source).get (.var index) = some (some impl) →
      (machine.put none source).store.Allocated impl := by
    intro impl present
    rw [store_put]
    by_cases same : Ref.var index = source
    · subst same
      rw [get_put_self found] at present
      cases present
    · exact counted.alive (get_put_of_ne same ▸ present)
  refine (put_effects found id).trans
    (assign_effects alive (fun impl present last => ?_) taken)
  by_cases same : Ref.var index = source
  · subst same
    rw [get_put_self found] at present
    cases present
  · rw [cancelledBy, if_neg same]
    rw [get_put_of_ne same] at present
    rw [store_put] at last
    exact droppedBy_eq present last

/-- Every plain action is made of effects, and cancels at most the timer it is said to. -/
theorem step_effects (counted : machine.Counted)
    (plain : action.Plain) (taken : machine.step action = some machine') :
    Effects action (machine.cancelledBy action) (machine.store, machine.frames)
      (machine'.store, machine'.frames) := by
  cases action with
  | declare =>
      cases taken
      exact .refl
  | insert target queue expiry interval slot =>
      cases target with
      | arg => exact absurd rfl plain
      | var index => exact insert_effects counted taken
  | copy target source =>
      cases target with
      | arg => exact absurd rfl plain
      | var index => exact copy_effects counted taken
  | move target source =>
      cases target with
      | arg => exact absurd rfl plain
      | var index => exact move_effects counted taken
  | reset target =>
      rcases Option.map_eq_some_iff.mp taken with ⟨old, found, rfl⟩
      refine (put_effects found id).trans ?_
      rw [store_put]
      exact releaseTimer_effects (fun impl same => counted.alive (same ▸ found))
        fun impl same last => droppedBy_eq (same ▸ found) last
  | cancel target =>
      rcases Option.map_eq_some_iff.mp taken with ⟨impl, found, rfl⟩
      by_cases waiting : machine.store.pending impl
      · rcases Store.cancel_effect waiting with ⟨collected, rested⟩
        refine .single (.cancels ?_ (counted.alive (Option.join_eq_some_iff.mp found)) waiting
          collected rested)
        simp [cancelledBy, found, waiting]
      · have same : machine.store.cancel impl = machine.store := by
          rw [Store.cancel, if_neg waiting]
        rw [setStore, same]
  | setInterval target interval =>
      rcases Option.map_eq_some_iff.mp taken with ⟨impl, found, rfl⟩
      exact .single (.setsInterval impl interval rfl)
  | dispatch queue now =>
      cases taken
      exact .head (.enters queue now rfl) (advance_effects counted rfl)
  | leave =>
      rw [step] at taken
      split at taken
      · cases taken
      · rename_i frame rest frames
        cases taken
        rw [frames]
        exact .head (expireEnd_effect counted frames) (advance_effects (counted.left frames) rfl)
  | unwind => exact absurd plain id

end Machine

end ReactiveToolbox.Io
