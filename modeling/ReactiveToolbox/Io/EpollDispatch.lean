import ReactiveToolbox.Io.EpollSync

/-!
# Dispatching a batch of events

`Epoll::dispatch` goes through the events of the last wait and invokes the
slots of their rows.  A handler may open, change and end any subscription
before the next event is looked at.  An event carries the subscription id that
the kernel held when it was collected, and the model also remembers by which
registration it was collected.
-/

namespace ReactiveToolbox.Io

open ReactiveToolbox.Lib

universe u v

/-- `EpollEvent`, its data unpacked, and the registration it was collected for. -/
structure Event where
  fd : Nat
  sid : Nat
  events : BitVec 32
  number : Nat
  deriving DecidableEq

/-- The body of the loop of `Epoll::dispatch`: the slot to invoke, if any, and with what. -/
def Epoll.select {Slot : Type u} (epoll : Epoll Slot) (ev : Event) :
    Option (Slot × PollEvents) :=
  if ev.fd = epoll.notifyFd then none
  else
    let ref := epoll.data ev.fd
    match ref.slot with
    | none => none
    | some slot =>
        if ref.sid > ev.sid then none
        else
          let events := ev.events &&& (toEpollEvents ref.events ||| epollErr ||| epollHup)
          if events = 0 then none else some (slot, fromEpollEvents events)

variable {Handle : Type u} {Slot : Type v}

/-- One call of a slot: the event, and the subscription its descriptor then had. -/
structure Invocation (Slot : Type u) where
  event : Event
  slot : Slot
  registration : Option Registration
  holder : Option Nat

/-- A world, the events still to be dispatched, and the slots invoked so far. -/
structure Dispatch (Handle : Type u) (Slot : Type v) where
  world : World Handle Slot
  batch : List Event
  handling : Bool
  work : Nat
  invoked : List (Invocation Slot)

/--
The user acts, within a handler or between two dispatches; a wait collects a
batch; the loop takes the next event; a handler ends, by returning or throwing.
-/
inductive DispatchAction (Handle : Type u) (Slot : Type v) where
  | user (action : WorldAction Handle Slot)
  | wait (batch : List Event)
  | next
  | handled

namespace Dispatch

/-- No batch is dispatched. -/
def initial (timerFd notifyFd : Nat) : Dispatch Handle Slot where
  world := .initial timerFd notifyFd
  batch := []
  handling := false
  work := 0
  invoked := []

/-- An event that the kernel reports for the registration it has. -/
def Collected (world : World Handle Slot) (ev : Event) : Prop :=
  (world.epoll.kernel.registered ev.fd).map (fun registration =>
    (registration.sid, registration.number)) = some (ev.sid, ev.number)

instance (world : World Handle Slot) (ev : Event) : Decidable (Collected world ev) :=
  inferInstanceAs (Decidable (_ = _))

/-- The subscription id of the live handle on a descriptor. -/
def holder (world : World Handle Slot) (fd : Nat) : Option Nat :=
  (world.owner fd).map fun handle => (world.handles handle).sid

/-- The slot was invoked for the registration the event was collected for, still held. -/
def Current (invocation : Invocation Slot) : Prop :=
  invocation.registration.map Registration.number = some invocation.event.number ∧
    invocation.holder = some invocation.event.sid

/--
Every slot was invoked for the subscription its event was collected for, and an
event whose subscription has gone or been replaced selects no slot.
-/
def DispatchesCurrent (state : Dispatch Handle Slot) : Prop :=
  (∀ invocation ∈ state.invoked, Current invocation) ∧
  (∀ ev ∈ state.batch,
    (state.world.epoll.kernel.registered ev.fd).map Registration.number ≠ some ev.number ∨
        holder state.world ev.fd ≠ some ev.sid →
      state.world.epoll.select ev = none)

/-! ## The invariant of the loop -/

/-- An event still matches the row it was collected for, or a newer row outnumbers it. -/
def Matches (epoll : Epoll Slot) (ev : Event) : Prop :=
  ev.number ≤ epoll.kernel.added ev.fd ∧
    ((epoll.data ev.fd).empty = false →
      ev.number = epoll.kernel.added ev.fd ∧ (epoll.data ev.fd).sid = ev.sid ∨
        ev.number < epoll.kernel.added ev.fd ∧ ev.sid < (epoll.data ev.fd).sid)

/-- The invariant of the loop. -/
structure Inv (state : Dispatch Handle Slot) : Prop where
  rows : state.world.RowsOwned
  matching : ∀ ev ∈ state.batch, ev.fd ≠ state.world.epoll.timerFd →
    ev.fd ≠ state.world.epoll.notifyFd → Matches state.world.epoll ev
  current : ∀ invocation ∈ state.invoked, Current invocation

/-- The slot that the loop selects belongs to the registration of the event. -/
theorem Inv.selected {state : Dispatch Handle Slot} (inv : Inv state)
    {ev : Event} {slot : Slot} {events : PollEvents} (next : ev ∈ state.batch)
    (selected : state.world.epoll.select ev = some (slot, events)) :
    Current {
      event := ev
      slot := slot
      registration := state.world.epoll.kernel.registered ev.fd
      holder := holder state.world ev.fd } := by
  unfold Epoll.select at selected
  split at selected
  · cases selected
  rename_i notNotify
  simp only at selected
  split at selected
  · cases selected
  rename_i found hasSlot
  split at selected
  · cases selected
  rename_i notNewer
  have present : (state.world.epoll.data ev.fd).empty = false := by
    rw [PollFD.empty, hasSlot]
    rfl
  cases owned : state.world.owner ev.fd with
  | none =>
      rw [inv.rows.unowned ev.fd owned] at present
      cases present
  | some handle =>
      have ours := inv.rows.ours ev.fd (by rw [owned]; simp)
      rcases (inv.matching ev next ours.1 ours.2).2 present with
        ⟨number, sid⟩ | ⟨-, outnumbered⟩
      · have agrees := inv.rows.kernel ev.fd ours.1 ours.2
        rw [KernelAgrees, present] at agrees
        have attached := (inv.rows.owner ev.fd handle).1 owned
        refine ⟨?_, ?_⟩
        · simp [agrees, number]
        · rw [holder, owned, ← sid, inv.rows.numbered handle ev.fd attached present]
          rfl
      · exact absurd outnumbered notNewer

theorem initial_inv (timerFd notifyFd : Nat) :
    Inv (initial timerFd notifyFd : Dispatch Handle Slot) where
  rows := World.initial_rowsOwned timerFd notifyFd
  matching := by simp [initial]
  current := by simp [initial]

/-! ## The machine -/

variable [DecidableEq Handle] [DecidableEq Slot]

/-- One step of a user or of the loop of `dispatch`. -/
def step (state : Dispatch Handle Slot) :
    DispatchAction Handle Slot → Option (Dispatch Handle Slot)
  | .user action =>
      if state.handling = true ∨ state.batch = [] then
        (state.world.step action).map fun world => { state with world := world }
      else none
  | .wait batch =>
      if state.handling = false ∧ state.batch = [] ∧ ∀ ev ∈ batch, Collected state.world ev then
        some { state with batch := batch, work := 0 }
      else none
  | .next =>
      match state.handling, state.batch with
      | false, ev :: rest =>
          match state.world.epoll.select ev with
          | none => some { state with batch := rest }
          | some (slot, _) => some {
              state with
              batch := rest
              handling := true
              invoked := state.invoked ++ [{
                event := ev
                slot := slot
                registration := state.world.epoll.kernel.registered ev.fd
                holder := holder state.world ev.fd }] }
      | _, _ => none
  | .handled =>
      if state.handling then some { state with handling := false, work := state.work + 1 }
      else none

/--
A handler that registers a descriptor with an event later in the batch does so
through a handle whose subscription id has reached that of the event, and
resets reach the poller.
-/
def Fresh (state : Dispatch Handle Slot) : DispatchAction Handle Slot → Prop
  | .user action =>
      state.world.ResetOk action ∧
        ∀ ev ∈ state.batch, ∀ handle world',
          (state.world.handles handle).fd = some ev.fd →
            state.world.step action = some world' →
              world'.epoll.kernel.added ev.fd ≠ state.world.epoll.kernel.added ev.fd →
                ev.sid ≤ (state.world.handles handle).sid
  | _ => True

/-! ## What a step does to the row of an event -/

section Steps

variable {world world' : World Handle Slot} {action : WorldAction Handle Slot}

theorem step_own
    (ok : world.ResetOk action) (taken : world.step action = some world') :
    world'.epoll.timerFd = world.epoll.timerFd ∧
      world'.epoll.notifyFd = world.epoll.notifyFd := by
  rcases World.step_effect ok taken with
    ⟨handle, fd, -, -, -, rfl⟩ | ⟨handle, polled, fd?, step, -, rfl⟩
  · exact ⟨rfl, rfl⟩
  · cases fd? <;> exact step.own

/-- A step leaves a row its number, takes it away, or makes it anew for its handle. -/
theorem step_row
    (ok : world.ResetOk action) (taken : world.step action = some world') (fd : Nat) :
    (world'.epoll.kernel.added fd = world.epoll.kernel.added fd ∧
      ((world'.epoll.data fd).empty = false → (world.epoll.data fd).empty = false ∧
        (world'.epoll.data fd).sid = (world.epoll.data fd).sid)) ∨
    (world'.epoll.kernel.added fd = world.epoll.kernel.added fd + 1 ∧
      ∃ handle, (world.handles handle).fd = some fd ∧
        (world'.epoll.data fd).sid = (world.handles handle).sid + 1) := by
  rcases World.step_effect ok taken with
    ⟨handle, opened, -, -, -, rfl⟩ | ⟨handle, polled, fd?, step, -, rfl⟩
  · exact Or.inl ⟨rfl, fun present => ⟨present, rfl⟩⟩
  · have rows : ((world.put handle polled).closeFd fd?).epoll.data = polled.1.data ∧
        ((world.put handle polled).closeFd fd?).epoll.kernel.added = polled.1.kernel.added := by
      cases fd? <;> exact ⟨rfl, rfl⟩
    rw [rows.1, rows.2]
    by_cases attached : (world.handles handle).fd = some fd
    · rcases step.row fd attached with kept | ⟨added, sid⟩
      · exact Or.inl kept
      · exact Or.inr ⟨added, handle, attached, sid⟩
    · rcases step.frame fd attached with ⟨row, -, added⟩
      rw [row, added]
      exact Or.inl ⟨rfl, fun present => ⟨present, rfl⟩⟩

/-- What a handler does keeps the events of the rest of the batch matching. -/
theorem Matches.step
    {ev : Event} (matching : Matches world.epoll ev)
    (ok : world.ResetOk action) (taken : world.step action = some world')
    (fresh : ∀ handle, (world.handles handle).fd = some ev.fd →
      world'.epoll.kernel.added ev.fd ≠ world.epoll.kernel.added ev.fd →
        ev.sid ≤ (world.handles handle).sid) :
    Matches world'.epoll ev := by
  rcases matching with ⟨older, row⟩
  rcases step_row ok taken ev.fd with ⟨same, kept⟩ | ⟨added, handle, attached, sid⟩
  · rw [Matches, same]
    refine ⟨older, fun present => ?_⟩
    rcases kept present with ⟨before, number⟩
    rw [number]
    exact row before
  · have reached := fresh handle attached (by rw [added]; exact Nat.succ_ne_self _)
    rw [Matches, added, sid]
    exact ⟨Nat.le_succ_of_le older,
      fun _ => Or.inr ⟨Nat.lt_succ_of_le older, Nat.lt_succ_of_le reached⟩⟩

/-- Every step that meets the condition keeps the invariant. -/
theorem Inv.step {state next : Dispatch Handle Slot} {act : DispatchAction Handle Slot}
    (inv : Inv state) (fresh : Fresh state act) (taken : state.step act = some next) :
    Inv next := by
  cases act with
  | user action =>
      simp only [Dispatch.step] at taken
      split at taken
      · rcases Option.map_eq_some_iff.mp taken with ⟨world', moved, rfl⟩
        refine ⟨inv.rows.step fresh.1 moved, fun ev member notTimer notNotify => ?_,
          inv.current⟩
        simp only [(step_own fresh.1 moved).1, (step_own fresh.1 moved).2] at notTimer notNotify
        exact (inv.matching ev member notTimer notNotify).step fresh.1 moved
          fun handle attached => fresh.2 ev member handle world' attached moved
      · cases taken
  | wait batch =>
      simp only [Dispatch.step] at taken
      split at taken
      · rename_i ready
        cases taken
        refine ⟨inv.rows, fun ev member notTimer notNotify => ?_, inv.current⟩
        have collected := ready.2.2 ev member
        have agrees := inv.rows.kernel ev.fd notTimer notNotify
        cases present : (state.world.epoll.data ev.fd).empty with
        | true =>
            rw [KernelAgrees, if_pos present] at agrees
            rw [Collected, agrees] at collected
            cases collected
        | false =>
            rw [KernelAgrees, present] at agrees
            rw [Collected, agrees] at collected
            simp only [Bool.false_eq_true, if_false, Option.map_some, Option.some.injEq,
              Prod.mk.injEq] at collected
            exact ⟨collected.2 ▸ le_rfl, fun _ => Or.inl ⟨collected.2.symm, collected.1⟩⟩
      · cases taken
  | next =>
      simp only [Dispatch.step] at taken
      split at taken
      · rename_i ev rest idle batch
        have later : ∀ other ∈ rest, other ∈ state.batch :=
          fun other member => batch ▸ List.mem_cons_of_mem ev member
        split at taken
        · cases taken
          exact ⟨inv.rows, fun other member => inv.matching other (later other member),
            inv.current⟩
        · rename_i slot events selected
          cases taken
          refine ⟨inv.rows, fun other member => inv.matching other (later other member),
            fun invocation member => ?_⟩
          rcases List.mem_append.mp member with old | new
          · exact inv.current invocation old
          · rw [List.mem_singleton] at new
            subst new
            exact inv.selected (batch ▸ List.mem_cons_self) selected
      · cases taken
  | handled =>
      simp only [Dispatch.step] at taken
      split at taken
      · cases taken
        exact ⟨inv.rows, inv.matching, inv.current⟩
      · cases taken

/-- Where no later event meets a handle numbered below it, dispatch is current. -/
theorem fresh_dispatches_current {timerFd notifyFd : Nat} {state : Dispatch Handle Slot}
    (reached : Reachable step Fresh (initial timerFd notifyFd) state) :
    DispatchesCurrent state := by
  have inv : Inv state := by
    refine reached.invariant (initial_inv timerFd notifyFd) ?_
    intro before action after inv allowed taken
    exact inv.step allowed taken
  refine ⟨inv.current, fun ev member gone => ?_⟩
  cases selected : state.world.epoll.select ev with
  | none => rfl
  | some chosen =>
      have current := inv.selected member selected
      rcases gone with replaced | lost
      · exact absurd current.1 replaced
      · exact absurd current.2 lost

end Steps

/-! ## Two runs -/

/-- Two sockets are subscribed and both have an event in the batch. -/
def bothReady : List (DispatchAction Bool Nat) :=
  [.user (.open false 5), .user (.op false (.addSlot PollEvents.read (some 1))),
    .user (.open true 6), .user (.op true (.addSlot PollEvents.read (some 2))),
    .wait [⟨5, 1, epollIn, 1⟩, ⟨6, 1, epollIn, 1⟩], .next]

/-- The first handler unsubscribes the second handle and subscribes it again. -/
theorem fresh_dispatches_current_resubscribed :
    ∃ state : Dispatch Bool Nat,
      state.invoked.length = 1 ∧ (state.world.epoll.data 6).slot = some 3 ∧
        DispatchesCurrent state := by
  have numbered : ∀ {state : Dispatch Bool Nat} {action}, state.world.ResetOk action →
      (∀ ev ∈ state.batch, ∀ handle, (state.world.handles handle).fd = some ev.fd →
        ev.sid ≤ (state.world.handles handle).sid) → Fresh state (.user action) :=
    fun ok reached => ⟨ok, fun ev member handle _ attached _ _ =>
      reached ev member handle attached⟩
  have opened : Reachable step Fresh (initial 3 4 : Dispatch Bool Nat) _ :=
    Reachable.refl.extend
      (show Fresh _ (.user (.open false 5)) from numbered trivial (by decide)) rfl
  have subscribed := opened.extend
    (show Fresh _ (.user (.op false (.addSlot PollEvents.read (some 1)))) from
      numbered trivial (by decide)) rfl
  have opened := subscribed.extend
    (show Fresh _ (.user (.open true 6)) from numbered trivial (by decide)) rfl
  have subscribed := opened.extend
    (show Fresh _ (.user (.op true (.addSlot PollEvents.read (some 2)))) from
      numbered trivial (by decide)) rfl
  have waited := subscribed.extend
    (show Fresh _ (.wait [⟨5, 1, epollIn, 1⟩, ⟨6, 1, epollIn, 1⟩]) from trivial) rfl
  have invoked := waited.extend (show Fresh _ .next from trivial) rfl
  have removed := invoked.extend
    (show Fresh _ (.user (.op true (.delSlot PollEvents.read none))) from
      numbered trivial (by decide)) rfl
  have added := removed.extend
    (show Fresh _ (.user (.op true (.addSlot PollEvents.read (some 3)))) from
      numbered trivial (by decide)) rfl
  have handled := added.extend (show Fresh _ .handled from trivial) rfl
  have dropped := handled.extend (show Fresh _ .next from trivial) rfl
  exact ⟨_, rfl, rfl, fresh_dispatches_current dropped⟩

/-- The first handler closes the second socket and a new one takes its number. -/
def reusedByHandler : List (DispatchAction Bool Nat) :=
  bothReady ++ [.user (.close true), .user (.open true 6),
    .user (.op true (.addSlot PollEvents.read (some 3))), .handled, .next]

theorem reused_by_handler_not_current :
    ¬ ∀ state, Reachable step unguarded (initial 3 4 : Dispatch Bool Nat) state →
      DispatchesCurrent state := by
  intro always
  have reached : Reachable step unguarded (initial 3 4 : Dispatch Bool Nat)
      ((execute step unguarded (initial 3 4) reusedByHandler).getD (initial 3 4)) :=
    ⟨reusedByHandler, Run.of_execute rfl⟩
  have current := (always _ reached).1 ⟨⟨6, 1, epollIn, 1⟩, 3, some ⟨epollIn, 1, 2⟩, some 1⟩
    (List.mem_cons_of_mem _ List.mem_cons_self)
  exact absurd current.1 (by decide)

end Dispatch

end ReactiveToolbox.Io
