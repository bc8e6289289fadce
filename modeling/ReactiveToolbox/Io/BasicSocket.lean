import ReactiveToolbox.Io.DgramSocket
import ReactiveToolbox.Io.Epoll
import ReactiveToolbox.Lib.Transition

/-!
# The two operations of a socket

A socket has one read and one write that may be waiting for their completion.
`on_io_event` completes what is ready, and the slots that it calls may start the
next operation, or throw, or close the socket.  While it runs, the handle's batch is
open; it ends with a commit.  It is cut into steps where a system call answers and
where a slot returns.  A run begins with a socket that has been opened for the first
time, which may be closed and opened again in it.
-/

namespace ReactiveToolbox.Io

open ReactiveToolbox.Lib

universe u v w

/-- `SocketRead` or `SocketWrite`. -/
inductive Direction where
  | read
  | write
deriving DecidableEq

/-- A `SocketRead` or a `SocketWrite`: its completion slot, its buffer and its flags. -/
structure SocketOp (Slot : Type u) (Data : Type v) where
  slot : Option Slot
  buf : Option Data
  flags : Int

/-- An operation that has been started. -/
structure SocketRequest (Slot : Type u) (Data : Type v) where
  direction : Direction
  slot : Slot
  buf : Option Data
  flags : Int
deriving DecidableEq

/-- The operation that a slot is waiting in. -/
def SocketOp.request {Slot : Type u} {Data : Type v} (op : SocketOp Slot Data)
    (direction : Direction) (slot : Slot) : SocketRequest Slot Data where
  direction := direction
  slot := slot
  buf := op.buf
  flags := op.flags

/-- A slot that has been invoked, with the system call whose result it got. -/
structure Completion (Slot : Type u) (Data : Type v) extends SocketRequest Slot Data where
  result : SendResult

/-- Where `on_io_event` is. -/
inductive IoPoint where
  /-- The condition of the loop over one operation. -/
  | serving (direction : Direction)
  /-- The completion slot runs. -/
  | handling (direction : Direction)
  /-- Behind the loops of a round. -/
  | finishing
deriving DecidableEq

/-- The variables of `on_io_event`. -/
structure IoFrame where
  events : PollEvents
  oldBatching : Bool
  rounds : Nat
  again : Bool
  point : IoPoint
deriving DecidableEq

/-- `BasicSocket` with its poller, and what has been asked of it and completed. -/
structure BasicSocket (Slot : Type u) (Data : Type v) where
  sock : Option Nat
  epoll : Epoll Unit
  poll : PollHandle Unit
  ops : Direction → SocketOp Slot Data
  frame : Option IoFrame
  accepted : List (SocketRequest Slot Data)
  completed : List (Completion Slot Data)

/-- What a user and a reactor do with a socket that is open. -/
inductive SocketAction (Slot : Type u) (Data : Type v) where
  /-- `async_recv`, or `async_read` and `async_write` with the flags 0. -/
  | async (direction : Direction) (slot : Slot) (buf : Data) (flags : Int)
  | event (events : PollEvents)
  /-- A pending operation makes its system call. -/
  | complete (result : SendResult)
  /-- There is nothing to serve. -/
  | pass
  | returned
  | thrown
  /-- The round ends, and perhaps `on_io_event`. -/
  | finish
  | close
  /-- `open` of a socket that has been closed, which gets some descriptor. -/
  | reopen (fd : Nat)

/-- The events that an operation waits for. -/
def Direction.events : Direction → PollEvents
  | .read => PollEvents.read
  | .write => PollEvents.write

/-- `SocketRead::reset` keeps the buffer, `SocketWrite::reset` does not. -/
def SocketOp.reset {Slot : Type u} {Data : Type v} (op : SocketOp Slot Data) :
    Direction → SocketOp Slot Data
  | .read => { op with slot := none, flags := 0 }
  | .write => { slot := none, buf := none, flags := 0 }

/-- The point behind the loop over an operation. -/
def Direction.behind : Direction → IoPoint
  | .read => .serving .write
  | .write => .finishing

namespace BasicSocket

variable {Slot : Type u} {Data : Type v}

/-- A socket that has been opened, with its `io_slot`, and has no operation. -/
def opened (epoll : Epoll Unit) (fd : Nat) : BasicSocket Slot Data where
  sock := some fd
  epoll := epoll
  poll := { (PollHandle.create fd : PollHandle Unit) with slot := some () }
  ops _ := ⟨none, none, 0⟩
  frame := none
  accepted := []
  completed := []

/-- `io_slot` commits the slot of a new handle, which changes nothing while there is no event. -/
theorem mod_opened {epoll : Epoll Unit} {fd : Nat} (absent : (epoll.data fd).empty = true) :
    (PollHandle.create fd : PollHandle Unit).mod epoll (some ()) =
      some (epoll, (opened epoll fd : BasicSocket Slot Data).poll) := by
  have fresh : (PollHandle.create fd : PollHandle Unit).slot ≠ some () := nofun
  rw [PollHandle.mod, if_pos fresh, PollHandle.commit, if_pos (by rfl), Epoll.ctl]
  dsimp only [PollHandle.create]
  rw [if_pos absent]
  rfl

/-- The operation of a direction is set. -/
def setOp (socket : BasicSocket Slot Data) (direction : Direction) (op : SocketOp Slot Data) :
    BasicSocket Slot Data :=
  { socket with ops := Function.update socket.ops direction op }

theorem setOp_self (socket : BasicSocket Slot Data) (direction : Direction)
    (op : SocketOp Slot Data) : (socket.setOp direction op).ops direction = op :=
  Function.update_self _ _ _

theorem setOp_ne (socket : BasicSocket Slot Data) {direction other : Direction}
    (apart : other ≠ direction) (op : SocketOp Slot Data) :
    (socket.setOp direction op).ops other = socket.ops other :=
  Function.update_of_ne apart _ _

/-- `on_io_event` is entered, goes on or returns. -/
def setFrame (socket : BasicSocket Slot Data) (frame : Option IoFrame) : BasicSocket Slot Data :=
  { socket with frame }

/-- What a call on the handle has left of the poller and of the handle. -/
def setPolled (socket : BasicSocket Slot Data) (polled : Polled Unit) : BasicSocket Slot Data :=
  { socket with epoll := polled.1, poll := polled.2 }

/-- Slots of the user run between the calls of `on_io_event` and inside of them. -/
def UserRuns (socket : BasicSocket Slot Data) : Bool :=
  match socket.frame with
  | none => true
  | some frame =>
      match frame.point with
      | .handling _ => true
      | _ => false

/-- `prepare`, after the flags have been set; a pending operation makes it throw. -/
def prepare (socket : BasicSocket Slot Data) (direction : Direction) (slot : Slot) (buf : Data) :
    Option (BasicSocket Slot Data) :=
  if (socket.ops direction).slot.isSome then some socket
  else
    (socket.poll.add socket.epoll direction.events).bind fun polled =>
      -- Only a read commits once more.
      (match direction with
        | .read => polled.2.commit polled.1 false
        | .write => some polled).map fun polled =>
          let op := { socket.ops direction with slot := some slot, buf := some buf }
          { (socket.setOp direction op).setPolled polled with
            accepted := socket.accepted ++ [op.request direction slot] }

/-- `async_read`, `async_recv` and `async_write`. -/
def async (socket : BasicSocket Slot Data) (direction : Direction) (slot : Slot) (buf : Data)
    (flags : Int) : Option (BasicSocket Slot Data) :=
  if socket.UserRuns then
    (socket.setOp direction { socket.ops direction with flags }).prepare direction slot buf
  else none

/-- The beginning of `on_io_event`. -/
def event (socket : BasicSocket Slot Data) (events : PollEvents) :
    Option (BasicSocket Slot Data) :=
  match socket.frame with
  | none =>
      some { socket with
        poll := socket.poll.batching true
        frame := some ⟨events, socket.poll.batchCtl, 0, false, .serving .read⟩ }
  | some _ => none

/-- `complete` of the operation that is served, up to its slot. -/
def complete (socket : BasicSocket Slot Data) (result : SendResult) :
    Option (BasicSocket Slot Data) :=
  match socket.frame with
  | some ⟨events, oldBatching, rounds, again, .serving direction⟩ =>
      match (socket.ops direction).slot with
      | some slot =>
          if events &&& direction.events = 0 then none
          else if result.wouldBlock then
            (socket.poll.add socket.epoll direction.events).map fun polled =>
              (socket.setPolled polled).setFrame
                (some ⟨events.minus direction.events, oldBatching, rounds, again,
                  direction.behind⟩)
          else
            some
              { (socket.setOp direction ((socket.ops direction).reset direction)).setFrame
                  (some ⟨events, oldBatching, rounds, again, .handling direction⟩) with
                completed := socket.completed ++
                  [⟨(socket.ops direction).request direction slot, result⟩] }
      | none => none
  | _ => none

/-- The loop over an operation ends, or is not entered. -/
def pass (socket : BasicSocket Slot Data) : Option (BasicSocket Slot Data) :=
  match socket.frame with
  | some ⟨events, oldBatching, rounds, again, .serving direction⟩ =>
      if events &&& direction.events = 0 ∨ (socket.ops direction).slot = none then
        some (socket.setFrame (some ⟨events, oldBatching, rounds, again, direction.behind⟩))
      else none
  | _ => none

/-- A completion slot has returned. -/
def returned (socket : BasicSocket Slot Data) : Option (BasicSocket Slot Data) :=
  match socket.frame with
  | some ⟨events, oldBatching, rounds, _, .handling direction⟩ =>
      (if (socket.ops direction).slot.isNone then
        socket.poll.del socket.epoll direction.events
      else some (socket.epoll, socket.poll)).map fun polled =>
        (socket.setPolled polled).setFrame
          (some ⟨events, oldBatching, rounds, true, .serving direction⟩)
  | _ => none

/-- A completion slot throws: nothing of what follows it is done. -/
def thrown (socket : BasicSocket Slot Data) : Option (BasicSocket Slot Data) :=
  match socket.frame with
  | some ⟨_, _, _, _, .handling _⟩ => some (socket.setFrame none)
  | _ => none

/-- The end of a round; the last one restores the batch and commits. -/
def finish (socket : BasicSocket Slot Data) : Option (BasicSocket Slot Data) :=
  match socket.frame with
  | some ⟨events, oldBatching, rounds, again, .finishing⟩ =>
      if again = true ∧ events &&& PollEvents.plus PollEvents.read PollEvents.write ≠ 0 ∧
          rounds + 1 < 64 then
        some (socket.setFrame (some ⟨events, oldBatching, rounds + 1, false, .serving .read⟩))
      else
        ((socket.poll.batching oldBatching).commit socket.epoll true).map fun polled =>
          (socket.setPolled polled).setFrame none
  | _ => none

/-- `close`, which leaves the operations as they are; a registration ends with its descriptor. -/
def close (socket : BasicSocket Slot Data) : Option (BasicSocket Slot Data) :=
  if socket.UserRuns then
    (socket.poll.reset socket.epoll).map fun (epoll, poll) =>
      let epoll :=
        match socket.sock with
        | some fd => epoll.setKernel (epoll.kernel.close fd)
        | none => epoll
      { socket.setPolled (epoll, poll) with sock := none }
  else none

/--
`open`: the handle changes places with a new one but for its flags, and `io_slot` does not give
it the slot, which is the one that the socket has already.
-/
def reopen (socket : BasicSocket Slot Data) (fd : Nat) : Option (BasicSocket Slot Data) :=
  if socket.UserRuns ∧ socket.sock = none then
    (socket.poll.reset socket.epoll).map fun (epoll, poll) =>
      { socket.setPolled (epoll, { poll with toPollFD := (PollHandle.create fd).toPollFD }) with
        sock := some fd }
  else none

/-- One step of a user or of `on_io_event`. -/
def step (socket : BasicSocket Slot Data) :
    SocketAction Slot Data → Option (BasicSocket Slot Data)
  | .async direction slot buf flags => socket.async direction slot buf flags
  | .event events => socket.event events
  | .complete result => socket.complete result
  | .pass => socket.pass
  | .returned => socket.returned
  | .thrown => socket.thrown
  | .finish => socket.finish
  | .close => socket.close
  | .reopen fd => socket.reopen fd

end BasicSocket

/-! ## What a step does -/

/-- The operation whose completion slot runs. -/
def BasicSocket.handled : Option IoFrame → Option Direction
  | some ⟨_, _, _, _, .handling direction⟩ => some direction
  | _ => none

namespace BasicSocket

variable {Slot : Type u} {Data : Type v} {socket next : BasicSocket Slot Data}

theorem handled_behind (events : PollEvents) (oldBatching : Bool) (rounds : Nat) (again : Bool)
    (direction : Direction) :
    handled (some ⟨events, oldBatching, rounds, again, direction.behind⟩) = none := by
  cases direction <;> rfl

/-- The kinds of steps, with what has been read and what is left. -/
inductive Stepped (socket : BasicSocket Slot Data) :
    SocketAction Slot Data → BasicSocket Slot Data → Prop where
  /-- A call throws, with the flags stored. -/
  | refused {direction : Direction} {slot : Slot} {buf : Data} {flags : Int}
      (pending : (socket.ops direction).slot.isSome) :
      Stepped socket (.async direction slot buf flags)
        (socket.setOp direction { socket.ops direction with flags })
  | started {direction : Direction} {slot : Slot} {buf : Data} {flags : Int}
      {added polled : Polled Unit} (idle : (socket.ops direction).slot = none)
      (adds : socket.poll.add socket.epoll direction.events = some added)
      (commits : polled = added ∨ added.2.commit added.1 false = some polled) :
      Stepped socket (.async direction slot buf flags)
        { (socket.setOp direction ⟨some slot, some buf, flags⟩).setPolled polled with
          accepted := socket.accepted ++ [⟨direction, slot, some buf, flags⟩] }
  | entered {events : PollEvents} (outside : socket.frame = none) :
      Stepped socket (.event events)
        { socket with
          poll := socket.poll.batching true
          frame := some ⟨events, socket.poll.batchCtl, 0, false, .serving .read⟩ }
  /-- The control goes on between the loops. -/
  | moved {action : SocketAction Slot Data} {frame after : IoFrame}
      (at_ : socket.frame = some frame) (before : handled (some frame) = none)
      (old : after.oldBatching = frame.oldBatching) (idle : handled (some after) = none) :
      Stepped socket action (socket.setFrame (some after))
  | blocked {result : SendResult} {frame after : IoFrame} {direction : Direction} {slot : Slot}
      {polled : Polled Unit} (at_ : socket.frame = some frame)
      (before : handled (some frame) = none) (pending : (socket.ops direction).slot = some slot)
      (adds : socket.poll.add socket.epoll direction.events = some polled)
      (old : after.oldBatching = frame.oldBatching) (idle : handled (some after) = none) :
      Stepped socket (.complete result) ((socket.setPolled polled).setFrame (some after))
  | invoked {result : SendResult} {frame after : IoFrame} {direction : Direction} {slot : Slot}
      (at_ : socket.frame = some frame) (before : handled (some frame) = none)
      (pending : (socket.ops direction).slot = some slot)
      (old : after.oldBatching = frame.oldBatching) (runs : handled (some after) = some direction) :
      Stepped socket (.complete result)
        { (socket.setOp direction ((socket.ops direction).reset direction)).setFrame
            (some after) with
          completed := socket.completed ++
            [⟨(socket.ops direction).request direction slot, result⟩] }
  | returned {frame after : IoFrame} {direction : Direction} {polled : Polled Unit}
      (at_ : socket.frame = some frame) (ran : handled (some frame) = some direction)
      (dels : (if (socket.ops direction).slot.isNone then
          socket.poll.del socket.epoll direction.events
        else some (socket.epoll, socket.poll)) = some polled)
      (old : after.oldBatching = frame.oldBatching) (idle : handled (some after) = none) :
      Stepped socket .returned ((socket.setPolled polled).setFrame (some after))
  | thrown {frame : IoFrame} (at_ : socket.frame = some frame) :
      Stepped socket .thrown (socket.setFrame none)
  /-- `on_io_event` returns. -/
  | left {frame : IoFrame} {polled : Polled Unit} (at_ : socket.frame = some frame)
      (before : handled (some frame) = none)
      (commits : (socket.poll.batching frame.oldBatching).commit socket.epoll true =
        some polled) :
      Stepped socket .finish ((socket.setPolled polled).setFrame none)
  /-- The handle has been reset, and the operations are as they were. -/
  | reset {action : SocketAction Slot Data} {epoll : Epoll Unit} {polled : Polled Unit}
      {poll : PollFD Unit} {sock : Option Nat} (leaves : action = .close ∨ ∃ fd, action = .reopen fd)
      (resets : socket.poll.reset socket.epoll = some polled) :
      Stepped socket action
        { socket.setPolled (epoll, { polled.2 with toPollFD := poll }) with sock := sock }

/-- What `async` does. -/
theorem stepped_async {direction : Direction} {slot : Slot} {buf : Data} {flags : Int}
    (taken : socket.async direction slot buf flags = some next) :
    Stepped socket (.async direction slot buf flags) next := by
  rw [async] at taken
  split at taken
  · rw [prepare, setOp_self] at taken
    split at taken
    · rename_i pending
      cases taken
      exact .refused pending
    · rename_i idle
      obtain ⟨added, adds, rest⟩ := Option.bind_eq_some_iff.mp taken
      obtain ⟨polled, commits, rfl⟩ := Option.map_eq_some_iff.mp rest
      have none : (socket.ops direction).slot = none :=
        Option.not_isSome_iff_eq_none.mp idle
      let op : SocketOp Slot Data := ⟨some slot, some buf, flags⟩
      have overwritten :
          (socket.setOp direction { socket.ops direction with flags }).setOp direction op =
            socket.setOp direction op := by
        rw [setOp, setOp, setOp]
        exact congrArg (fun ops => { socket with ops }) (Function.update_idem _ _ _)
      change Stepped socket _ { (setOp _ direction op).setPolled polled with
        accepted := socket.accepted ++ [op.request direction slot] }
      rw [overwritten]
      refine .started none adds ?_
      cases direction with
      | read => exact .inr commits
      | write => exact .inl (Option.some.inj commits).symm
  · cases taken

/-- What the end of an operation does. -/
theorem stepped_complete {result : SendResult} (taken : socket.complete result = some next) :
    Stepped socket (.complete result) next := by
  rw [complete] at taken
  split at taken
  · rename_i at_
    split at taken
    · rename_i pending
      split at taken
      · cases taken
      · split at taken
        · obtain ⟨polled, adds, rfl⟩ := Option.map_eq_some_iff.mp taken
          exact .blocked at_ rfl pending adds rfl (handled_behind ..)
        · cases taken
          exact .invoked at_ rfl pending rfl rfl
    · cases taken
  · cases taken

/-- The steps between the calls of the system and of the slots. -/
theorem stepped_control {action : SocketAction Slot Data}
    (control : action = .pass ∨ action = .thrown ∨ action = .finish ∨ action = .returned)
    (taken : socket.step action = some next) : Stepped socket action next := by
  obtain rfl | rfl | rfl | rfl := control
  · change socket.pass = some next at taken
    rw [pass] at taken
    split at taken
    · rename_i at_
      split at taken
      · cases taken
        exact .moved at_ rfl rfl (handled_behind ..)
      · cases taken
    · cases taken
  · change socket.thrown = some next at taken
    rw [BasicSocket.thrown] at taken
    split at taken
    · rename_i at_
      cases taken
      exact .thrown at_
    · cases taken
  · change socket.finish = some next at taken
    rw [finish] at taken
    split at taken
    · rename_i at_
      split at taken
      · cases taken
        exact .moved at_ rfl rfl rfl
      · obtain ⟨polled, commits, rfl⟩ := Option.map_eq_some_iff.mp taken
        exact .left at_ rfl commits
    · cases taken
  · change socket.returned = some next at taken
    rw [BasicSocket.returned] at taken
    split at taken
    · rename_i at_
      obtain ⟨polled, dels, rfl⟩ := Option.map_eq_some_iff.mp taken
      exact .returned at_ rfl dels rfl rfl
    · cases taken

/-- What every step does. -/
theorem stepped {action : SocketAction Slot Data} (taken : socket.step action = some next) :
    Stepped socket action next := by
  cases action with
  | async direction slot buf flags => exact stepped_async taken
  | event events =>
      change socket.event events = some next at taken
      rw [event] at taken
      split at taken
      · rename_i outside
        cases taken
        exact .entered outside
      · cases taken
  | complete result => exact stepped_complete taken
  | pass => exact stepped_control (.inl rfl) taken
  | thrown => exact stepped_control (.inr (.inl rfl)) taken
  | finish => exact stepped_control (.inr (.inr (.inl rfl))) taken
  | returned => exact stepped_control (.inr (.inr (.inr rfl))) taken
  | close =>
      change socket.close = some next at taken
      rw [close] at taken
      split at taken
      · obtain ⟨polled, resets, rfl⟩ := Option.map_eq_some_iff.mp taken
        exact .reset (.inl rfl) resets
      · cases taken
  | reopen fd =>
      change socket.reopen fd = some next at taken
      rw [reopen] at taken
      split at taken
      · obtain ⟨polled, resets, rfl⟩ := Option.map_eq_some_iff.mp taken
        exact .reset (.inr ⟨fd, rfl⟩) resets
      · cases taken

end BasicSocket

/-! ## Completions -/

/-- The requests of one direction. -/
def ofDirection {Slot : Type u} {Data : Type v} (direction : Direction)
    (requests : List (SocketRequest Slot Data)) : List (SocketRequest Slot Data) :=
  requests.filter fun request => decide (request.direction = direction)

/-- What is known of a request whatever its flags are. -/
def SocketRequest.told {Slot : Type u} {Data : Type v} (request : SocketRequest Slot Data) :
    Slot × Option Data :=
  (request.slot, request.buf)

namespace BasicSocket

variable {Slot : Type u} {Data : Type v} {socket next : BasicSocket Slot Data} {fd : Nat}
    {β : Type w}

/-- The operation of a direction that is pending. -/
def waiting (socket : BasicSocket Slot Data) (direction : Direction) :
    List (SocketRequest Slot Data) :=
  ((socket.ops direction).slot.map ((socket.ops direction).request direction)).toList

/-- The requests of a direction that have been completed. -/
def answered (socket : BasicSocket Slot Data) (direction : Direction) :
    List (SocketRequest Slot Data) :=
  ofDirection direction (socket.completed.map Completion.toSocketRequest)

/-- What has been accepted has been completed or waits, in the order of the calls. -/
def InOrder (view : SocketRequest Slot Data → β) (socket : BasicSocket Slot Data) : Prop :=
  ∀ direction, (ofDirection direction socket.accepted).map view =
    (socket.answered direction).map view ++ (socket.waiting direction).map view

theorem InOrder.of_same {view : SocketRequest Slot Data → β} (inOrder : socket.InOrder view)
    (ops : next.ops = socket.ops) (accepted : next.accepted = socket.accepted)
    (completed : next.completed = socket.completed) : next.InOrder view := by
  intro direction
  rw [answered, waiting, ops, accepted, completed]
  exact inOrder direction

theorem ofDirection_append (direction : Direction)
    (requests : List (SocketRequest Slot Data)) (request : SocketRequest Slot Data) :
    ofDirection direction (requests ++ [request]) =
      ofDirection direction requests ++
        if request.direction = direction then [request] else [] := by
  rw [ofDirection, List.filter_append, List.filter_singleton]
  by_cases same : request.direction = direction
  · rw [if_pos same, decide_eq_true same]
    rfl
  · rw [if_neg same, decide_eq_false same]
    rfl

/-- An answer is added in its own direction. -/
theorem answered_append {direction : Direction} {op : SocketOp Slot Data} {slot : Slot}
    {result : SendResult}
    (completed : next.completed = socket.completed ++ [⟨op.request direction slot, result⟩])
    (other : Direction) :
    next.answered other =
      socket.answered other ++
        if direction = other then [op.request direction slot] else [] := by
  rw [answered, completed, List.map_append]
  exact ofDirection_append other _ (op.request direction slot)

/-- No operation is started with other flags while one of its direction is pending. -/
def KeepsFlags (socket : BasicSocket Slot Data) : SocketAction Slot Data → Prop
  | .async direction _ _ flags =>
      (socket.ops direction).slot.isSome → (socket.ops direction).flags = flags
  | _ => True

instance (socket : BasicSocket Slot Data) (action : SocketAction Slot Data) :
    Decidable (socket.KeepsFlags action) :=
  match action with
  | .async direction _ _ flags =>
      inferInstanceAs (Decidable
        ((socket.ops direction).slot.isSome → (socket.ops direction).flags = flags))
  | .event _ | .complete _ | .pass | .returned | .thrown | .finish | .close | .reopen _ =>
      instDecidableTrue

theorem waiting_none {direction : Direction} (idle : (socket.ops direction).slot = none) :
    socket.waiting direction = [] := by
  rw [waiting, idle]
  rfl

theorem waiting_some {direction : Direction} {slot : Slot}
    (pending : (socket.ops direction).slot = some slot) :
    socket.waiting direction = [(socket.ops direction).request direction slot] := by
  rw [waiting, pending]
  rfl

/-- A request that is refused changes flags at most. -/
theorem InOrder.refused {view : SocketRequest Slot Data → β} (inOrder : socket.InOrder view)
    {direction : Direction} {flags : Int} (pending : (socket.ops direction).slot.isSome)
    (blind : ∀ slot, view ({ socket.ops direction with flags }.request direction slot) =
      view ((socket.ops direction).request direction slot)) :
    (socket.setOp direction { socket.ops direction with flags }).InOrder view := by
  intro other
  refine (inOrder other).trans (congrArg _ ?_)
  by_cases same : other = direction
  · subst same
    obtain ⟨waits, slotted⟩ := Option.isSome_iff_exists.mp pending
    have refused : (socket.setOp other { socket.ops other with flags }).waiting other =
        [{ socket.ops other with flags }.request other waits] := by
      rw [waiting, setOp_self, slotted]
      rfl
    rw [waiting_some slotted, refused, List.map_singleton, List.map_singleton, blind]
  · rw [waiting, waiting, setOp_ne socket same]

/-- A request that is accepted waits behind those that have been answered. -/
theorem InOrder.started {view : SocketRequest Slot Data → β} (inOrder : socket.InOrder view)
    {direction : Direction} {slot : Slot} {buf : Data} {flags : Int}
    (idle : (socket.ops direction).slot = none)
    (ops : next.ops = Function.update socket.ops direction ⟨some slot, some buf, flags⟩)
    (accepted : next.accepted = socket.accepted ++ [⟨direction, slot, some buf, flags⟩])
    (completed : next.completed = socket.completed) : next.InOrder view := by
  intro other
  rw [accepted, ofDirection_append, List.map_append, inOrder other, answered, answered, completed,
    List.append_assoc]
  refine congrArg _ ?_
  by_cases same : other = direction
  · subst same
    rw [if_pos rfl, waiting_none idle, waiting, ops, Function.update_self]
    rfl
  · rw [if_neg fun wrong => same wrong.symm, waiting, waiting, ops, Function.update_of_ne same]
    exact List.append_nil _

/-- The request that waits is the one that is answered. -/
theorem InOrder.invoked {view : SocketRequest Slot Data → β} (inOrder : socket.InOrder view)
    {direction : Direction} {slot : Slot} {result : SendResult}
    (pending : (socket.ops direction).slot = some slot)
    (ops : next.ops =
      Function.update socket.ops direction ((socket.ops direction).reset direction))
    (accepted : next.accepted = socket.accepted)
    (completed : next.completed = socket.completed ++
      [⟨(socket.ops direction).request direction slot, result⟩]) : next.InOrder view := by
  intro other
  rw [accepted, inOrder other, answered_append completed other, List.map_append,
    List.append_assoc]
  refine congrArg _ ?_
  by_cases same : other = direction
  · subst same
    have empty : next.waiting other = [] := by
      apply waiting_none
      rw [ops, Function.update_self]
      cases other <;> rfl
    rw [waiting_some pending, empty, if_pos rfl]
    rfl
  · rw [if_neg fun wrong => same wrong.symm, waiting, waiting, ops, Function.update_of_ne same]
    rfl

/-- Every step keeps the order. -/
theorem InOrder.step {view : SocketRequest Slot Data → β} (inOrder : socket.InOrder view)
    {action : SocketAction Slot Data}
    (blind : (∀ (op : SocketOp Slot Data) flags direction slot,
      view ({ op with flags }.request direction slot) = view (op.request direction slot)) ∨
      socket.KeepsFlags action)
    (taken : socket.step action = some next) : next.InOrder view := by
  cases stepped taken with
  | refused pending =>
      refine inOrder.refused pending fun slot => ?_
      rcases blind with blind | keeps
      · exact blind _ _ _ _
      · have same := keeps pending
        rw [← same]
  | started idle adds commits => exact inOrder.started idle rfl rfl rfl
  | invoked at_ before pending old runs => exact inOrder.invoked pending rfl rfl rfl
  | entered outside => exact inOrder.of_same rfl rfl rfl
  | moved at_ before old idle => exact inOrder.of_same rfl rfl rfl
  | blocked at_ before pending adds old idle => exact inOrder.of_same rfl rfl rfl
  | returned at_ ran dels old idle => exact inOrder.of_same rfl rfl rfl
  | thrown at_ => exact inOrder.of_same rfl rfl rfl
  | left at_ before commits => exact inOrder.of_same rfl rfl rfl
  | reset leaves resets => exact inOrder.of_same rfl rfl rfl

theorem inOrder_opened (view : SocketRequest Slot Data → β) (epoll : Epoll Unit) (fd : Nat) :
    (opened epoll fd : BasicSocket Slot Data).InOrder view := by
  intro direction
  rfl

/--
The operations of a direction complete once each and in the order of their calls, with the slot
and the buffer that they were started with; a call that is refused while one is pending leaves
no trace of these.
-/
theorem completed_in_order {epoll : Epoll Unit}
    (reached : Reachable step unguarded (opened epoll fd) socket) (direction : Direction) :
    (ofDirection direction socket.accepted).map SocketRequest.told =
      (socket.answered direction).map SocketRequest.told ++
        (socket.waiting direction).map SocketRequest.told := by
  have inOrder : socket.InOrder SocketRequest.told := by
    apply reached.invariant (inOrder_opened _ epoll fd)
    intro before action after inOrder _ taken
    exact inOrder.step (.inl fun _ _ _ _ => rfl) taken
  exact inOrder direction

/-- A socket that is not registered yet. -/
def sample : BasicSocket Nat Nat := opened (Epoll.create 1 2) 0

/-- A read is started, its event comes, and its slot is invoked. -/
def handling : List (SocketAction Nat Nat) :=
  [.async .read 5 7 0, .event PollEvents.read, .complete ⟨3, 0⟩]

/-- The slot starts a write and returns, and `on_io_event` ends after one more round. -/
def answering : List (SocketAction Nat Nat) :=
  [.async .write 6 8 0, .returned, .pass, .pass, .finish, .pass, .pass, .finish]

/-- A read is refused while another one is pending that has been started with other flags. -/
def refused : List (SocketAction Nat Nat) :=
  [.async .read 5 7 2, .async .read 6 8 0, .event PollEvents.read, .complete ⟨3, 0⟩]

/-- The refused read is not completed, and yet its flags are used. -/
theorem completed_in_order_refused :
    ∃ socket : BasicSocket Nat Nat,
      socket.accepted = [⟨.read, 5, some 7, 2⟩] ∧
      socket.completed.map Completion.toSocketRequest = [⟨.read, 5, some 7, 0⟩] ∧
      (ofDirection .read socket.accepted).map SocketRequest.told =
        (socket.answered .read).map SocketRequest.told ++
          (socket.waiting .read).map SocketRequest.told := by
  obtain ⟨taken, accepted, completed⟩ :
      ∃ taken : (execute step unguarded sample refused).isSome,
        (Option.get _ taken).accepted = [⟨.read, 5, some 7, 2⟩] ∧
          (Option.get _ taken).completed.map Completion.toSocketRequest =
            [⟨.read, 5, some 7, 0⟩] := by
    decide
  have reached : Reachable step unguarded sample (Option.get _ taken) :=
    ⟨_, Run.of_execute (Option.some_get taken).symm⟩
  exact ⟨Option.get _ taken, accepted, completed, completed_in_order reached .read⟩

/--
They complete with their own flags too, if no call is refused that brings other flags: these
are stored before the check.
-/
theorem completed_with_flags {epoll : Epoll Unit}
    (reached : Reachable step KeepsFlags (opened epoll fd) socket) (direction : Direction) :
    ofDirection direction socket.accepted =
      socket.answered direction ++ socket.waiting direction := by
  have inOrder : socket.InOrder id := by
    apply reached.invariant (inOrder_opened _ epoll fd)
    intro before action after inOrder keeps taken
    exact inOrder.step (.inr keeps) taken
  have same := inOrder direction
  rwa [List.map_id, List.map_id, List.map_id] at same

theorem completed_with_flags_write :
    ∃ socket : BasicSocket Nat Nat,
      ofDirection .write socket.accepted = [⟨.write, 6, some 8, 0⟩] ∧
        ofDirection .write socket.accepted = socket.answered .write ++ socket.waiting .write := by
  obtain ⟨taken, accepted⟩ :
      ∃ taken : (execute step KeepsFlags sample (handling ++ answering)).isSome,
        ofDirection .write (Option.get _ taken).accepted = [⟨.write, 6, some 8, 0⟩] := by
    decide
  have reached : Reachable step KeepsFlags sample (Option.get _ taken) :=
    ⟨_, Run.of_execute (Option.some_get taken).symm⟩
  exact ⟨Option.get _ taken, accepted, completed_with_flags reached .write⟩

end BasicSocket

end ReactiveToolbox.Io
