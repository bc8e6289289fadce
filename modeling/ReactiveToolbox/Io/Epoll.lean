import Mathlib.Data.BitVec
import Mathlib.Logic.Function.Basic

/-!
# Poll handles and the epoll poller

A `PollHandle` holds the events and the slot its owner asks for, and `commit`
carries them to the poller, at once or after a batch.  `Epoll` keeps a row of
its own for every descriptor and registers the descriptor with the kernel.

A slot is a type variable with decidable equality and an absent slot is `none`.
A failing `epoll_ctl` throws out of functions declared `noexcept`, so a call
that would fail has no result.
-/

namespace ReactiveToolbox.Io

universe u

/-! ## Events -/

/-- `PollEvents`: a set of flags. -/
abbrev PollEvents := BitVec 32

namespace PollEvents

/-- `PollEvents::None`. -/
def none : PollEvents := 0
/-- `PollEvents::Read`. -/
def read : PollEvents := 1
/-- `PollEvents::Write`. -/
def write : PollEvents := 4
/-- `PollEvents::Error`. -/
def error : PollEvents := 8
/-- `PollEvents::ET`. -/
def et : PollEvents := 0x80000000

/-- `operator+(PollEvents, PollEvents)`. -/
def plus (events more : PollEvents) : PollEvents := events ||| more

/-- `operator-(PollEvents, PollEvents)`. -/
def minus (events fewer : PollEvents) : PollEvents := events &&& ~~~fewer

end PollEvents

/-- `EPOLLIN`, `EPOLLOUT`, `EPOLLERR`, `EPOLLHUP` and `EPOLLET`. -/
def epollIn : BitVec 32 := 0x001
def epollOut : BitVec 32 := 0x004
def epollErr : BitVec 32 := 0x008
def epollHup : BitVec 32 := 0x010
def epollEt : BitVec 32 := 0x80000000

/-- `Epoll::to_epoll_events`; the mode of the build is level-triggered, zero. -/
def toEpollEvents (events : PollEvents) : BitVec 32 :=
  (if events &&& PollEvents.read ≠ 0 then epollIn else 0) |||
    (if events &&& PollEvents.write ≠ 0 then epollOut else 0) |||
    (if events &&& PollEvents.error ≠ 0 then epollErr ||| epollHup else 0) |||
    (if events &&& PollEvents.et ≠ 0 then epollEt else 0)

/-- `Epoll::from_epoll_events`. -/
def fromEpollEvents (mask : BitVec 32) : PollEvents :=
  (if mask &&& epollIn ≠ 0 then PollEvents.read else 0) |||
    (if mask &&& epollOut ≠ 0 then PollEvents.write else 0) |||
    (if mask &&& (epollErr ||| epollHup) ≠ 0 then PollEvents.error else 0)

/-! ## Subscriptions -/

/-- `PollFD`; the descriptor `-1` of a reset one is `none`. -/
structure PollFD (Slot : Type u) where
  fd : Option Nat
  sid : Nat
  events : PollEvents
  slot : Option Slot
  deriving DecidableEq

/-- `PollHandle`, with the bits of its flags. -/
structure PollHandle (Slot : Type u) extends PollFD Slot where
  batchCtl : Bool
  pendingCtl : Bool
  deriving DecidableEq

namespace PollFD

variable {Slot : Type u}

/-- What `PollFD::reset` leaves. -/
def cleared : PollFD Slot where
  fd := none
  sid := 0
  events := PollEvents.none
  slot := none

/-- `PollFD::empty`. -/
def empty (poll : PollFD Slot) : Bool := poll.slot.isNone

end PollFD

/-- `PollFD::next_sid`, without the number it returns. -/
def PollHandle.nextSid {Slot : Type u} (handle : PollHandle Slot) : PollHandle Slot :=
  { handle with sid := handle.sid + 1 }

/-- What the kernel keeps of a registered descriptor, and which `EPOLL_CTL_ADD` made it. -/
structure Registration where
  events : BitVec 32
  sid : Nat
  number : Nat
  deriving DecidableEq

/-- The interest list of the kernel; `added` counts the registrations ever made. -/
structure Kernel where
  registered : Nat → Option Registration
  added : Nat → Nat

namespace Kernel

/-- `EPOLL_CTL_ADD`, which fails on a registered descriptor. -/
def add (kernel : Kernel) (fd sid : Nat) (events : PollEvents) : Option Kernel :=
  match kernel.registered fd with
  | some _ => none
  | none => some {
      registered := Function.update kernel.registered fd
        (some { events := toEpollEvents events, sid := sid, number := kernel.added fd + 1 })
      added := Function.update kernel.added fd (kernel.added fd + 1) }

/-- `EPOLL_CTL_MOD`, which fails on an unregistered descriptor. -/
def mod (kernel : Kernel) (fd sid : Nat) (events : PollEvents) : Option Kernel :=
  (kernel.registered fd).map fun registration => {
    kernel with
    registered := Function.update kernel.registered fd
      (some { registration with events := toEpollEvents events, sid := sid }) }

/-- `EPOLL_CTL_DEL`, which fails on an unregistered descriptor. -/
def del (kernel : Kernel) (fd : Nat) : Option Kernel :=
  (kernel.registered fd).map fun _ => {
    kernel with registered := Function.update kernel.registered fd none }

/-- Closing a descriptor ends its registration. -/
def close (kernel : Kernel) (fd : Nat) : Kernel :=
  { kernel with registered := Function.update kernel.registered fd none }

end Kernel

/-! ## The poller -/

/-- `Epoll`: its own two descriptors, its rows (absent rows are cleared ones), the kernel. -/
structure Epoll (Slot : Type u) where
  timerFd : Nat
  notifyFd : Nat
  data : Nat → PollFD Slot
  kernel : Kernel

namespace Epoll

variable {Slot : Type u}

/-- The entry of a descriptor is set. -/
def setData (epoll : Epoll Slot) (fd : Nat) (poll : PollFD Slot) : Epoll Slot :=
  { epoll with data := Function.update epoll.data fd poll }

/-- What the kernel has registered is set. -/
def setKernel (epoll : Epoll Slot) (kernel : Kernel) : Epoll Slot :=
  { epoll with kernel := kernel }

/-- `Epoll()`: only the timer and the notifier are registered. -/
def create (timerFd notifyFd : Nat) : Epoll Slot where
  timerFd := timerFd
  notifyFd := notifyFd
  data := fun _ => .cleared
  kernel := {
    registered := fun fd =>
      if fd = timerFd ∨ fd = notifyFd then
        some { events := toEpollEvents PollEvents.read, sid := 0, number := 0 }
      else none
    added := fun _ => 0 }

/--
`Epoll::ctl`, with the handle it may renumber and the answer it gives.

A handle without a descriptor has no row; with a slot it would index past any
table.
-/
def ctl (epoll : Epoll Slot) (handle : PollHandle Slot) :
    Option (Epoll Slot × PollHandle Slot × Bool) :=
  match handle.slot, handle.fd with
  | none, none => some (epoll, handle, false)
  | none, some fd =>
      if (epoll.data fd).empty then some (epoll, handle, false)
      else
        (epoll.kernel.del fd).map fun kernel =>
          ((epoll.setKernel kernel).setData fd .cleared, handle, true)
  | some _, none => none
  | some slot, some fd =>
      let ref := epoll.data fd
      if ref.empty then
        if handle.events = 0 then some (epoll, handle, true)
        else
          let handle := handle.nextSid
          (epoll.kernel.add fd handle.sid handle.events).map fun kernel =>
            ((epoll.setData fd handle.toPollFD).setKernel kernel, handle, true)
      else if ref.sid ≠ handle.sid then some (epoll, handle, false)
      else
        (if handle.events = ref.events then some epoll.kernel
          else epoll.kernel.mod fd handle.sid handle.events).map fun kernel =>
            ((epoll.setKernel kernel).setData fd
              { ref with events := handle.events, slot := some slot }, handle, true)

end Epoll

/-! ## Operations of a handle -/

/-- A poller and one handle of it. -/
abbrev Polled (Slot : Type u) := Epoll Slot × PollHandle Slot

namespace PollHandle

variable {Slot : Type u}

/-- `PollHandle(int fd, IPoller*)`. -/
def create (fd : Nat) : PollHandle Slot where
  fd := some fd
  sid := 0
  events := PollEvents.none
  slot := none
  batchCtl := false
  pendingCtl := false

/-- A handle that has never had a descriptor. -/
def unopened : PollHandle Slot where
  toPollFD := .cleared
  batchCtl := false
  pendingCtl := false

/-- `PollHandle::commit`. -/
def commit (handle : PollHandle Slot) (epoll : Epoll Slot) (force : Bool) :
    Option (Polled Slot) :=
  if force || !handle.batchCtl || handle.pendingCtl then
    (epoll.ctl handle).map fun result =>
      (result.1, { result.2.1 with pendingCtl := false })
  else some (epoll, handle)

/-- `PollHandle::reset`; the flags stay. -/
def reset (handle : PollHandle Slot) (epoll : Epoll Slot) : Option (Polled Slot) :=
  (if handle.slot.isSome ∨ handle.events ≠ PollEvents.none then
    commit { handle with events := PollEvents.none, slot := none } epoll false
  else some (epoll, handle)).map fun polled =>
    (polled.1, { polled.2 with toPollFD := .cleared })

/-- `PollHandle::del(PollEvents)`. -/
def del (handle : PollHandle Slot) (epoll : Epoll Slot) (events : PollEvents) :
    Option (Polled Slot) :=
  if handle.events &&& events ≠ 0 then
    commit { handle with events := handle.events.minus events } epoll false
  else some (epoll, handle)

/-- `PollHandle::add(PollEvents)`. -/
def add (handle : PollHandle Slot) (epoll : Epoll Slot) (events : PollEvents) :
    Option (Polled Slot) :=
  if handle.events &&& events ≠ events then
    let handle := { handle with events := handle.events.plus events }
    if handle.slot.isSome then handle.commit epoll false else some (epoll, handle)
  else some (epoll, handle)

variable [DecidableEq Slot]

/-- `PollHandle::del(PollEvents, IoSlot)`. -/
def delSlot (handle : PollHandle Slot) (epoll : Epoll Slot) (events : PollEvents)
    (slot : Option Slot) : Option (Polled Slot) :=
  if handle.events &&& events ≠ 0 ∨ slot ≠ handle.slot then
    commit { handle with events := handle.events.minus events, slot := slot } epoll false
  else some (epoll, handle)

/-- `PollHandle::add(PollEvents, IoSlot)`. -/
def addSlot (handle : PollHandle Slot) (epoll : Epoll Slot) (events : PollEvents)
    (slot : Option Slot) : Option (Polled Slot) :=
  if slot ≠ handle.slot ∨ handle.events &&& events ≠ events then
    commit { handle with slot := slot, events := handle.events.plus events } epoll false
  else some (epoll, handle)

/-- `PollHandle::mod(IoSlot)`. -/
def mod (handle : PollHandle Slot) (epoll : Epoll Slot) (slot : Option Slot) :
    Option (Polled Slot) :=
  if handle.slot ≠ slot then commit { handle with slot := slot } epoll false
  else some (epoll, handle)

/-- `PollHandle::batching`, without the previous value it returns. -/
def batching (handle : PollHandle Slot) (enable : Bool) : PollHandle Slot :=
  { handle with batchCtl := enable }

end PollHandle

/-- The public operations of a handle. -/
inductive HandleOp (Slot : Type u) where
  | add (events : PollEvents)
  | addSlot (events : PollEvents) (slot : Option Slot)
  | del (events : PollEvents)
  | delSlot (events : PollEvents) (slot : Option Slot)
  | mod (slot : Option Slot)
  | reset
  | batching (enable : Bool)
  | commit (force : Bool)

/-- One operation of a handle on its poller. -/
def PollHandle.apply {Slot : Type u} [DecidableEq Slot]
    (handle : PollHandle Slot) (epoll : Epoll Slot) :
    HandleOp Slot → Option (Polled Slot)
  | .add events => handle.add epoll events
  | .addSlot events slot => handle.addSlot epoll events slot
  | .del events => handle.del epoll events
  | .delSlot events slot => handle.delSlot epoll events slot
  | .mod slot => handle.mod epoll slot
  | .reset => handle.reset epoll
  | .batching enable => some (epoll, handle.batching enable)
  | .commit force => handle.commit epoll force

end ReactiveToolbox.Io
