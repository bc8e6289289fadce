import ReactiveToolbox.Io.Buffer
import ReactiveToolbox.Io.Epoll

/-!
# Queued datagrams

`DgramSocket` queues what is to be sent: `async_sendto` appends an entry to a deque
and its payload to one byte buffer, and `SocketWriteQueue::complete` hands the
entries to `sendto` until one would block.  A completion handler runs in the middle
of `complete`, with its entry not yet removed, and may queue more.  The call is
therefore cut into steps: the outcome of one `sendto` with all that the code does up
to the handler, and the return of the handler.
-/

namespace ReactiveToolbox.Io

universe u v

/-- `ConstBuffer`: the bytes behind its pointer, unless that is null, and its size. -/
structure ConstBuffer where
  data : Option (List Byte)
  size : Nat
  deriving DecidableEq

/-- The size and the error code that a call of `sendto` gives. -/
structure SendResult where
  size : Int
  ec : Nat
  deriving DecidableEq

/-- `EWOULDBLOCK`. -/
def ewouldblock : Nat := 11

/-- `size<0 && ec.value()==EWOULDBLOCK`. -/
def SendResult.wouldBlock (result : SendResult) : Bool :=
  decide (result.size < 0) && decide (result.ec = ewouldblock)

/-- A datagram for `async_sendto`, with the slot of its completion. -/
structure Datagram (Endpoint : Type u) (Slot : Type v) where
  payload : List Byte
  nonempty : payload ≠ []
  endpoint : Endpoint
  slot : Slot

/-- `BasicDgramSocket::SocketWrite`; a null endpoint and an empty slot are `none`. -/
structure SocketWrite (Endpoint : Type u) (Slot : Type v) where
  slot : Option Slot
  data : ConstBuffer
  endpoint : Option Endpoint
  flags : Int

namespace SocketWrite

variable {Endpoint : Type u} {Slot : Type v}

/-- What `SocketWrite::reset` leaves. -/
def cleared : SocketWrite Endpoint Slot where
  slot := none
  data := { data := none, size := 0 }
  endpoint := none
  flags := 0

/-- `SocketWrite::empty`. -/
def empty (op : SocketWrite Endpoint Slot) : Bool := op.slot.isNone

/-- `SocketWrite::set_buf`. -/
def setBuf (op : SocketWrite Endpoint Slot) (data : ConstBuffer) : SocketWrite Endpoint Slot :=
  { op with data }

end SocketWrite

/-- `SocketWriteQueue<SocketWrite>`. -/
structure SocketWriteQueue (Endpoint : Type u) (Slot : Type v) where
  queue : List (SocketWrite Endpoint Slot)
  wbuf : Buffer
  next : SocketWrite Endpoint Slot

namespace SocketWriteQueue

variable {Endpoint : Type u} {Slot : Type v}

/-- A queue without an operation. -/
def create : SocketWriteQueue Endpoint Slot where
  queue := []
  wbuf := Buffer.create
  next := .cleared

/-- The events after `PollHandle::add(PollEvents::Write)`. -/
def addWrite (events : PollEvents) : PollEvents :=
  if events &&& PollEvents.write ≠ PollEvents.write then events.plus PollEvents.write else events

/-- The events after `PollHandle::del(PollEvents::Write)`. -/
def delWrite (events : PollEvents) : PollEvents :=
  if events &&& PollEvents.write ≠ 0 then events.minus PollEvents.write else events

/--
`BasicDgramSocket::async_sendto(buffer, endpoint, slot)`, down to
`SocketWriteQueue::prepare`, with the handle's events.  No result stands for the
exception of an operation in progress.
-/
def asyncSendto (self : SocketWriteQueue Endpoint Slot) (events : PollEvents)
    (datagram : Datagram Endpoint Slot) :
    Option (SocketWriteQueue Endpoint Slot × PollEvents) :=
  let next := { self.next with endpoint := some datagram.endpoint }
  if next.empty then
    let size := datagram.payload.length
    let prepared : SocketWrite Endpoint Slot :=
      { next with
        data := { data := some datagram.payload, size }
        slot := some datagram.slot }
    some ({
      wbuf := self.wbuf.append datagram.payload
      -- The payload is in `wbuf_` from here on, and only its size is kept.
      queue := self.queue ++ [prepared.setBuf { data := none, size }]
      next := .cleared }, addWrite events)
  else none

/-- The front of the queue with its payload, which `wbuf_` may have moved. -/
def front (self : SocketWriteQueue Endpoint Slot) : Option (SocketWrite Endpoint Slot) :=
  self.queue.head?.map fun op =>
    op.setBuf {
      data := some ((self.wbuf.buf.drop self.wbuf.rpos).take op.data.size)
      size := op.data.size }

/-- Another value of the front entry, which the deque refers to by reference. -/
def setFront (self : SocketWriteQueue Endpoint Slot) (op : SocketWrite Endpoint Slot) :
    SocketWriteQueue Endpoint Slot :=
  { self with queue := op :: self.queue.tail }

/-- The end of one turn of the loop of `complete`. -/
def release (self : SocketWriteQueue Endpoint Slot) (size : Nat) :
    SocketWriteQueue Endpoint Slot :=
  { self with
    wbuf := self.wbuf.consume size
    queue := self.queue.tail }

end SocketWriteQueue

/-- Where `complete` stands: not called, before a `sendto`, or in a handler. -/
inductive SendPhase where
  | idle
  | sending
  | handling (size : Nat)
  deriving DecidableEq

/-- A call of `sendto`. -/
structure SendAttempt (Endpoint : Type u) where
  bytes : List Byte
  flags : Int
  endpoint : Endpoint
  result : SendResult

/-- The socket's write queue and events, with a history of its calls. -/
structure DgramSender (Endpoint : Type u) (Slot : Type v) where
  write : SocketWriteQueue Endpoint Slot
  events : PollEvents
  phase : SendPhase
  queued : List (Datagram Endpoint Slot)
  attempts : List (SendAttempt Endpoint)
  completions : List (Slot × SendResult)

/-- What the caller, the kernel and a handler do. -/
inductive SendAction (Endpoint : Type u) (Slot : Type v) where
  | asyncSendto (datagram : Datagram Endpoint Slot)
  | complete
  | sendto (result : SendResult)
  | handled

namespace DgramSender

variable {Endpoint : Type u} {Slot : Type v}

/-- A socket with some interest, and nothing to send. -/
def initial (events : PollEvents) : DgramSender Endpoint Slot where
  write := .create
  events := events
  phase := .idle
  queued := []
  attempts := []
  completions := []

/-- The loop of `complete` goes on while the queue is not empty. -/
def loop (self : DgramSender Endpoint Slot) : DgramSender Endpoint Slot :=
  { self with phase := if self.write.queue.isEmpty then .idle else .sending }

/--
`async_sendto`, by the caller or by a handler.
-/
def stepAsyncSendto (self : DgramSender Endpoint Slot) (datagram : Datagram Endpoint Slot) :
    Option (DgramSender Endpoint Slot) :=
  (self.write.asyncSendto self.events datagram).map fun queued =>
    { self with
      write := queued.1
      events := queued.2
      queued := self.queued ++ [datagram] }

/--
One `sendto` in `SocketWrite::complete`, up to its return or to the handler.  A null
endpoint or an empty slot has no result.
-/
def stepSendto (self : DgramSender Endpoint Slot) (result : SendResult) :
    Option (DgramSender Endpoint Slot) :=
  self.write.front.bind fun op =>
    op.endpoint.bind fun endpoint =>
      op.data.data.bind fun bytes =>
        let attempts := self.attempts ++ [{ bytes, flags := op.flags, endpoint, result }]
        if result.wouldBlock then
          some { self with
            write := self.write.setFront op
            events := SocketWriteQueue.addWrite self.events
            phase := .idle
            attempts }
        else
          op.slot.map fun slot =>
            { self with
              -- `notify` resets the entry before it invokes the slot.
              write := self.write.setFront .cleared
              phase := .handling op.data.size
              attempts
              completions := self.completions ++ [(slot, result)] }

/-- A handler returns, and its entry and payload are removed. -/
def stepHandled (self : DgramSender Endpoint Slot) (size : Nat) : DgramSender Endpoint Slot :=
  loop { self with
    events :=
      if (self.write.queue.head?.map SocketWrite.empty).getD false then
        SocketWriteQueue.delWrite self.events
      else self.events
    write := self.write.release size }

/-- One step of a user or of the reactor. -/
def step (self : DgramSender Endpoint Slot) :
    SendAction Endpoint Slot → Option (DgramSender Endpoint Slot)
  | .asyncSendto datagram =>
      match self.phase with
      | .sending => none
      | .idle | .handling _ => self.stepAsyncSendto datagram
  | .complete =>
      match self.phase with
      | .idle => some self.loop
      | .sending | .handling _ => none
  | .sendto result =>
      match self.phase with
      | .sending => self.stepSendto result
      | .idle | .handling _ => none
  | .handled =>
      match self.phase with
      | .handling size => some (self.stepHandled size)
      | .idle | .sending => none

end DgramSender

end ReactiveToolbox.Io
