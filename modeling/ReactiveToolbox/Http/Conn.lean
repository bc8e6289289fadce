import ReactiveToolbox.Io.Buffer
import ReactiveToolbox.Io.Epoll
import ReactiveToolbox.Io.MultiReactor

/-!
# One HTTP connection

`BasicHttpConn` reads requests from its socket, lets the application append
responses to `out_` and writes them back.  What the socket, the vendored parser
and the application do during one event is an input of that event: the parser
is the sequence of callbacks it makes and the count it returns.

The connection's own poll handle is on an `Epoll` poller, which the constructor asks
its reactor for.  Beside the fields of the source a connection keeps what was
committed to `out_`, what the socket took, and what came of every write of
`flush_output`.
-/

namespace ReactiveToolbox.Http

open ReactiveToolbox.Io

/-! ## What the surroundings do -/

/-- The result of a socket read; no bytes mean that the peer has shut down. -/
inductive ReadOutcome where
  | data (bytes : List Byte)
  | wouldBlock
  | failed

/-- The result of a socket write. -/
inductive WriteOutcome where
  | accepted (count : Nat)
  | wouldBlock
  | failed
  deriving DecidableEq

/-- The bytes that a write takes from what it is handed. -/
def WriteOutcome.takes (bytes : List Byte) : WriteOutcome → List Byte
  | .accepted count => bytes.take count
  | _ => []

/-- A call of the error slot: the responses it commits, and whether it throws. -/
structure ErrorSlot where
  responses : List (List Byte)
  throws : Bool

/-- A call of the message slot: its responses, whether it disposes, and how it throws. -/
structure MessageSlot where
  responses : List (List Byte)
  disposes : Bool
  throws : Option ErrorSlot

/--
A callback of the parser.

The callbacks for the URL, the header fields and values and the body only
append to the request, and may fail at that.
-/
inductive Callback where
  | messageBegin
  | data (failure : Option ErrorSlot)
  | messageEnd (slot : MessageSlot)

/-- `http_parser_execute`: its callbacks, and the bytes parsed unless the input is bad. -/
structure Script where
  callbacks : List Callback
  consumed : Option Nat

/-- An event of the connection's socket, with all that happens while it is handled. -/
structure IoEvent where
  events : PollEvents
  reads : List ReadOutcome
  script : Script
  keepAlive : Bool
  write : WriteOutcome
  error : ErrorSlot
  drain : WriteOutcome

/-- What came of a write of `flush_output`. -/
structure Written where
  outcome : WriteOutcome
  errorCalled : Bool
  disposed : Bool
  deriving DecidableEq

/-- `BasicHttpConn`, with its disposer. -/
structure Conn where
  sock : Nat
  epoll : Epoll Unit
  sub : PollHandle Unit
  in_ : Buffer
  out_ : Buffer
  inProgress : Bool
  writeBlocked : Bool
  locks : Nat
  dispose_ : Bool
  deleted : Bool
  committed : List Byte
  handed : List Byte
  errorCalls : Nat
  disposals : Nat
  writes : List Written

namespace Conn

/-- `Reactor::poller`, which every reactor implements; there may be no poller for a number. -/
abbrev PollerOf := BitVec 32 → Option (Epoll Unit)

/--
`BasicHttpConn()`: subscribe for reading.  The poller is the one for the number that is left
in the argument, out of which `sock_` has been moved; a null pointer is dereferenced.
-/
def create (poller : PollerOf) (sock : Nat) : Option Conn :=
  (poller (-1)).bind fun epoll =>
    ((PollHandle.create sock).addSlot epoll PollEvents.read (some ())).map fun polled => {
      sock := sock
      epoll := polled.1
      sub := polled.2
      in_ := .create
      out_ := .create
      inProgress := false
      writeBlocked := false
      locks := 0
      dispose_ := false
      deleted := false
      committed := []
      handed := []
      errorCalls := 0
      disposals := 0
      writes := [] }

/-- On a `BasicMultiReactor` no connection can be constructed. -/
theorem create_multiReactor (reactor : BasicMultiReactor) (few : reactor.implsSize < 2 ^ 20)
    (epolls : reactor.Poller → Epoll Unit) (sock : Nat) :
    create (fun fd => (reactor.poller fd).map epolls) sock = none := by
  rw [create, reactor.poller_moved few]
  rfl

/-! ## Responses and disposal -/

/-- One response written to the stream of `out_` and committed. -/
def commitResponse (conn : Conn) (response : List Byte) : Conn :=
  { conn with
    out_ := conn.out_.append response
    committed := conn.committed ++ response }

/-- The responses that a slot commits, one after another. -/
def respond (conn : Conn) (responses : List (List Byte)) : Conn :=
  responses.foldl commitResponse conn

/-- `on_http_error`, without the exception the slot may throw. -/
def onHttpError (conn : Conn) (slot : ErrorSlot) : Conn :=
  { conn with errorCalls := conn.errorCalls + 1 }.respond slot.responses

/-- `dispose_now`: a best-effort write, and the destructor, which resets the handle. -/
def disposeNow (conn : Conn) (drain : WriteOutcome) : Option Conn :=
  (conn.sub.reset conn.epoll).map fun polled => {
    conn with
    epoll := polled.1
    sub := polled.2
    handed := conn.handed ++
      (if conn.out_.empty then [] else drain.takes conn.out_.readable)
    deleted := true }

/-- `BasicDisposer::dispose`. -/
def dispose (conn : Conn) (drain : WriteOutcome) : Option Conn :=
  let conn := { conn with disposals := conn.disposals + 1 }
  if conn.locks = 0 then disposeNow { conn with locks := 1 } drain
  else some { conn with dispose_ := true }

/-- `BasicDisposer::lock_this`. -/
def lock (conn : Conn) : Conn :=
  { conn with locks := conn.locks + 1 }

/-- The end of the scope of the lock. -/
def unlock (conn : Conn) (drain : WriteOutcome) : Option Conn :=
  let conn := { conn with locks := conn.locks - 1 }
  if conn.locks = 0 ∧ conn.dispose_ = true then disposeNow { conn with locks := 1 } drain
  else some conn

/-! ## Input -/

/--
One callback, and whether the parser goes on.

The callbacks are `noexcept`: there is no result where the error slot throws.
-/
def callback (conn : Conn) (drain : WriteOutcome) : Callback → Option (Conn × Bool)
  | .messageBegin => some ({ conn with inProgress := true }, true)
  | .data none => some (conn, true)
  | .data (some error) =>
      if error.throws then none
      else ((conn.onHttpError error).dispose drain).map fun conn => (conn, false)
  | .messageEnd slot =>
      let conn := { conn with inProgress := false }.respond slot.responses
      (if slot.disposes then conn.dispose drain else some conn).bind fun conn =>
        match slot.throws with
        | none => some (conn, true)
        | some error =>
            if error.throws then none
            else ((conn.onHttpError error).dispose drain).map fun conn => (conn, false)

/-- The callbacks of one parse, up to one that stops the parser. -/
def runCallbacks (conn : Conn) (drain : WriteOutcome) : List Callback → Option (Conn × Bool)
  | [] => some (conn, true)
  | first :: rest =>
      (conn.callback drain first).bind fun called =>
        if called.2 then called.1.runCallbacks drain rest else some called

/-- `flush_input`, and whether it returned; it throws `HttpException` otherwise. -/
def flushInput (conn : Conn) (drain : WriteOutcome) (script : Script) : Option (Conn × Bool) :=
  (conn.runCallbacks drain script.callbacks).map fun parsed =>
    match parsed.2, script.consumed with
    | true, some consumed =>
        ({ parsed.1 with
          in_ := parsed.1.in_.consume (min consumed parsed.1.in_.size) }, true)
    | _, _ => (parsed.1, false)

/-- How a round of reads ends. -/
inductive ReadEnd where
  | drained
  | closed
  | failed

/-- The reads of `drain_input`, at most as many as given. -/
def readLoop : Nat → Buffer → List ReadOutcome → Buffer × ReadEnd
  | 0, buffer, _ => (buffer, .drained)
  | limit + 1, buffer, outcomes =>
      let prepared := buffer.prepare 2944
      match outcomes with
      | [] | .wouldBlock :: _ => (prepared.1, .drained)
      | .failed :: _ => (prepared.1, .failed)
      | .data bytes :: rest =>
          let read := bytes.take prepared.2
          if read = [] then (prepared.1, .closed)
          else
            let buffer := (prepared.1.store 0 read).commit read.length
            if read.length < prepared.2 then (buffer, .drained)
            else readLoop limit buffer rest

/-- How `drain_input` ends: it returns true or false, or throws one of two exceptions. -/
inductive Drained where
  | opened
  | closed
  | malformed
  | failed
  deriving DecidableEq

/-- `drain_input`; the timer it reschedules is left out. -/
def drainInput (conn : Conn) (event : IoEvent) : Option (Conn × Drained) :=
  let read := readLoop 4 conn.in_ event.reads
  let conn := { conn with in_ := read.1 }
  match read.2 with
  | .failed => some (conn, .failed)
  | .closed => (conn.flushInput event.drain event.script).map fun flushed =>
      (flushed.1, if flushed.2 then .closed else .malformed)
  | .drained => (conn.flushInput event.drain event.script).map fun flushed =>
      (flushed.1, if flushed.2 then .opened else .malformed)

/-! ## Output -/

/-- `sub_.events(events)`: the setter of the handle, which does not commit. -/
def setEvents (conn : Conn) (events : PollEvents) : Conn :=
  { conn with sub := { conn.sub with events := events } }

/-- `flush_output`, and whether it returned; `os::write` throws otherwise. -/
def flushOutput (conn : Conn) (event : IoEvent) : Option (Conn × Bool) :=
  match event.write with
  | .accepted count =>
      let sent := conn.out_.readable.take count
      let conn := {
        conn with
        out_ := conn.out_.consume sent.length
        handed := conn.handed ++ sent }
      if conn.out_.empty then
        if !conn.inProgress && !event.keepAlive then
          (conn.dispose event.drain).map fun conn => (conn, true)
        else if conn.writeBlocked then
          some ({ conn.setEvents PollEvents.read with writeBlocked := false }, true)
        else some (conn, true)
      else if conn.writeBlocked then some (conn, true)
      else
        some ({
          conn.setEvents (PollEvents.read.plus PollEvents.write) with
          writeBlocked := true }, true)
  | .wouldBlock | .failed => some (conn, false)

/-- The handler of `std::exception` in `on_io_event`. -/
def onFailure (conn : Conn) (event : IoEvent) : Option Conn :=
  if event.error.throws then some (conn.onHttpError event.error)
  else (conn.onHttpError event.error).dispose event.drain

/-- Note what came of a write of `flush_output`. -/
def recordWrite (before after : Conn) (outcome : WriteOutcome) : Conn :=
  { after with
    writes := after.writes ++ [{
      outcome := outcome
      errorCalled := decide (before.errorCalls < after.errorCalls)
      disposed := decide (before.disposals < after.disposals) }] }

/-- The body of `on_io_event` after the input has been drained. -/
def afterInput (conn : Conn) (event : IoEvent) : Drained → Option Conn
  | .malformed => some conn
  | .failed => conn.onFailure event
  | .closed => conn.dispose event.drain
  | .opened =>
      if conn.out_.empty ∨
          (conn.writeBlocked = true ∧ event.events &&& PollEvents.write = 0) then
        some conn
      else
        (conn.flushOutput event).bind fun flushed =>
          (if flushed.2 then some flushed.1 else flushed.1.onFailure event).map fun after =>
            conn.recordWrite after event.write

/-- `on_io_event`. -/
def onIoEvent (conn : Conn) (event : IoEvent) : Option Conn :=
  (if event.events &&& PollEvents.read ≠ 0 then conn.lock.drainInput event
    else some (conn.lock, .opened)).bind fun drained =>
      (drained.1.afterInput event drained.2).bind fun conn => conn.unlock event.drain

/-- `on_timeout_timer`. -/
def onTimeoutTimer (conn : Conn) (drain : WriteOutcome) : Option Conn :=
  (conn.lock.dispose drain).bind fun conn => conn.unlock drain

end Conn

/-! ## The life of a connection -/

/--
Events of the socket, the timer, responses appended by the application outside
any event, a dispose from outside, and whatever else happens on the poller.
-/
inductive ConnAction where
  | io (event : IoEvent)
  | timeout (drain : WriteOutcome)
  | respond (responses : List (List Byte))
  | dispose (drain : WriteOutcome)
  | others (epoll : Epoll Unit)

/-- Other handles of the poller never touch the descriptor of the connection. -/
def Conn.step (conn : Conn) (action : ConnAction) : Option Conn :=
  if conn.deleted then none
  else
    match action with
    | .io event => conn.onIoEvent event
    | .timeout drain => conn.onTimeoutTimer drain
    | .respond responses => some (conn.respond responses)
    | .dispose drain => conn.dispose drain
    | .others epoll =>
        if epoll.data conn.sock = conn.epoll.data conn.sock ∧
            epoll.kernel.registered conn.sock = conn.epoll.kernel.registered conn.sock then
          some { conn with epoll := epoll }
        else none

end ReactiveToolbox.Http
