import ReactiveToolbox.Http.ConnOutput

/-!
# The interest registered for a connection

`flush_output` sets the events of the handle and never commits them, so the
poller keeps the interest in reading that the constructor registered.  A
connection is therefore resumed exactly as long as every event leaves nothing
to be written.
-/

namespace ReactiveToolbox.Http

open ReactiveToolbox.Io
open ReactiveToolbox.Lib

/-! ## What an event brings -/

namespace Callback

/-- The parser goes on behind a callback that succeeds. -/
def goesOn : Callback → Bool
  | .messageBegin => true
  | .data failure => failure.isNone
  | .messageEnd slot => slot.throws.isNone

/-- The responses of the message slot, and those of the error slot. -/
def appended : Callback → List Byte
  | .messageBegin => []
  | .data failure => (failure.map fun error => error.responses.flatten).getD []
  | .messageEnd slot => slot.responses.flatten ++
      (slot.throws.map fun error => error.responses.flatten).getD []

/-- The slots ask for a disposal, and so does a failure. -/
def disposes : Callback → Bool
  | .messageBegin => false
  | .data failure => failure.isSome
  | .messageEnd slot => slot.disposes || slot.throws.isSome

/-- The callbacks up to one that stops the parser. -/
def made : List Callback → List Callback
  | [] => []
  | first :: rest => first :: if first.goesOn then made rest else []

end Callback

namespace Script

/-- The bytes that the slots of a call append. -/
def appended (script : Script) : List Byte :=
  (Callback.made script.callbacks).flatMap Callback.appended

/-- A slot of the call disposes of the connection. -/
def disposes (script : Script) : Bool :=
  (Callback.made script.callbacks).any Callback.disposes

/-- The input is parsed to its end. -/
def good (script : Script) : Bool :=
  script.callbacks.all Callback.goesOn && script.consumed.isSome

end Script

/-- A write takes all that is pending, or fails and ends in a disposal. -/
def IoEvent.Answers (event : IoEvent) (pending : List Byte) : Prop :=
  pending = [] ∨
    match event.write with
    | .accepted count => pending.length ≤ count
    | _ => event.error.throws = false

namespace Conn

variable {conn middle after next : Conn}

/-- A live connection with nothing to write, registered for reading. -/
structure Quiet (conn : Conn) : Prop where
  accounted : Accounted conn
  nothing : conn.out_.readable = []
  row : (conn.epoll.data conn.sock).events = PollEvents.read
  writeBlocked : conn.writeBlocked = false
  dispose_ : conn.dispose_ = false
  locks : conn.locks = 0

end Conn

end ReactiveToolbox.Http
