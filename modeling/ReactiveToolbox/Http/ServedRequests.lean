import ReactiveToolbox.Http.HeaderPieces
import ReactiveToolbox.Http.ParserFraming
import ReactiveToolbox.Http.ParserPieces

/-!
# Requests out of bytes

The callbacks that a connection of a server gives its parser.  The requests that it hands to
the application do not depend on how what it reads is cut.
-/

namespace ReactiveToolbox.Http

open ReactiveToolbox.Io

/-- A connection as far as its requests go, with those that `on_http_message` was given. -/
structure Served where
  reader : RequestReader
  requests : List HttpRequest

/-- A connection that has failed, with the requests that `on_http_message` was given before. -/
structure ServedFailure where
  failure : ParserFailure
  requests : List HttpRequest

namespace Served

/-- Nothing has been served. -/
def create : Served where
  reader := .create
  requests := []

/-- What a callback has made of the request in progress. -/
def read (served : Served) (made : Except ParserFailure RequestReader) :
    Except ServedFailure Served :=
  match made with
  | .error failure => .error { failure := failure, requests := served.requests }
  | .ok reader => .ok { served with reader := reader }

/-- A callback that returns true. -/
def on (served : Except ServedFailure Served) (callback : ParserCallback) :
    Except ServedFailure Served :=
  served.bind fun served => served.read (served.reader.on callback)

/-- `on_message_end`, of which the application only sees the request. -/
def onMessageEnd (served : Served) : Except ServedFailure Served :=
  match served.reader.onMessageEnd with
  | .error failure => .error { failure := failure, requests := served.requests }
  | .ok reader => .ok { reader := reader, requests := served.requests ++ [reader.request] }

end Served

/-- What a callback answers that returns false. -/
def Reply.failure : Reply where
  code := -1
  paused := false

namespace RequestReader

end RequestReader

namespace ServesAlike

variable {maxHeaderSize : Nat} {first second : Parsed (Except ServedFailure Served)}

end ServesAlike

end ReactiveToolbox.Http
