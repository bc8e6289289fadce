import ReactiveToolbox.Http.HttpParserHeaders

/-!
# The loop of the vendored HTTP parser

`http_parser_execute` and the callbacks that it makes.  A callback answers with a number
and may pause the parser; what it does besides is a change of a state of its own.  Texts
are handed over from where they were marked, at the latest when the data end.
-/

namespace ReactiveToolbox.Http

open ReactiveToolbox.Io

universe u

/-- `http_parser`. -/
structure HttpParser where
  state : ParserState
  fields : ParserFields
  nread : Nat
  httpErrno : HttpErrno
  deriving DecidableEq

namespace HttpParser

/-- `http_parser_init`. -/
def init (type : ParserType) : HttpParser where
  state :=
    match type with
    | .request => .startReq
    | .response => .startRes
    | .both => .startReqOrRes
  fields :=
    { type := type
      flags := .none
      headerState := .general
      index := 0
      lenientHttpHeaders := false
      contentLength := 0
      httpMajor := 0
      httpMinor := 0
      statusCode := 0
      method := .delete
      upgrade := false }
  nread := 0
  httpErrno := .ok

end HttpParser

/-- What a callback answers: its result, and whether it has called `http_parser_pause`. -/
structure Reply where
  code : Int
  paused : Bool
  deriving DecidableEq

/-- What a callback answers that is content. -/
def Reply.success : Reply where
  code := 0
  paused := false

/-- The errors of callbacks that do not return zero. -/
def Notice.errno : Notice → HttpErrno
  | .messageBegin => .cbMessageBegin
  | .messageComplete => .cbMessageComplete
  | .chunkHeader => .cbChunkHeader
  | .chunkComplete => .cbChunkComplete

/-- The error of a callback for a piece that is not zero. -/
def Piece.errno : Piece → HttpErrno
  | .headerField => .cbHeaderField
  | .headerValue => .cbHeaderValue
  | .url => .cbUrl
  | .body => .cbBody
  | .status => .cbStatus

/-- `HTTP_PARSER_ERRNO(parser)` after a callback that has an error of its own. -/
def Reply.errno (reply : Reply) (error : HttpErrno) : HttpErrno :=
  if reply.code ≠ 0 then error else if reply.paused then .paused else .ok

/-- `http_parser_settings` and `max_header_size`. -/
structure ParserSettings (σ : Type u) where
  /-- Thirty-two bits. -/
  maxHeaderSize : Nat
  notify : Notice → ParserFields → σ → Reply × σ
  headersComplete : ParserFields → σ → Reply × σ
  data : Piece → List Byte → σ → Reply × σ

/-- The variables of `http_parser_execute`, with what the callbacks have made of their own
state.  The errors of the parser are not among them: what sets one returns. -/
structure Execution (σ : Type u) where
  /-- `p - data`. -/
  p : Nat
  state : ParserState
  fields : ParserFields
  nread : Nat
  /-- `parser->nread`. -/
  stored : Nat
  /-- The marks, less `data`. -/
  mark : Piece → Option Nat
  user : σ

/-- How far an execution is. -/
inductive Outcome (σ : Type u) where
  | running (execution : Execution σ)
  | returned (consumed : Nat) (parser : HttpParser) (user : σ)
  /-- An assertion does not hold. -/
  | aborted

namespace Outcome

variable {σ : Type u}

/-- An execution goes on if it is still running. -/
def andThen (outcome : Outcome σ) (go : Execution σ → Outcome σ) : Outcome σ :=
  match outcome with
  | .running execution => go execution
  | .returned consumed parser user => .returned consumed parser user
  | .aborted => .aborted

end Outcome

namespace Execution

variable {σ : Type u} (settings : ParserSettings σ) (data : List Byte)

/-- A mark is set or cleared. -/
def setMark (execution : Execution σ) (piece : Piece) (position : Option Nat) : Execution σ :=
  { execution with mark := Function.update execution.mark piece position }

/-- The text of a mark up to `more` behind the position. -/
def marked (execution : Execution σ) (start more : Nat) : List Byte :=
  (data.drop start).take (execution.p + more - start)

/-- `SET_ERRNO` and the return from an error. -/
def failed (execution : Execution σ) (errno : HttpErrno) (state : ParserState)
    (fields : ParserFields) : Outcome σ :=
  .returned execution.p
    { state := state, fields := fields, nread := execution.nread, httpErrno := errno }
    execution.user

/-- What follows a callback that has answered: it goes on, or it returns `passed` behind the
position.  `SET_ERRNO` stores the count of bytes, and `http_parser_pause` does not. -/
def answered (execution : Execution σ) (reply : Reply) (error : HttpErrno) (passed : Nat)
    (state : ParserState) (fields : ParserFields) (go : Execution σ → Outcome σ) : Outcome σ :=
  if reply.errno error ≠ .ok then
    .returned (execution.p + passed)
      { state := state
        fields := fields
        nread := if reply.code ≠ 0 then execution.nread else execution.stored
        httpErrno := reply.errno error }
      execution.user
  else go { execution with state := state, fields := fields }

/-- The answer to `on_headers_complete`, which may skip the body and upgrade. -/
def headersAnswered (execution : Execution σ) (reply : Reply) (state : ParserState)
    (fields : ParserFields) (go : Execution σ → ParserFields → Outcome σ) : Outcome σ :=
  let fields :=
    if reply.code = 2 then { fields with upgrade := true } else fields
  let fields :=
    if reply.code = 1 ∨ reply.code = 2 then
      fields.withFlags { fields.flags with skipbody := true }
    else fields
  if reply.code ≠ 0 ∧ reply.code ≠ 1 ∧ reply.code ≠ 2 then
    execution.failed .cbHeadersComplete state fields
  else if reply.paused then execution.failed .paused state fields
  else go { execution with state := state, fields := fields } fields

/-- `CALLBACK_DATA_`, and what comes after it. -/
def callData (execution : Execution σ) (piece : Piece) (more passed : Nat)
    (state : ParserState) (fields : ParserFields) (go : Execution σ → Outcome σ) : Outcome σ :=
  match execution.mark piece with
  | none => go { execution with state := state, fields := fields }
  | some start =>
      let (reply, user) :=
        settings.data piece (execution.marked data start more) execution.user
      { execution with user := user }.answered reply piece.errno passed state fields
        fun execution => go (execution.setMark piece none)

/-- What the macros of a handling do, one after another. -/
def perform : Handling → Execution σ → Outcome σ
  | .next state fields, execution =>
      .running { execution with p := execution.p + 1, state := state, fields := fields }
  | .fail errno state fields, execution => execution.failed errno state fields
  | .exit state fields, execution =>
      .returned (execution.p + 1)
        { state := state, fields := fields, nread := execution.nread, httpErrno := .ok }
        execution.user
  | .assert holds after, execution => if holds then perform after execution else .aborted
  | .count amount state fields after, execution =>
      let nread := (execution.nread + amount) % 2 ^ 32
      if nread > settings.maxHeaderSize then
        { execution with nread := nread }.failed .headerOverflow state fields
      else perform after { execution with nread := nread }
  | .resetNread after, execution => perform after { execution with nread := 0, stored := 0 }
  | .mark piece after, execution =>
      perform after
        (if execution.mark piece = none then execution.setMark piece (some execution.p)
          else execution)
  | .advance amount after, execution =>
      perform after { execution with p := execution.p + amount }
  | .data piece more passed state fields after, execution =>
      execution.callData settings data piece more passed state fields (perform after)
  | .notify notice passed state fields after, execution =>
      let (reply, user) := settings.notify notice fields execution.user
      { execution with user := user }.answered reply notice.errno passed state fields
        (perform after)
  | .headersComplete state fields after, execution =>
      let (reply, user) := settings.headersComplete fields execution.user
      { execution with user := user }.headersAnswered reply state fields
        fun execution fields => perform (after fields) execution

/-- What one round of the loop does with what is left of the data. -/
def round (execution : Execution σ) : Outcome σ :=
  match data.drop execution.p with
  | [] => .running execution
  | ch :: rest =>
      let switch := fun execution : Execution σ =>
        perform settings data
          (handle settings.maxHeaderSize execution.state execution.nread execution.fields ch rest)
          execution
      if execution.state.parsingHeader then
        let nread := (execution.nread + 1) % 2 ^ 32
        if nread > settings.maxHeaderSize then
          { execution with nread := nread }.failed .headerOverflow execution.state
            execution.fields
        else switch { execution with nread := nread }
      else switch execution

/-- `for (p = data; p != data + len; p++)`, with as many rounds as there are characters. -/
def loop : Nat → Execution σ → Outcome σ
  | 0, execution => .running execution
  | fuel + 1, execution =>
      if execution.p = data.length then .running execution
      else (execution.round settings data).andThen (loop fuel)

/-- The pieces in the order in which they are called back after the last character. -/
def pieces : List Piece :=
  [.headerField, .headerValue, .url, .body, .status]

/-- The callbacks for the marks that are left over, and `RETURN(len)`. -/
def leftover (state : ParserState) (fields : ParserFields) :
    List Piece → Execution σ → Outcome σ
  | [], execution =>
      .returned data.length
        { state := state, fields := fields, nread := execution.nread, httpErrno := .ok }
        execution.user
  | piece :: rest, execution =>
      execution.callData settings data piece 0 0 state fields (leftover state fields rest)

/-- What is done at the end of the data, after the assertion that there is one mark at most. -/
def finish (execution : Execution σ) : Outcome σ :=
  if (pieces.filter fun piece => (execution.mark piece).isSome).length ≤ 1 then
    execution.leftover settings data execution.state execution.fields pieces
  else .aborted

/-- The mark that an execution starts with. -/
def resumed : ParserState → Option Piece
  | .headerField => some .headerField
  | .headerValue => some .headerValue
  | .url state =>
      match state with
      | .dead | .reqSpacesBeforeUrl => none
      | _ => some .url
  | .resStatus => some .status
  | _ => none

/-- One mark, or none. -/
def markAt (position : Nat) (current : Option Piece) (piece : Piece) : Option Nat :=
  if current = some piece then some position else none

/-- The variables at the start. -/
def start (parser : HttpParser) (user : σ) : Execution σ where
  p := 0
  state := parser.state
  fields := parser.fields
  nread := parser.nread
  stored := parser.nread
  mark := markAt 0 (resumed parser.state)
  user := user

end Execution

namespace HttpParser

variable {σ : Type u} (settings : ParserSettings σ)

/-- What is made of the end of the data. -/
def executeEof (parser : HttpParser) (user : σ) : Outcome σ :=
  match parser.state with
  | .bodyIdentityEof =>
      let (reply, user) := settings.notify .messageComplete parser.fields user
      (Execution.start parser user).answered reply .cbMessageComplete 0 .bodyIdentityEof
        parser.fields fun execution => .returned 0 parser execution.user
  | .url .dead | .startReqOrRes | .startRes | .startReq => .returned 0 parser user
  | _ => .returned 1 { parser with httpErrno := .invalidEofState } user

/-- `http_parser_execute`. -/
def execute (parser : HttpParser) (data : List Byte) (user : σ) : Outcome σ :=
  if parser.httpErrno ≠ .ok then .returned 0 parser user
  else if data.length = 0 then parser.executeEof settings user
  else
    ((Execution.start parser user).loop settings data data.length).andThen fun execution =>
      execution.finish settings data

end HttpParser

end ReactiveToolbox.Http
