import Mathlib.Data.List.ModifyLast
import Mathlib.Tactic.SplitIfs
import ReactiveToolbox.Http.Url

/-!
# Headers in pieces

The HTTP parser calls back with pieces of the URL, of the fields and values of the
headers, and of the body.  `BasicHttpParser` remembers whether the last piece of a
header was one of a field or of a value, and tells from it where a header begins;
what it remembers is not forgotten when a message ends.
-/

namespace ReactiveToolbox.Http

open ReactiveToolbox.Io

/-- `last_header_elem_`. -/
inductive HeaderElem where
  | none
  | field
  | value
  deriving DecidableEq

/-- The callbacks of `make_settings` that are made for requests, but for those of chunks. -/
inductive ParserCallback where
  | messageBegin
  | url (text : List Byte)
  | headerField (text : List Byte)
  | headerValue (text : List Byte)
  | headersEnd (method : HttpMethod)
  | body (text : List Byte)
  | messageEnd

/-- What ends the callbacks. -/
inductive ParserFailure where
  /-- `back()` of a list without headers. -/
  | noHeader
  | exception (exception : HttpException)
  deriving DecidableEq

/-- `BasicHttpConn`, as far as its requests and its parser go. -/
structure RequestReader where
  lastHeaderElem : HeaderElem
  inProgress : Bool
  request : HttpRequest

namespace RequestReader

/-- The parser of a new connection: no message is in progress. -/
def create : RequestReader where
  lastHeaderElem := .none
  inProgress := false
  request := .create

/-- `on_message_begin`, which clears the request. -/
def onMessageBegin (reader : RequestReader) : RequestReader :=
  { reader with
    inProgress := true
    request := reader.request.clear }

/-- The callback of the parser and the `on_header_field` that it calls. -/
def onHeaderField (reader : RequestReader) (text : List Byte) :
    Except ParserFailure RequestReader :=
  let first := reader.lastHeaderElem != .field
  if !first && reader.request.headers.isEmpty then .error .noHeader
  else
    .ok
      { reader with
        lastHeaderElem := .field
        request := reader.request.appendHeaderField text first }

/-- The callback of the parser and the `on_header_value` that it calls. -/
def onHeaderValue (reader : RequestReader) (text : List Byte) :
    Except ParserFailure RequestReader :=
  if reader.request.headers.isEmpty then .error .noHeader
  else
    .ok
      { reader with
        lastHeaderElem := .value
        request := reader.request.appendHeaderValue text }

/-- `on_message_end`, which flushes the request. -/
def onMessageEnd (reader : RequestReader) : Except ParserFailure RequestReader :=
  match reader.request.flush with
  | .error failure => .error (.exception failure)
  | .ok request => .ok { reader with inProgress := false, request := request }

/-- The callback of a parser's event. -/
def on (reader : RequestReader) : ParserCallback → Except ParserFailure RequestReader
  | .messageBegin => .ok reader.onMessageBegin
  | .url text => .ok { reader with request := reader.request.appendUrl text }
  | .headerField text => reader.onHeaderField text
  | .headerValue text => reader.onHeaderValue text
  | .headersEnd method => .ok { reader with request := reader.request.setMethod method }
  | .body text => .ok { reader with request := reader.request.appendBody text }
  | .messageEnd => reader.onMessageEnd

/-- Callbacks one after another, up to the first that fails. -/
def run (reader : RequestReader) : List ParserCallback → Except ParserFailure RequestReader
  | [] => .ok reader
  | callback :: rest => (reader.on callback).bind fun reader => reader.run rest

end RequestReader

/-! ## Messages -/

/-- The pieces that a header comes in: some of its field, and then some of its value. -/
structure HeaderPieces where
  field : List (List Byte)
  value : List (List Byte)
  field_some : field ≠ []
  value_some : value ≠ []

namespace HeaderPieces

/-- The callbacks of a header, its name and then its value, each in pieces. -/
def callbacks (header : HeaderPieces) : List ParserCallback :=
  header.field.map .headerField ++ header.value.map .headerValue

/-- The header of the pieces. -/
def header (pieces : HeaderPieces) : List Byte × List Byte :=
  (pieces.field.flatten, pieces.value.flatten)

/-- The same header in one piece each. -/
def unsplit (pieces : HeaderPieces) : HeaderPieces where
  field := [pieces.field.flatten]
  value := [pieces.value.flatten]
  field_some := List.cons_ne_nil _ _
  value_some := List.cons_ne_nil _ _

end HeaderPieces

/-- The pieces that a message comes in, with the headers that may follow a body in chunks. -/
structure MessagePieces where
  url : List (List Byte)
  headers : List HeaderPieces
  method : HttpMethod
  body : List (List Byte)
  trailers : List HeaderPieces

namespace MessagePieces

/-- The callbacks of a message, in order. -/
def callbacks (pieces : MessagePieces) : List ParserCallback :=
  .messageBegin :: pieces.url.map .url ++ pieces.headers.flatMap HeaderPieces.callbacks ++
    .headersEnd pieces.method :: pieces.body.map .body ++
    pieces.trailers.flatMap HeaderPieces.callbacks ++ [.messageEnd]

/-- The same message without splits. -/
def unsplit (pieces : MessagePieces) : MessagePieces where
  url := [pieces.url.flatten]
  headers := pieces.headers.map HeaderPieces.unsplit
  method := pieces.method
  body := [pieces.body.flatten]
  trailers := pieces.trailers.map HeaderPieces.unsplit

/-- The headers and the trailers, put together. -/
def headerList (pieces : MessagePieces) : List (List Byte × List Byte) :=
  (pieces.headers ++ pieces.trailers).map HeaderPieces.header

end MessagePieces

namespace RequestReader

/-- The messages of a connection. -/
def deliver (reader : RequestReader) (messages : List MessagePieces) :
    Except ParserFailure RequestReader :=
  reader.run (messages.flatMap MessagePieces.callbacks)

/-! ## Runs -/

theorem run_append (reader : RequestReader) (first second : List ParserCallback) :
    reader.run (first ++ second) = (reader.run first).bind fun reader => reader.run second := by
  induction first generalizing reader with
  | nil => rfl
  | cons callback rest continued =>
      rw [List.cons_append, run, run]
      cases reader.on callback with
      | error failure => rfl
      | ok next => exact continued next

theorem run_append_of_ok {reader next : RequestReader} {first : List ParserCallback}
    (ran : reader.run first = .ok next) (second : List ParserCallback) :
    reader.run (first ++ second) = next.run second := by
  rw [run_append, ran]
  rfl

/-- What a reader is while a message comes in. -/
def reading (reader : RequestReader) (last : HeaderElem) (method : HttpMethod)
    (url : List Byte) (headers : List (List Byte × List Byte)) (body : List Byte) :
    RequestReader where
  lastHeaderElem := last
  inProgress := true
  request := { reader.request with
    method := method
    url := url
    headers := headers
    body := body }

variable (reader : RequestReader) (last : HeaderElem) (method : HttpMethod)
    (url : List Byte) (headers : List (List Byte × List Byte)) (body : List Byte)

/-- Pieces that are put together one by one are put together at once. -/
theorem run_pieces {callback : List Byte → ParserCallback} {reader : List Byte → RequestReader}
    (step : ∀ text piece, (reader text).on (callback piece) = .ok (reader (text ++ piece)))
    (text : List Byte) (pieces : List (List Byte)) :
    (reader text).run (pieces.map callback) = .ok (reader (text ++ pieces.flatten)) := by
  induction pieces generalizing text with
  | nil =>
      rw [List.flatten_nil, List.append_nil]
      rfl
  | cons piece rest continued =>
      rw [List.map_cons, run, step, List.flatten_cons, ← List.append_assoc]
      exact continued (text ++ piece)

theorem run_url (pieces : List (List Byte)) :
    (reader.reading last method url headers body).run (pieces.map .url) =
      .ok (reader.reading last method (url ++ pieces.flatten) headers body) := by
  have step : ∀ url piece, (reader.reading last method url headers body).on (.url piece) =
      .ok (reader.reading last method (url ++ piece) headers body) :=
    fun _ _ => rfl
  exact run_pieces step url pieces

theorem run_body (pieces : List (List Byte)) :
    (reader.reading last method url headers body).run (pieces.map .body) =
      .ok (reader.reading last method url headers (body ++ pieces.flatten)) :=
  run_pieces (fun _ _ => rfl) body pieces

theorem on_headerValue (name value text : List Byte) :
    (reader.reading last method url (headers ++ [(name, value)]) body).on (.headerValue text) =
      .ok (reader.reading .value method url (headers ++ [(name, value ++ text)]) body) := by
  simp [on, onHeaderValue, reading, HttpRequest.appendHeaderValue, List.modifyLast_concat]

/-- Pieces of a field that has begun are put together. -/
theorem run_field (name value : List Byte) (pieces : List (List Byte)) :
    (reader.reading .field method url (headers ++ [(name, value)]) body).run
        (pieces.map .headerField) =
      .ok (reader.reading .field method url (headers ++ [(name ++ pieces.flatten, value)])
        body) := by
  have step : ∀ name piece,
      (reader.reading .field method url (headers ++ [(name, value)]) body).on
          (.headerField piece) =
        .ok (reader.reading .field method url (headers ++ [(name ++ piece, value)]) body) := by
    intro name piece
    simp [on, onHeaderField, reading, HttpRequest.appendHeaderField, List.modifyLast_concat]
  exact run_pieces step name pieces

/-- So are those of a value. -/
theorem run_value (name value : List Byte) (pieces : List (List Byte)) :
    (reader.reading .value method url (headers ++ [(name, value)]) body).run
        (pieces.map .headerValue) =
      .ok (reader.reading .value method url (headers ++ [(name, value ++ pieces.flatten)])
        body) :=
  run_pieces (on_headerValue reader .value method url headers body name) value pieces

/-- A header begins with a piece of a field that does not follow another. -/
theorem run_header (not_field : last ≠ .field) (pieces : HeaderPieces) :
    (reader.reading last method url headers body).run pieces.callbacks =
      .ok (reader.reading .value method url (headers ++ [pieces.header]) body) := by
  obtain ⟨field, value, field_some, value_some⟩ := pieces
  cases field with
  | nil => exact absurd rfl field_some
  | cons name names =>
      cases value with
      | nil => exact absurd rfl value_some
      | cons text texts =>
          have first : (reader.reading last method url headers body).on (.headerField name) =
              .ok (reader.reading .field method url (headers ++ [(name, [])]) body) := by
            simp [on, onHeaderField, reading, HttpRequest.appendHeaderField, not_field]
          have fields := run_field reader method url headers body name [] names
          have values := run_value reader method url headers body (name ++ names.flatten) text
            texts
          simp only [HeaderPieces.callbacks, HeaderPieces.header, List.map_cons,
            List.flatten_cons, List.cons_append, run, first]
          change (reader.reading .field method url (headers ++ [(name, [])]) body).run _ = _
          rw [run_append_of_ok fields, run, on_headerValue]
          exact values

/-- What is remembered behind some headers. -/
def lastAfter (last : HeaderElem) (pieces : List HeaderPieces) : HeaderElem :=
  if pieces.isEmpty then last else .value

theorem lastAfter_ne_field (not_field : last ≠ .field) (pieces : List HeaderPieces) :
    lastAfter last pieces ≠ .field := by
  unfold lastAfter
  split_ifs
  · exact not_field
  · exact HeaderElem.noConfusion

theorem run_headers (not_field : last ≠ .field) (pieces : List HeaderPieces) :
    (reader.reading last method url headers body).run (pieces.flatMap HeaderPieces.callbacks) =
      .ok (reader.reading (lastAfter last pieces) method url
        (headers ++ pieces.map HeaderPieces.header) body) := by
  induction pieces generalizing last headers with
  | nil =>
      rw [List.map_nil, List.append_nil]
      rfl
  | cons header rest continued =>
      have after : lastAfter .value rest = .value := by
        unfold lastAfter
        split_ifs <;> rfl
      have others := continued .value (headers ++ [header.header]) (by decide)
      rw [after, List.append_assoc, List.singleton_append, ← List.map_cons] at others
      rw [List.flatMap_cons, run_append_of_ok (run_header reader last method url headers body
        not_field header)]
      exact others

theorem run_singleton (callback : ParserCallback) : reader.run [callback] = reader.on callback := by
  rw [run]
  cases reader.on callback <;> rfl

/-- Up to its end, a message makes the request that its pieces are put together to. -/
theorem run_callbacks {reader : RequestReader} (not_field : reader.lastHeaderElem ≠ .field)
    (pieces : MessagePieces) :
    reader.run pieces.callbacks =
      (reader.reading (lastAfter (lastAfter reader.lastHeaderElem pieces.headers) pieces.trailers)
        pieces.method pieces.url.flatten pieces.headerList pieces.body.flatten).onMessageEnd := by
  have after_headers := lastAfter_ne_field _ not_field pieces.headers
  have begun : reader.run (.messageBegin :: pieces.url.map .url) =
      .ok (reader.reading reader.lastHeaderElem .get pieces.url.flatten [] []) :=
    run_url reader reader.lastHeaderElem .get [] [] [] pieces.url
  have headed := (run_append_of_ok begun _).trans
    (run_headers reader _ .get pieces.url.flatten [] [] not_field pieces.headers)
  rw [List.nil_append] at headed
  have filled := (run_append_of_ok headed (.headersEnd pieces.method :: _)).trans
    (run_body reader _ pieces.method pieces.url.flatten
      (pieces.headers.map HeaderPieces.header) [] pieces.body)
  have trailed := (run_append_of_ok filled _).trans
    (run_headers reader _ pieces.method pieces.url.flatten
      (pieces.headers.map HeaderPieces.header) _ after_headers pieces.trailers)
  rw [List.nil_append, ← List.map_append] at trailed
  exact (run_append_of_ok trailed [.messageEnd]).trans (run_singleton _ .messageEnd)

/-- The end of a message changes nothing of what it has brought, unless its URL is invalid. -/
theorem onMessageEnd_reading :
    (reader.reading last method url headers body).onMessageEnd =
        .error (.exception (invalidUrl url)) ∨
      ∃ next, (reader.reading last method url headers body).onMessageEnd = .ok next ∧
        next.lastHeaderElem = last ∧ next.request.url = url ∧ next.request.headers = headers ∧
        next.request.body = body := by
  by_cases invalid : (httpParserParseUrl url false reader.request.parser).1 ≠ 0
  · have flushed : (reader.reading last method url headers body).request.flush =
        .error (invalidUrl url) :=
      if_pos invalid
    rw [onMessageEnd, flushed]
    exact .inl rfl
  · have flushed : (reader.reading last method url headers body).request.flush =
        .ok { (reader.reading last method url headers body).request with
          parser := (httpParserParseUrl url false reader.request.parser).2 } :=
      if_neg invalid
    rw [onMessageEnd, flushed]
    exact .inr ⟨_, rfl, rfl, rfl, rfl, rfl⟩

/-! ## Sequences of messages -/

/-- A message in pieces does what the message without splits does. -/
theorem run_unsplit {reader : RequestReader} (not_field : reader.lastHeaderElem ≠ .field)
    (pieces : MessagePieces) :
    reader.run pieces.callbacks = reader.run pieces.unsplit.callbacks := by
  have headers : ∀ pieces : List HeaderPieces,
      (pieces.map HeaderPieces.unsplit).map HeaderPieces.header =
        pieces.map HeaderPieces.header := by
    intro pieces
    simp [HeaderPieces.unsplit, HeaderPieces.header]
  have after : ∀ last (pieces : List HeaderPieces),
      lastAfter last (pieces.map HeaderPieces.unsplit) = lastAfter last pieces := by
    intro last pieces
    cases pieces <;> rfl
  have list : pieces.unsplit.headerList = pieces.headerList := by
    simp only [MessagePieces.headerList, MessagePieces.unsplit, List.map_append, headers]
  rw [run_callbacks not_field, run_callbacks not_field, list]
  simp only [MessagePieces.unsplit, after, List.flatten_cons, List.flatten_nil, List.append_nil]

/-- What a message leaves, so that the next may begin. -/
theorem run_message {reader : RequestReader} (not_field : reader.lastHeaderElem ≠ .field)
    (pieces : MessagePieces) :
    reader.run pieces.callbacks = .error (.exception (invalidUrl pieces.url.flatten)) ∨
      ∃ next, reader.run pieces.callbacks = .ok next ∧ next.lastHeaderElem ≠ .field ∧
        next.request.url = pieces.url.flatten ∧ next.request.headers = pieces.headerList ∧
        next.request.body = pieces.body.flatten := by
  rw [run_callbacks not_field]
  rcases onMessageEnd_reading reader
      (lastAfter (lastAfter reader.lastHeaderElem pieces.headers) pieces.trailers) pieces.method
      pieces.url.flatten pieces.headerList pieces.body.flatten with
    failed | ⟨next, ended, last, url, headers, body⟩
  · exact .inl failed
  · refine .inr ⟨next, ended, ?_, url, headers, body⟩
    rw [last]
    exact lastAfter_ne_field _ (lastAfter_ne_field _ not_field _) _

theorem deliver_append (reader : RequestReader) (first second : List MessagePieces) :
    reader.deliver (first ++ second) =
      (reader.deliver first).bind fun reader => reader.deliver second := by
  simp only [deliver, List.flatMap_append, run_append]

theorem deliver_cons (reader : RequestReader) (pieces : MessagePieces)
    (rest : List MessagePieces) :
    reader.deliver (pieces :: rest) =
      (reader.run pieces.callbacks).bind fun reader => reader.deliver rest := by
  rw [deliver, List.flatMap_cons, run_append]
  rfl

/-- Messages in pieces do what they do without splits, and fail for an invalid URL only. -/
theorem deliver_messages {reader : RequestReader} (not_field : reader.lastHeaderElem ≠ .field)
    (messages : List MessagePieces) :
    reader.deliver messages = reader.deliver (messages.map MessagePieces.unsplit) ∧
      ((∃ pieces ∈ messages, reader.deliver messages =
          .error (.exception (invalidUrl pieces.url.flatten))) ∨
        ∃ next, reader.deliver messages = .ok next ∧ next.lastHeaderElem ≠ .field) := by
  induction messages generalizing reader with
  | nil => exact ⟨rfl, .inr ⟨reader, rfl, not_field⟩⟩
  | cons pieces rest continued =>
      rw [List.map_cons, deliver_cons, deliver_cons, ← run_unsplit not_field]
      rcases run_message not_field pieces with failed | ⟨next, ran, next_not_field, -⟩
      · rw [failed]
        exact ⟨rfl, .inl ⟨pieces, List.mem_cons_self, rfl⟩⟩
      · obtain ⟨same, outcome⟩ := continued next_not_field
        rw [ran]
        refine ⟨same, ?_⟩
        rcases outcome with ⟨other, member, failed⟩ | delivered
        · exact .inl ⟨other, List.mem_cons_of_mem _ member, failed⟩
        · exact .inr delivered

/--
After each message the request has its URL, headers and body, in whatever pieces these
and those before came, as if they had come in none; a header list is never empty where
a header is extended, and only a URL that is invalid ends the callbacks.
-/
theorem deliver_last_message (messages : List MessagePieces) (pieces : MessagePieces) :
    create.deliver (messages ++ [pieces]) =
        create.deliver ((messages ++ [pieces]).map MessagePieces.unsplit) ∧
      ((∃ failed ∈ messages ++ [pieces], create.deliver (messages ++ [pieces]) =
          .error (.exception (invalidUrl failed.url.flatten))) ∨
        ∃ reader, create.deliver (messages ++ [pieces]) = .ok reader ∧
          reader.request.url = pieces.url.flatten ∧
          reader.request.headers = pieces.headerList ∧
          reader.request.body = pieces.body.flatten) := by
  have not_field : create.lastHeaderElem ≠ .field := by
    decide
  obtain ⟨same, -⟩ := deliver_messages not_field (messages ++ [pieces])
  refine ⟨same, ?_⟩
  rw [deliver_append]
  rcases (deliver_messages not_field messages).2 with
    ⟨failed, member, failure⟩ | ⟨before, delivered, before_not_field⟩
  · rw [failure]
    exact .inl ⟨failed, List.mem_append_left _ member, rfl⟩
  · rw [delivered]
    have last : before.deliver [pieces] = before.run pieces.callbacks := by
      rw [deliver, List.flatMap_singleton]
    change _ ∨ ∃ reader, before.deliver [pieces] = .ok reader ∧ _
    rcases run_message before_not_field pieces with
      failure | ⟨reader, ran, -, url, headers, body⟩
    · exact .inl ⟨pieces, List.mem_append_right _ (List.mem_singleton.mpr rfl),
        last.trans failure⟩
    · exact .inr ⟨reader, last.trans ran, url, headers, body⟩

end RequestReader

end ReactiveToolbox.Http
