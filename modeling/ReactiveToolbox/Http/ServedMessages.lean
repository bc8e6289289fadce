import ReactiveToolbox.Http.ParserTypes
import ReactiveToolbox.Http.ServedRequests

/-!
# Messages out of bytes

The callbacks that a parser of requests makes are those of messages in pieces, one after
another.  So every request that a connection hands to the application is the one that the
pieces of its message make.
-/

namespace ReactiveToolbox.Http

open ReactiveToolbox.Io

universe u

variable {σ : Type u}

/-- What a connection of a server makes of a callback. -/
def ParserEvent.callback : ParserEvent → Option ParserCallback
  | .notify .messageBegin _ => some .messageBegin
  | .notify .messageComplete _ => some .messageEnd
  | .notify .chunkHeader _ => none
  | .notify .chunkComplete _ => none
  | .headersComplete fields => some (.headersEnd fields.method)
  | .data .headerField text => some (.headerField text)
  | .data .headerValue text => some (.headerValue text)
  | .data .url text => some (.url text)
  | .data .body text => some (.body text)
  | .data .status _ => none

/-- The callbacks of a run, as a connection of a server makes them. -/
def callbacks (events : List ParserEvent) : List ParserCallback :=
  events.filterMap ParserEvent.callback

/-! ## Parts of messages -/

/-- A message up to its trailer. -/
def MessagePieces.opening (url : List (List Byte)) (headers : List HeaderPieces)
    (method : HttpMethod) (body : List (List Byte)) : List ParserCallback :=
  .messageBegin :: url.map .url ++ headers.flatMap HeaderPieces.callbacks ++
    .headersEnd method :: body.map .body

/-- What precedes the headers of a message, or those of its trailer. -/
def BeforeHeaders (trailing : Bool) (part : List ParserCallback) : Prop :=
  match trailing with
  | false => ∃ url : List (List Byte), part = .messageBegin :: url.map .url
  | true => ∃ url headers method body, part = MessagePieces.opening url headers method body

theorem BeforeHeaders.opening {part : List ParserCallback} (before : BeforeHeaders false part)
    (headers : List HeaderPieces) (method : HttpMethod) :
    ∃ url, part ++ headers.flatMap HeaderPieces.callbacks ++ [.headersEnd method] =
      MessagePieces.opening url headers method [] := by
  obtain ⟨url, rfl⟩ := before
  exact ⟨url, rfl⟩

/-- A header that is complete is one of the headers. -/
theorem callbacks_concat (headers : List HeaderPieces) (header : HeaderPieces) :
    headers.flatMap HeaderPieces.callbacks ++ header.callbacks =
      (headers ++ [header]).flatMap HeaderPieces.callbacks := by
  rw [List.flatMap_append, List.flatMap_singleton]

/-- The callbacks of a message that has come as far as a phase. -/
def MessagePhase.Gathers (phase : MessagePhase) (part : List ParserCallback) : Prop :=
  match phase with
  | .idle => part = []
  | .head trailing => BeforeHeaders trailing part
  | .field trailing =>
      ∃ (start : List ParserCallback) (headers : List HeaderPieces) (field : List (List Byte)),
        BeforeHeaders trailing start ∧ field ≠ [] ∧
        part = start ++ headers.flatMap HeaderPieces.callbacks ++ field.map .headerField
  | .value trailing =>
      ∃ (start : List ParserCallback) (headers : List HeaderPieces) (header : HeaderPieces),
        BeforeHeaders trailing start ∧
        part = start ++ headers.flatMap HeaderPieces.callbacks ++ header.callbacks
  | .length _ | .chunks | .chunk _ =>
      ∃ url headers method body, part = MessagePieces.opening url headers method body
  | .ended =>
      ∃ url headers method body, ∃ trailers : List HeaderPieces,
        part = MessagePieces.opening url headers method body ++
          trailers.flatMap HeaderPieces.callbacks
  | .untilEof => False

namespace MessagePhase

variable {part : List ParserCallback} {phase next : MessagePhase}

theorem gathers_afterHead {fields : ParserFields} (request : fields.type = .request)
    {url : List (List Byte)} {headers : List HeaderPieces} {method : HttpMethod} :
    (afterHead fields).Gathers (MessagePieces.opening url headers method []) := by
  have ended : ended.Gathers (MessagePieces.opening url headers method []) :=
    ⟨url, headers, method, [], [], (List.append_nil _).symm⟩
  have no_eof : fields.messageNeedsEof = false := if_pos request
  unfold afterHead
  split_ifs with upgraded skipped chunked length eof
  · exact ended
  · exact ended
  · exact ⟨url, headers, method, [], rfl⟩
  · exact ⟨url, headers, method, [], rfl⟩
  · exact absurd (no_eof.symm.trans eof) Bool.false_ne_true
  · exact ended

theorem gathers_headersComplete (gathers : phase.Gathers part) {fields : ParserFields}
    (request : fields.type = .request) (step : phase.headersComplete fields = some next) :
    next.Gathers (part ++ [.headersEnd fields.method]) := by
  unfold headersComplete at step
  split at step <;> cases step
  · obtain ⟨url, opening⟩ := BeforeHeaders.opening gathers [] fields.method
    rw [List.flatMap_nil, List.append_nil] at opening
    rw [opening]
    exact gathers_afterHead request
  · obtain ⟨start, headers, header, before, rfl⟩ := gathers
    obtain ⟨url, opening⟩ := before.opening (headers ++ [header]) fields.method
    rw [List.append_assoc start, callbacks_concat, opening]
    exact gathers_afterHead request

theorem gathers_data (gathers : phase.Gathers part) {piece : Piece} {text : List Byte}
    (step : phase.data piece text.length = some next) :
    next.Gathers (part ++ callbacks [.data piece text]) := by
  unfold MessagePhase.data at step
  split at step
  case h_1 =>
    cases step
    obtain ⟨url, rfl⟩ := gathers
    exact ⟨url ++ [text], by rw [List.map_append]; rfl⟩
  case h_2 =>
    cases step
    rw [show callbacks [.data .status text] = [] from rfl, List.append_nil]
    exact gathers
  case h_3 =>
    cases step
    refine ⟨part, [], [text], gathers, List.cons_ne_nil _ _, ?_⟩
    rw [List.flatMap_nil, List.append_nil]
    rfl
  case h_4 =>
    cases step
    obtain ⟨start, headers, field, before, some_field, rfl⟩ := gathers
    refine ⟨start, headers, field ++ [text], before, List.concat_ne_nil _ _, ?_⟩
    rw [List.map_append, ← List.append_assoc]
    rfl
  case h_5 =>
    cases step
    obtain ⟨start, headers, header, before, rfl⟩ := gathers
    refine ⟨start, headers ++ [header], [text], before, List.cons_ne_nil _ _, ?_⟩
    rw [← callbacks_concat, List.append_assoc start]
    rfl
  case h_6 =>
    cases step
    obtain ⟨start, headers, field, before, some_field, rfl⟩ := gathers
    refine ⟨start, headers, ⟨field, [text], some_field, List.cons_ne_nil _ _⟩, before, ?_⟩
    rw [List.append_assoc _ (field.map _)]
    rfl
  case h_7 =>
    cases step
    obtain ⟨start, headers, header, before, rfl⟩ := gathers
    refine ⟨start, headers, { header with
      value := header.value ++ [text]
      value_some := List.concat_ne_nil _ _ }, before, ?_⟩
    simp only [HeaderPieces.callbacks, List.map_append, List.append_assoc]
    rfl
  case h_8 | h_9 =>
    split at step <;> cases step
    obtain ⟨url, headers, method, body, rfl⟩ := gathers
    refine ⟨url, headers, method, body ++ [text], ?_⟩
    simp only [MessagePieces.opening, List.map_append, List.append_assoc, List.cons_append]
    rfl
  case h_10 => exact gathers.elim
  case h_11 => cases step

/-- A callback without text that does not end the message. -/
theorem gathers_notify (gathers : phase.Gathers part) {notice : Notice} {fields : ParserFields}
    (incomplete : notice ≠ .messageComplete) (step : phase.notify notice fields = some next) :
    next.Gathers (part ++ callbacks [.notify notice fields]) := by
  unfold MessagePhase.notify at step
  split at step
  case h_1 =>
    cases step
    obtain rfl : part = [] := gathers
    exact ⟨[], rfl⟩
  case h_2 =>
    obtain ⟨url, headers, method, body, rfl⟩ := gathers
    cases step
    rw [show callbacks [.notify .chunkHeader fields] = [] from rfl, List.append_nil]
    split_ifs <;> exact ⟨url, headers, method, body, rfl⟩
  case h_3 =>
    cases step
    rw [show callbacks [.notify .chunkComplete fields] = [] from rfl, List.append_nil]
    exact gathers
  case h_4 =>
    cases step
    obtain ⟨url, headers, method, body, rfl⟩ := gathers
    exact ⟨url, headers, method, body, [], rfl⟩
  case h_5 =>
    cases step
    obtain ⟨start, trailers, trailer, ⟨url, headers, method, body, rfl⟩, rfl⟩ := gathers
    refine ⟨url, headers, method, body, trailers ++ [trailer], ?_⟩
    rw [← callbacks_concat, ← List.append_assoc]
    exact List.append_nil _
  case h_6 | h_7 | h_8 => exact absurd rfl incomplete
  case h_9 => cases step

/-- The end of a message makes it whole. -/
theorem gathers_complete (gathers : phase.Gathers part) {fields : ParserFields}
    (step : phase.notify .messageComplete fields = some next) :
    next = .idle ∧ ∃ pieces : MessagePieces, part ++ [.messageEnd] = pieces.callbacks := by
  unfold MessagePhase.notify at step
  split at step
  case h_6 =>
    cases step
    obtain ⟨url, headers, method, body, rfl⟩ := gathers
    refine ⟨rfl, ⟨url, headers, method, body, []⟩, ?_⟩
    rw [MessagePieces.callbacks, List.flatMap_nil, List.append_nil]
    rfl
  case h_7 => exact gathers.elim
  case h_8 =>
    cases step
    obtain ⟨url, headers, method, body, trailers, rfl⟩ := gathers
    exact ⟨rfl, ⟨url, headers, method, body, trailers⟩, rfl⟩
  case h_9 => cases step
  all_goals
    rename_i other
    exact Notice.noConfusion other

end MessagePhase

/-! ## Sequences of messages -/

/-- Whole messages, and a part of the next. -/
def Gathered (phase : MessagePhase) (made : List ParserCallback) : Prop :=
  ∃ (messages : List MessagePieces) (part : List ParserCallback),
    made = messages.flatMap MessagePieces.callbacks ++ part ∧ phase.Gathers part

theorem Gathered.event {phase next : MessagePhase} {made : List ParserCallback}
    (gathered : Gathered phase made) {event : ParserEvent}
    (request : ∀ fields, event = .headersComplete fields → fields.type = .request)
    (step : phase.event event = some next) : Gathered next (made ++ callbacks [event]) := by
  obtain ⟨messages, part, rfl, gathers⟩ := gathered
  by_cases complete : ∃ fields, event = .notify .messageComplete fields
  · obtain ⟨fields, rfl⟩ := complete
    obtain ⟨rfl, pieces, whole⟩ := MessagePhase.gathers_complete gathers step
    refine ⟨messages ++ [pieces], [], ?_, rfl⟩
    rw [List.append_assoc, List.flatMap_append, List.flatMap_singleton, ← whole, List.append_nil]
    rfl
  · refine ⟨messages, part ++ callbacks [event], List.append_assoc _ _ _, ?_⟩
    cases event with
    | notify notice fields =>
        have incomplete : notice ≠ .messageComplete := by
          rintro rfl
          exact complete ⟨fields, rfl⟩
        exact MessagePhase.gathers_notify gathers incomplete step
    | headersComplete fields =>
        exact MessagePhase.gathers_headersComplete gathers (request fields rfl) step
    | data piece text => exact MessagePhase.gathers_data gathers step

namespace Served

/-- What a callback makes of a connection. -/
def step (served : Except ServedFailure Served) : ParserCallback → Except ServedFailure Served
  | .messageEnd => served.bind onMessageEnd
  | callback => on served callback

/-- What some callbacks leave of a server. -/
def run (served : Except ServedFailure Served) (made : List ParserCallback) :
    Except ServedFailure Served :=
  made.foldl step served

theorem step_error (failure : ServedFailure) (callback : ParserCallback) :
    step (.error failure) callback = .error failure := by
  cases callback <;> rfl

theorem run_error (failure : ServedFailure) (made : List ParserCallback) :
    run (.error failure) made = .error failure := by
  induction made with
  | nil => rfl
  | cons callback rest continued =>
      rw [run, List.foldl_cons, step_error]
      exact continued

theorem run_append (served : Except ServedFailure Served) (first second : List ParserCallback) :
    run served (first ++ second) = run (run served first) second :=
  List.foldl_append

theorem step_goes (served : Served) {callback : ParserCallback}
    (goes : callback ≠ .messageEnd) :
    step (.ok served) callback = served.read (served.reader.on callback) := by
  cases callback
  case messageEnd => exact absurd rfl goes
  all_goals rfl

/-- Up to the end of a message only its request changes. -/
theorem run_goes (served : Served) {made : List ParserCallback}
    (goes : .messageEnd ∉ made) :
    run (.ok served) made = served.read (served.reader.run made) := by
  induction made generalizing served with
  | nil => rfl
  | cons callback rest continued =>
      rw [List.mem_cons, not_or] at goes
      rw [run, List.foldl_cons, step_goes served (Ne.symm goes.1), RequestReader.run]
      cases served.reader.on callback with
      | error failure => exact run_error _ rest
      | ok reader => exact continued { served with reader := reader } goes.2

end Served

namespace RequestReader

theorem on_failure {reader : RequestReader} {callback : ParserCallback}
    (goes : callback ≠ .messageEnd) {failure : ParserFailure}
    (failed : reader.on callback = .error failure) : failure = .noHeader := by
  cases callback
  case messageEnd => exact absurd rfl goes
  case headerField text =>
    rw [on, onHeaderField] at failed
    split at failed <;> cases failed
    rfl
  case headerValue text =>
    rw [on, onHeaderValue] at failed
    split at failed <;> cases failed
    rfl
  all_goals cases failed

/-- Before its end a message only fails for the last of no headers. -/
theorem run_failure {reader : RequestReader} {made : List ParserCallback}
    (goes : .messageEnd ∉ made) {failure : ParserFailure}
    (failed : reader.run made = .error failure) : failure = .noHeader := by
  induction made generalizing reader with
  | nil => cases failed
  | cons callback rest continued =>
      rw [List.mem_cons, not_or] at goes
      rw [run] at failed
      cases ran : reader.on callback with
      | error first =>
          rw [ran] at failed
          cases failed
          exact on_failure (Ne.symm goes.1) ran
      | ok next =>
          rw [ran] at failed
          exact continued goes.2 failed

/-- The end of a message parses the URL, and changes nothing else of the request. -/
theorem onMessageEnd_flush (reader : RequestReader) :
    reader.onMessageEnd = .error (.exception (invalidUrl reader.request.url)) ∨
      ∃ parser, reader.onMessageEnd =
        .ok { reader with
          inProgress := false
          request := { reader.request with parser := parser } } := by
  by_cases invalid : (httpParserParseUrl reader.request.url false reader.request.parser).1 ≠ 0
  · have flushed : reader.request.flush = .error (invalidUrl reader.request.url) := if_pos invalid
    rw [onMessageEnd, flushed]
    exact .inl rfl
  · have flushed : reader.request.flush = .ok _ := if_neg invalid
    rw [onMessageEnd, flushed]
    exact .inr ⟨_, rfl⟩

end RequestReader

namespace MessagePieces

/-- The callbacks of a message but for its end. -/
def unfinished (pieces : MessagePieces) : List ParserCallback :=
  opening pieces.url pieces.headers pieces.method pieces.body ++
    pieces.trailers.flatMap HeaderPieces.callbacks

theorem callbacks_eq (pieces : MessagePieces) :
    pieces.callbacks = pieces.unfinished ++ [.messageEnd] :=
  rfl

theorem messageEnd_unfinished (pieces : MessagePieces) : .messageEnd ∉ pieces.unfinished := by
  simp [unfinished, opening, HeaderPieces.callbacks]

/-- The request of a message in pieces. -/
def Makes (pieces : MessagePieces) (request : HttpRequest) : Prop :=
  request.method = pieces.method ∧ request.url = pieces.url.flatten ∧
    request.headers = pieces.headerList ∧ request.body = pieces.body.flatten

end MessagePieces

/-- Some headers, of a message or of its trailer, may be followed by the rest of it. -/
theorem BeforeHeaders.unfinished {trailing : Bool} {start : List ParserCallback}
    (before : BeforeHeaders trailing start) (headers : List HeaderPieces) :
    ∃ (pieces : MessagePieces) (more : List ParserCallback),
      start ++ headers.flatMap HeaderPieces.callbacks ++ more = pieces.unfinished := by
  cases trailing with
  | false =>
      obtain ⟨url, opening⟩ := before.opening headers .get
      exact ⟨⟨url, headers, .get, [], []⟩, [.headersEnd .get],
        opening.trans (List.append_nil _).symm⟩
  | true =>
      obtain ⟨url, others, method, body, rfl⟩ := before
      exact ⟨⟨url, others, method, body, headers⟩, [], List.append_nil _⟩

/-- The callbacks of a message that is not complete: it may be followed by the rest of it. -/
def InProgress (part : List ParserCallback) : Prop :=
  part = [] ∨ ∃ (pieces : MessagePieces) (more : List ParserCallback),
    part ++ more = pieces.unfinished

namespace RequestReader

variable {reader : RequestReader}

/-- A message but for its end is read, and its end makes its request. -/
theorem run_unfinished (not_field : reader.lastHeaderElem ≠ .field) (pieces : MessagePieces) :
    ∃ next, reader.run pieces.unfinished = .ok next ∧
      next.onMessageEnd =
        (reader.reading
          (lastAfter (lastAfter reader.lastHeaderElem pieces.headers) pieces.trailers)
          pieces.method pieces.url.flatten pieces.headerList pieces.body.flatten).onMessageEnd := by
  have whole := run_callbacks not_field pieces
  rw [pieces.callbacks_eq, run_append] at whole
  cases ran : reader.run pieces.unfinished with
  | error failure =>
      rw [ran] at whole
      obtain rfl := run_failure pieces.messageEnd_unfinished ran
      rcases onMessageEnd_flush (reader.reading _ _ _ _ _) with invalid | ⟨parser, ended⟩
      · cases whole.trans invalid
      · cases whole.trans ended
  | ok next =>
      rw [ran] at whole
      exact ⟨next, rfl, (run_singleton next .messageEnd).symm.trans whole⟩

end RequestReader

namespace Served

/-- What a message comes to: its request, or its URL is invalid. -/
theorem run_message {served : Served} (not_field : served.reader.lastHeaderElem ≠ .field)
    (pieces : MessagePieces) :
    run (.ok served) pieces.callbacks =
        .error ⟨.exception (invalidUrl pieces.url.flatten), served.requests⟩ ∨
      ∃ reader request, run (.ok served) pieces.callbacks =
          .ok { reader := reader, requests := served.requests ++ [request] } ∧
        reader.lastHeaderElem ≠ .field ∧ pieces.Makes request := by
  obtain ⟨next, ran, ends⟩ := RequestReader.run_unfinished not_field pieces
  have goes : run (.ok served) pieces.unfinished = .ok { served with reader := next } := by
    rw [run_goes served pieces.messageEnd_unfinished, ran]
    rfl
  have whole : run (.ok served) pieces.callbacks = onMessageEnd { served with reader := next } := by
    rw [pieces.callbacks_eq, run_append, goes]
    rfl
  rw [whole, onMessageEnd]
  dsimp only
  rw [ends]
  rcases RequestReader.onMessageEnd_flush (served.reader.reading _ _ _ _ _) with
    invalid | ⟨parser, ended⟩
  · rw [invalid]
    exact .inl rfl
  · rw [ended]
    refine .inr ⟨_, _, rfl, ?_, rfl, rfl, rfl, rfl⟩
    exact RequestReader.lastAfter_ne_field _ (RequestReader.lastAfter_ne_field _ not_field _) _

end Served

/-! ## Whole connections -/

theorem Served.run_snoc (served : Except ServedFailure Served) (events : List ParserEvent)
    (event : ParserEvent) :
    run served (callbacks (events ++ [event])) =
      run (run served (callbacks events)) (callbacks [event]) := by
  rw [callbacks, List.filterMap_append]
  exact run_append _ _ _

theorem HttpParser.Reached.ofType {settings : ParserSettings σ} {type : ParserType}
    {initial user : σ} {parser : HttpParser} {Of : σ → Prop} (single : type ≠ .both)
    (tells : settings.Told type Of) (starts : Of initial)
    (reached : Reached settings type initial parser user) :
    OfType type parser.state parser.fields ∧ Of user := by
  induction reached with
  | init =>
      refine ⟨⟨rfl, ?_⟩, starts⟩
      cases type
      case both => exact absurd rfl single
      all_goals rfl
  | @execute parser next user left data consumed reached ran kept =>
      have executed := HttpParser.execute_ofType tells kept.1 kept.2 data
      rw [ran] at executed
      exact executed
  | pause reached ran kept =>
      rw [HttpParser.pause] at ran
      split at ran
      · obtain rfl := Option.some.inj ran
        exact kept
      · cases ran

end ReactiveToolbox.Http
