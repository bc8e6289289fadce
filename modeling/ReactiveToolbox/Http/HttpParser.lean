import ReactiveToolbox.Http.UrlParser
import ReactiveToolbox.Http.Types

/-!
# The vendored HTTP parser, one character at a time

The `switch` of `http_parser_execute` in its strict form.  What a state does with a
character is written down as a `Handling`: the calls of the macros of the parser one
after another, with the values of the parser's fields at each of them.  A `REEXECUTE`
is the handling of the state that it goes to.

Five states look at more than one character.  They have the text that is left.
-/

namespace ReactiveToolbox.Http

open ReactiveToolbox.Io

/-! ## The parser -/

/-- `enum state`; `s_dead` is among the states that `parse_url_char` returns. -/
inductive ParserState where
  | url (state : UrlState)
  | startReqOrRes
  | resOrRespH
  | startRes
  | resH | resHT | resHTT | resHTTP
  | resHttpMajor | resHttpDot | resHttpMinor | resHttpEnd
  | resFirstStatusCode | resStatusCode | resStatusStart | resStatus | resLineAlmostDone
  | startReq
  | reqMethod
  | reqHttpStart
  | reqHttpH | reqHttpHT | reqHttpHTT | reqHttpHTTP | reqHttpI | reqHttpIC
  | reqHttpMajor | reqHttpDot | reqHttpMinor | reqHttpEnd | reqLineAlmostDone
  | headerFieldStart | headerField
  | headerValueDiscardWs | headerValueDiscardWsAlmostDone | headerValueDiscardLws
  | headerValue | headerValueLws | headerAlmostDone
  | chunkSizeStart | chunkSize | chunkParameters | chunkSizeAlmostDone
  | headersAlmostDone | headersDone
  | chunkData | chunkDataAlmostDone | chunkDataDone
  | bodyIdentity | bodyIdentityEof
  | messageDone
  deriving DecidableEq

/-- `PARSING_HEADER`: the states up to `s_headers_done`. -/
def ParserState.parsingHeader : ParserState → Bool
  | .chunkData | .chunkDataAlmostDone | .chunkDataDone | .bodyIdentity | .bodyIdentityEof
  | .messageDone => false
  | _ => true

/-- `enum header_states`. -/
inductive HeaderState where
  | general
  | c | co | con
  | matchingConnection | matchingProxyConnection | matchingContentLength
  | matchingTransferEncoding | matchingUpgrade
  | connection | contentLength | contentLengthNum | contentLengthWs | transferEncoding | upgrade
  | matchingTransferEncodingChunked | matchingConnectionTokenStart
  | matchingConnectionKeepAlive | matchingConnectionClose | matchingConnectionUpgrade
  | matchingConnectionToken
  | transferEncodingChunked | connectionKeepAlive | connectionClose | connectionUpgrade
  deriving DecidableEq

/-- `enum http_parser_type`. -/
inductive ParserType where
  | request
  | response
  | both
  deriving DecidableEq

/-- `enum http_errno`, the errors that the parser sets. -/
inductive HttpErrno where
  | ok
  | cbMessageBegin | cbUrl | cbHeaderField | cbHeaderValue | cbHeadersComplete | cbBody
  | cbMessageComplete | cbStatus | cbChunkHeader | cbChunkComplete
  | invalidEofState | headerOverflow | closedConnection
  | invalidVersion | invalidStatus | invalidMethod | invalidUrl
  | lfExpected | invalidHeaderToken | invalidContentLength | unexpectedContentLength
  | invalidChunkSize | invalidConstant | strict | paused
  deriving DecidableEq

/-- `enum flags`. -/
structure ParserFlags where
  chunked : Bool
  connectionKeepAlive : Bool
  connectionClose : Bool
  connectionUpgrade : Bool
  trailing : Bool
  upgrade : Bool
  skipbody : Bool
  contentLength : Bool
  deriving DecidableEq

namespace ParserFlags

/-- `parser->flags = 0`. -/
def none : ParserFlags where
  chunked := false
  connectionKeepAlive := false
  connectionClose := false
  connectionUpgrade := false
  trailing := false
  upgrade := false
  skipbody := false
  contentLength := false

end ParserFlags

/-- `http_parser` but for its state, its count of bytes and its error. -/
@[ext]
structure ParserFields where
  type : ParserType
  flags : ParserFlags
  headerState : HeaderState
  /-- Seven bits. -/
  index : Nat
  lenientHttpHeaders : Bool
  contentLength : UInt64
  httpMajor : Nat
  httpMinor : Nat
  statusCode : Nat
  method : HttpMethod
  upgrade : Bool
  deriving DecidableEq

/-- `ULLONG_MAX`. -/
def ullongMax : UInt64 :=
  18446744073709551615

namespace ParserFields

/-- The flags are set. -/
def withFlags (fields : ParserFields) (flags : ParserFlags) : ParserFields :=
  { fields with flags := flags }

/-- `parser->header_state` is set. -/
def withHeaderState (fields : ParserFields) (headerState : HeaderState) : ParserFields :=
  { fields with headerState := headerState }

/-- `++parser->index`. -/
def incIndex (fields : ParserFields) : ParserFields :=
  { fields with index := (fields.index + 1) % 128 }

/-- `start_state`. -/
def startState (fields : ParserFields) : ParserState :=
  if fields.type = .request then .startReq else .startRes

/-- `http_message_needs_eof`. -/
def messageNeedsEof (fields : ParserFields) : Bool :=
  if fields.type = .request then false
  else if fields.statusCode / 100 = 1 ∨ fields.statusCode = 204 ∨ fields.statusCode = 304 ∨
      fields.flags.skipbody then false
  else if fields.flags.chunked ∨ fields.contentLength ≠ ullongMax then false
  else true

/-- `http_should_keep_alive`. -/
def shouldKeepAlive (fields : ParserFields) : Bool :=
  if fields.httpMajor > 0 ∧ fields.httpMinor > 0 then
    if fields.flags.connectionClose then false else !fields.messageNeedsEof
  else
    if !fields.flags.connectionKeepAlive then false else !fields.messageNeedsEof

/-- `NEW_MESSAGE`. -/
def newMessage (fields : ParserFields) : ParserState :=
  if fields.shouldKeepAlive then fields.startState else .url .dead

/-- What a message starts with: no flags and no length. -/
def cleared (fields : ParserFields) : ParserFields :=
  { fields with flags := .none, contentLength := ullongMax }

end ParserFields

/-- The callbacks without text. -/
inductive Notice where
  | messageBegin
  | messageComplete
  | chunkHeader
  | chunkComplete
  deriving DecidableEq

/-- The callbacks with text, and the marks that they are made for. -/
inductive Piece where
  | headerField
  | headerValue
  | url
  | body
  | status
  deriving DecidableEq

/-- The macros that a state calls, one after another, for a character of the text. -/
inductive Handling where
  /-- `break`, in a state and with fields. -/
  | next (state : ParserState) (fields : ParserFields)
  /-- `SET_ERRNO` and `goto error`. -/
  | fail (errno : HttpErrno) (state : ParserState) (fields : ParserFields)
  /-- `RETURN((p - data) + 1)`. -/
  | exit (state : ParserState) (fields : ParserFields)
  | assert (holds : Bool) (after : Handling)
  /-- `COUNT_HEADER_SIZE`. -/
  | count (amount : Nat) (state : ParserState) (fields : ParserFields) (after : Handling)
  /-- `parser->nread = 0` and `nread = 0`. -/
  | resetNread (after : Handling)
  /-- `MARK`. -/
  | mark (piece : Piece) (after : Handling)
  /-- `p += amount`. -/
  | advance (amount : Nat) (after : Handling)
  /-- `CALLBACK_DATA_`: the text ends `more` behind the position; when the callback stops
  the parser, `passed` behind the position are consumed. -/
  | data (piece : Piece) (more passed : Nat) (state : ParserState) (fields : ParserFields)
      (after : Handling)
  /-- `CALLBACK_NOTIFY_`. -/
  | notify (notice : Notice) (passed : Nat) (state : ParserState) (fields : ParserFields)
      (after : Handling)
  /-- The callback `on_headers_complete`, which may set fields. -/
  | headersComplete (state : ParserState) (fields : ParserFields)
      (after : ParserFields → Handling)

namespace Handling

/-- `STRICT_CHECK(ch != expected)` and `UPDATE_STATE(next)`. -/
def strictCheck (expected : Byte) (state next : ParserState) (fields : ParserFields)
    (ch : Byte) : Handling :=
  if ch ≠ expected then .fail .strict state fields else .next next fields

/-- `CALLBACK_NOTIFY` and `break`. -/
def notifyNext (notice : Notice) (state : ParserState) (fields : ParserFields) : Handling :=
  .notify notice 1 state fields (.next state fields)

/-- `CALLBACK_DATA` and `break`. -/
def dataNext (piece : Piece) (state : ParserState) (fields : ParserFields) : Handling :=
  .data piece 0 1 state fields (.next state fields)

end Handling

/-! ## Character classes -/

/-- `CR`. -/
def cr : Byte := '\r'.toUInt8

/-- `LF`. -/
def lf : Byte := '\n'.toUInt8

/-- The characters that `tokens` has an entry for, but for the space. -/
def isTokenMark (ch : Byte) : Bool :=
  ch == '!'.toUInt8 || ch == '#'.toUInt8 || ch == '$'.toUInt8 || ch == '%'.toUInt8 ||
    ch == '&'.toUInt8 || ch == '\''.toUInt8 || ch == '*'.toUInt8 || ch == '+'.toUInt8 ||
    ch == '-'.toUInt8 || ch == '.'.toUInt8 || ch == '^'.toUInt8 || ch == '_'.toUInt8 ||
    ch == 96 || ch == '|'.toUInt8 || ch == '~'.toUInt8

/-- `STRICT_TOKEN`: the character in lower case, or zero. -/
def token (ch : Byte) : Byte :=
  if isAlpha ch then lower ch
  else if isNum ch || isTokenMark ch then ch
  else 0

/-- `IS_HEADER_CHAR`. -/
def isHeaderChar (ch : Byte) : Bool :=
  ch == cr || ch == lf || ch == 9 || (31 < ch && ch != 127)

/-- `unhex`, of which only the first half is written out: the rest of the table is zero. -/
def unhex (ch : Byte) : Option UInt64 :=
  if isNum ch then some (ch - '0'.toUInt8).toUInt64
  else if isHex ch then some ((lower ch - 'a'.toUInt8).toUInt64 + 10)
  else if 128 ≤ ch then some 0
  else none

/-- `ch - '0'`. -/
def digitOf (ch : Byte) : Nat :=
  (ch - '0'.toUInt8).toNat

/-! ## Request and status lines -/

namespace ParserFields

/-- Where the states of a version go to when they do not find what they expect. -/
def invalidVersion (fields : ParserFields) (state : ParserState) : Handling :=
  .fail .invalidVersion state fields

/-- `s_res_http_major` and `s_req_http_major`. -/
def httpMajorDigit (fields : ParserFields) (state next : ParserState) (ch : Byte) : Handling :=
  if !isNum ch then fields.invalidVersion state
  else .next next { fields with httpMajor := digitOf ch }

/-- `s_res_http_dot` and `s_req_http_dot`. -/
def httpDot (fields : ParserFields) (state next : ParserState) (ch : Byte) : Handling :=
  if ch ≠ '.'.toUInt8 then fields.invalidVersion state else .next next fields

/-- `s_res_http_minor` and `s_req_http_minor`. -/
def httpMinorDigit (fields : ParserFields) (state next : ParserState) (ch : Byte) : Handling :=
  if !isNum ch then fields.invalidVersion state
  else .next next { fields with httpMinor := digitOf ch }

/-- The method that `s_start_req` assumes for the first letter of it. -/
def methodOf (ch : Byte) : Option HttpMethod :=
  if ch = 'A'.toUInt8 then some .acl
  else if ch = 'B'.toUInt8 then some .bind
  else if ch = 'C'.toUInt8 then some .connect
  else if ch = 'D'.toUInt8 then some .delete
  else if ch = 'G'.toUInt8 then some .get
  else if ch = 'H'.toUInt8 then some .head
  else if ch = 'L'.toUInt8 then some .lock
  else if ch = 'M'.toUInt8 then some .mkCol
  else if ch = 'N'.toUInt8 then some .notify
  else if ch = 'O'.toUInt8 then some .options
  else if ch = 'P'.toUInt8 then some .post
  else if ch = 'R'.toUInt8 then some .report
  else if ch = 'S'.toUInt8 then some .subscribe
  else if ch = 'T'.toUInt8 then some .trace
  else if ch = 'U'.toUInt8 then some .unlock
  else none

/-- `s_start_req`. -/
def startReq (fields : ParserFields) (ch : Byte) : Handling :=
  if ch = cr ∨ ch = lf then .next .startReq fields
  else
    let fields := fields.cleared
    if !isAlpha ch then .fail .invalidMethod .startReq fields
    else
      let fields := { fields with method := .delete, index := 1 }
      match methodOf ch with
      | none => .fail .invalidMethod .startReq fields
      | some method => .notifyNext .messageBegin .reqMethod { fields with method := method }

/-- `s_start_req_or_res`. -/
def startReqOrRes (fields : ParserFields) (ch : Byte) : Handling :=
  if ch = cr ∨ ch = lf then .next .startReqOrRes fields
  else
    let fields := fields.cleared
    if ch = 'H'.toUInt8 then .notifyNext .messageBegin .resOrRespH fields
    else startReq { fields with type := .request } ch

/-- `s_res_or_resp_H`. -/
def resOrRespH (fields : ParserFields) (ch : Byte) : Handling :=
  if ch = 'T'.toUInt8 then .next .resHT { fields with type := .response }
  else if ch ≠ 'E'.toUInt8 then .fail .invalidConstant .resOrRespH fields
  else .next .reqMethod { fields with type := .request, method := .head, index := 2 }

/-- `s_start_res`. -/
def startRes (fields : ParserFields) (ch : Byte) : Handling :=
  if ch = cr ∨ ch = lf then .next .startRes fields
  else
    let fields := fields.cleared
    if ch = 'H'.toUInt8 then .notifyNext .messageBegin .resH fields
    else .fail .invalidConstant .startRes fields

/-- `s_res_http_end`. -/
def resHttpEnd (fields : ParserFields) (ch : Byte) : Handling :=
  if ch ≠ ' '.toUInt8 then fields.invalidVersion .resHttpEnd
  else .next .resFirstStatusCode fields

/-- `s_res_first_status_code`. -/
def resFirstStatusCode (fields : ParserFields) (ch : Byte) : Handling :=
  if !isNum ch then
    if ch = ' '.toUInt8 then .next .resFirstStatusCode fields
    else .fail .invalidStatus .resFirstStatusCode fields
  else .next .resStatusCode { fields with statusCode := digitOf ch }

/-- `s_res_status`. -/
def resStatus (fields : ParserFields) (ch : Byte) : Handling :=
  if ch = cr then .dataNext .status .resLineAlmostDone fields
  else if ch = lf then .dataNext .status .headerFieldStart fields
  else .next .resStatus fields

/-- `s_res_status_start`. -/
def resStatusStart (fields : ParserFields) (ch : Byte) : Handling :=
  let fields := { fields with index := 0 }
  .mark .status (if ch = cr ∨ ch = lf then fields.resStatus ch else .next .resStatus fields)

/-- `s_res_status_code`. -/
def resStatusCode (fields : ParserFields) (ch : Byte) : Handling :=
  if !isNum ch then
    if ch = ' '.toUInt8 then .next .resStatusStart fields
    else if ch = cr ∨ ch = lf then fields.resStatusStart ch
    else .fail .invalidStatus .resStatusCode fields
  else
    let fields := { fields with statusCode := fields.statusCode * 10 + digitOf ch }
    if fields.statusCode > 999 then .fail .invalidStatus .resStatusCode fields
    else .next .resStatusCode fields

/-- The methods that `s_req_method` changes to where a letter is not the one expected. -/
def otherMethod (method : HttpMethod) (index : Nat) (ch : Byte) : Option HttpMethod :=
  match method, index with
  | .post, 1 =>
      if ch = 'U'.toUInt8 then some .put
      else if ch = 'A'.toUInt8 then some .patch
      else if ch = 'R'.toUInt8 then some .propFind
      else none
  | .put, 2 => if ch = 'R'.toUInt8 then some .purge else none
  | .connect, 1 => if ch = 'H'.toUInt8 then some .checkout else none
  | .connect, 2 => if ch = 'P'.toUInt8 then some .copy else none
  | .mkCol, 1 =>
      if ch = 'O'.toUInt8 then some .move
      else if ch = 'E'.toUInt8 then some .merge
      else if ch = '-'.toUInt8 then some .mSearch
      else none
  | .mkCol, 2 => if ch = 'A'.toUInt8 then some .mkActivity else none
  | .mkCol, 3 => if ch = 'A'.toUInt8 then some .mkCalendar else none
  | .subscribe, 1 =>
      if ch = 'E'.toUInt8 then some .search
      else if ch = 'O'.toUInt8 then some .source
      else none
  | .report, 2 => if ch = 'B'.toUInt8 then some .rebind else none
  | .propFind, 4 => if ch = 'P'.toUInt8 then some .propPatch else none
  | .lock, 1 => if ch = 'I'.toUInt8 then some .link else none
  | .unlock, 2 =>
      if ch = 'S'.toUInt8 then some .unsubscribe
      else if ch = 'B'.toUInt8 then some .unbind
      else none
  | .unlock, 3 => if ch = 'I'.toUInt8 then some .unlink else none
  | _, _ => none

/-- `s_req_method`. -/
def reqMethod (fields : ParserFields) (ch : Byte) : Handling :=
  let expected := fields.method.enumString.getD fields.index 0
  if ch = 0 then .fail .invalidMethod .reqMethod fields
  else if ch = ' '.toUInt8 ∧ expected = 0 then .next (.url .reqSpacesBeforeUrl) fields.incIndex
  else if ch = expected then .next .reqMethod fields.incIndex
  else if ('A'.toUInt8 ≤ ch ∧ ch ≤ 'Z'.toUInt8) ∨ ch = '-'.toUInt8 then
    match otherMethod fields.method fields.index ch with
    | some method => .next .reqMethod { fields with method := method }.incIndex
    | none => .fail .invalidMethod .reqMethod fields
  else .fail .invalidMethod .reqMethod fields

/-- `UPDATE_STATE(parse_url_char(CURRENT_STATE(), ch))` and what is made of it. -/
def urlChar (fields : ParserFields) (state : UrlState) (ch : Byte) : Handling :=
  let state := parseUrlChar state ch
  if state = .dead then .fail .invalidUrl (.url state) fields else .next (.url state) fields

/-- `s_req_spaces_before_url`. -/
def reqSpacesBeforeUrl (fields : ParserFields) (ch : Byte) : Handling :=
  if ch = ' '.toUInt8 then .next (.url .reqSpacesBeforeUrl) fields
  else
    .mark .url
      (fields.urlChar (if fields.method = .connect then .reqServerStart else .reqSpacesBeforeUrl)
        ch)

/-- The states of a URL before there may be white space. -/
def urlWithoutSpace (fields : ParserFields) (state : UrlState) (ch : Byte) : Handling :=
  if ch = ' '.toUInt8 ∨ ch = cr ∨ ch = lf then .fail .invalidUrl (.url state) fields
  else fields.urlChar state ch

/-- The states of a URL that may end there. -/
def urlEnding (fields : ParserFields) (state : UrlState) (ch : Byte) : Handling :=
  if ch = ' '.toUInt8 then .dataNext .url .reqHttpStart fields
  else if ch = cr ∨ ch = lf then
    .dataNext .url (if ch = cr then .reqLineAlmostDone else .headerFieldStart)
      { fields with httpMajor := 0, httpMinor := 9 }
  else fields.urlChar state ch

/-- `s_dead`. -/
def dead (fields : ParserFields) (ch : Byte) : Handling :=
  if ch = cr ∨ ch = lf then .next (.url .dead) fields
  else .fail .closedConnection (.url .dead) fields

/-- A character of the URL, in each of its states. -/
def url (fields : ParserFields) (state : UrlState) (ch : Byte) : Handling :=
  match state with
  | .dead => fields.dead ch
  | .reqSpacesBeforeUrl => fields.reqSpacesBeforeUrl ch
  | .reqSchema | .reqSchemaSlash | .reqSchemaSlashSlash | .reqServerStart =>
      fields.urlWithoutSpace state ch
  | .reqServer | .reqServerWithAt | .reqPath | .reqQueryStringStart | .reqQueryString
  | .reqFragmentStart | .reqFragment => fields.urlEnding state ch

/-- `s_req_http_start`. -/
def reqHttpStart (fields : ParserFields) (ch : Byte) : Handling :=
  if ch = ' '.toUInt8 then .next .reqHttpStart fields
  else if ch = 'H'.toUInt8 then .next .reqHttpH fields
  else if ch = 'I'.toUInt8 ∧ fields.method = .source then .next .reqHttpI fields
  else .fail .invalidConstant .reqHttpStart fields

/-- `s_req_http_end`. -/
def reqHttpEnd (fields : ParserFields) (ch : Byte) : Handling :=
  if ch = cr then .next .reqLineAlmostDone fields
  else if ch = lf then .next .headerFieldStart fields
  else fields.invalidVersion .reqHttpEnd

/-- `s_req_line_almost_done`. -/
def reqLineAlmostDone (fields : ParserFields) (ch : Byte) : Handling :=
  if ch ≠ lf then .fail .lfExpected .reqLineAlmostDone fields else .next .headerFieldStart fields

end ParserFields

/-! ## Bodies and their ends -/

namespace ParserFields

/-- `s_message_done`. -/
def messageDone (fields : ParserFields) : Handling :=
  .notify .messageComplete 1 fields.newMessage fields
    (if fields.upgrade then .exit fields.newMessage fields
      else .next fields.newMessage fields)

/-- The end of a message that has no body. -/
def completeNow (fields : ParserFields) : Handling :=
  .notifyNext .messageComplete fields.newMessage fields

/-- `hasBody`. -/
def hasBody (fields : ParserFields) : Bool :=
  fields.flags.chunked || (fields.contentLength > 0 && fields.contentLength != ullongMax)

/-- What `s_headers_done` makes of the headers. -/
def afterHeaders (fields : ParserFields) : Handling :=
  if fields.upgrade ∧ (fields.method = .connect ∨ fields.flags.skipbody ∨ !fields.hasBody) then
    .notify .messageComplete 1 fields.newMessage fields (.exit fields.newMessage fields)
  else if fields.flags.skipbody then fields.completeNow
  else if fields.flags.chunked then .next .chunkSizeStart fields
  else if fields.contentLength = 0 then fields.completeNow
  else if fields.contentLength ≠ ullongMax then .next .bodyIdentity fields
  else if !fields.messageNeedsEof then fields.completeNow
  else .next .bodyIdentityEof fields

/-- `s_headers_done`. -/
def headersDone (fields : ParserFields) (ch : Byte) : Handling :=
  if ch ≠ lf then .fail .strict .headersDone fields else .resetNread fields.afterHeaders

/-- `parser->upgrade`, as it is set for `on_headers_complete`. -/
def upgradeSeen (fields : ParserFields) : ParserFields :=
  { fields with
    upgrade :=
      if fields.flags.upgrade ∧ fields.flags.connectionUpgrade then
        fields.type = .request ∨ fields.statusCode = 101
      else fields.method = .connect }

/-- `s_headers_almost_done`. -/
def headersAlmostDone (fields : ParserFields) (ch : Byte) : Handling :=
  if ch ≠ lf then .fail .strict .headersAlmostDone fields
  else if fields.flags.trailing then
    .notify .chunkComplete 0 .messageDone fields fields.messageDone
  else if fields.flags.chunked ∧ fields.flags.contentLength then
    .fail .unexpectedContentLength .headersAlmostDone fields
  else .headersComplete .headersDone fields.upgradeSeen fun fields => fields.headersDone ch

/-- `to_read`. -/
def toRead (fields : ParserFields) (left : List Byte) : Nat :=
  min fields.contentLength.toNat left.length

/-- `parser->content_length -= to_read`. -/
def consumed (fields : ParserFields) (toRead : Nat) : ParserFields :=
  { fields with contentLength := fields.contentLength - UInt64.ofNat toRead }

/-- `MARK(body)`, and as much of a body as there is, of which the last character stays. -/
def takeBody (fields : ParserFields) (left : List Byte) (after : ParserFields → Handling) :
    Handling :=
  let toRead := fields.toRead left
  .mark .body (.advance (toRead - 1) (after (fields.consumed toRead)))

/-- `s_body_identity`, with the text that is left. -/
def bodyIdentity (fields : ParserFields) (left : List Byte) : Handling :=
  .assert (fields.contentLength ≠ 0 ∧ fields.contentLength ≠ ullongMax)
    (fields.takeBody left fun fields =>
      if fields.contentLength = 0 then .data .body 1 0 .messageDone fields fields.messageDone
      else .next .bodyIdentity fields)

/-- `s_body_identity_eof`, with the text that is left. -/
def bodyIdentityEof (fields : ParserFields) (left : List Byte) : Handling :=
  .mark .body (.advance (left.length - 1) (.next .bodyIdentityEof fields))

/-! ## Chunks -/

/-- `s_chunk_size_start`. -/
def chunkSizeStart (fields : ParserFields) (nread : Nat) (ch : Byte) : Handling :=
  .assert (nread = 1) (.assert fields.flags.chunked
    (match unhex ch with
      | none => .fail .invalidChunkSize .chunkSizeStart fields
      | some digit => .next .chunkSize { fields with contentLength := digit }))

/-- `s_chunk_size`. -/
def chunkSize (fields : ParserFields) (ch : Byte) : Handling :=
  .assert fields.flags.chunked
    (if ch = cr then .next .chunkSizeAlmostDone fields
    else
      match unhex ch with
      | none =>
          if ch = ';'.toUInt8 ∨ ch = ' '.toUInt8 then .next .chunkParameters fields
          else .fail .invalidChunkSize .chunkSize fields
      | some digit =>
          if (ullongMax - 16) / 16 < fields.contentLength then
            .fail .invalidContentLength .chunkSize fields
          else
            .next .chunkSize
              { fields with contentLength := fields.contentLength * 16 + digit })

/-- `s_chunk_parameters`. -/
def chunkParameters (fields : ParserFields) (ch : Byte) : Handling :=
  .assert fields.flags.chunked
    (if ch = cr then .next .chunkSizeAlmostDone fields else .next .chunkParameters fields)

/-- `s_chunk_size_almost_done`. -/
def chunkSizeAlmostDone (fields : ParserFields) (ch : Byte) : Handling :=
  .assert fields.flags.chunked
    (if ch ≠ lf then .fail .strict .chunkSizeAlmostDone fields
    else
      .resetNread
        (if fields.contentLength = 0 then
          .notifyNext .chunkHeader .headerFieldStart
            (fields.withFlags { fields.flags with trailing := true })
        else .notifyNext .chunkHeader .chunkData fields))

/-- `s_chunk_data`, with the text that is left. -/
def chunkData (fields : ParserFields) (left : List Byte) : Handling :=
  .assert fields.flags.chunked
    (.assert (fields.contentLength ≠ 0 ∧ fields.contentLength ≠ ullongMax)
      (fields.takeBody left fun fields =>
        .next (if fields.contentLength = 0 then .chunkDataAlmostDone else .chunkData) fields))

/-- `s_chunk_data_almost_done`. -/
def chunkDataAlmostDone (fields : ParserFields) (ch : Byte) : Handling :=
  .assert fields.flags.chunked (.assert (fields.contentLength = 0)
    (if ch ≠ cr then .fail .strict .chunkDataAlmostDone fields
      else .dataNext .body .chunkDataDone fields))

/-- `s_chunk_data_done`. -/
def chunkDataDone (fields : ParserFields) (ch : Byte) : Handling :=
  .assert fields.flags.chunked
    (if ch ≠ lf then .fail .strict .chunkDataDone fields
      else .resetNread (.notifyNext .chunkComplete .chunkSizeStart fields))

end ParserFields

end ReactiveToolbox.Http
