import ReactiveToolbox.Http.HttpParser

/-!
# The headers of the vendored HTTP parser

The states that read the fields and values of headers.  Both have a loop of their own:
while a field or a value may still be one that means something to the parser, each of its
characters is compared; from there on the loop goes over many characters at once, but over
no more than the limit on the size of headers.
-/

namespace ReactiveToolbox.Http

open ReactiveToolbox.Io

namespace ParserFields

/-- The words that fields and values of headers are compared with. -/
def connectionWord : List Byte := ascii "connection"

/-- `PROXY_CONNECTION`. -/
def proxyConnectionWord : List Byte := ascii "proxy-connection"

/-- `CONTENT_LENGTH`. -/
def contentLengthWord : List Byte := ascii "content-length"

/-- `TRANSFER_ENCODING`. -/
def transferEncodingWord : List Byte := ascii "transfer-encoding"

/-- `UPGRADE`. -/
def upgradeWord : List Byte := ascii "upgrade"

/-- `CHUNKED`. -/
def chunkedWord : List Byte := ascii "chunked"

/-- `KEEP_ALIVE`. -/
def keepAliveWord : List Byte := ascii "keep-alive"

/-- `CLOSE`. -/
def closeWord : List Byte := ascii "close"

/-- The state after another character of a word has been compared, whose index is given. -/
def matchWord (word : List Byte) (matching matched failed : HeaderState) (index : Nat)
    (c : Byte) : HeaderState :=
  if index > word.length ∨ c ≠ word.getD index 0 then failed
  else if index = word.length - 1 then matched
  else matching

/-- A field that is compared with a word. -/
def matchField (fields : ParserFields) (word : List Byte) (matched : HeaderState) (c : Byte) :
    ParserFields :=
  let fields := fields.incIndex
  fields.withHeaderState (matchWord word fields.headerState matched .general fields.index c)

/-- The `switch` of `s_header_field` but for the general state; it has no other states. -/
def fieldChar (fields : ParserFields) (ch c : Byte) : Option ParserFields :=
  match fields.headerState with
  | .general => some fields
  | .c =>
      some (fields.incIndex.withHeaderState (if c = 'o'.toUInt8 then .co else .general))
  | .co =>
      some (fields.incIndex.withHeaderState (if c = 'n'.toUInt8 then .con else .general))
  | .con =>
      some (fields.incIndex.withHeaderState
        (if c = 'n'.toUInt8 then .matchingConnection
        else if c = 't'.toUInt8 then .matchingContentLength
        else .general))
  | .matchingConnection => some (fields.matchField connectionWord .connection c)
  | .matchingProxyConnection => some (fields.matchField proxyConnectionWord .connection c)
  | .matchingContentLength => some (fields.matchField contentLengthWord .contentLength c)
  | .matchingTransferEncoding =>
      some (fields.matchField transferEncodingWord .transferEncoding c)
  | .matchingUpgrade => some (fields.matchField upgradeWord .upgrade c)
  | .connection | .contentLength | .transferEncoding | .upgrade =>
      some (if ch ≠ ' '.toUInt8 then fields.withHeaderState .general else fields)
  | _ => none

/-- How many characters the general state of a field goes over at once, behind the first:
`p + 1 < pe && TOKEN(p[1])`, where `pe` is no further than `limit`. -/
def fieldRun (limit : Nat) (rest : List Byte) : Nat :=
  ((rest.take (limit - 1)).takeWhile fun ch => token ch ≠ 0).length

/-- The loop of `s_header_field`: the fields after it, and the text from where it ends. -/
def fieldLoop (limit : Nat) : Nat → ParserFields → List Byte → Option (ParserFields × List Byte)
  | 0, fields, left => some (fields, left)
  | _ + 1, fields, [] => some (fields, [])
  | fuel + 1, fields, ch :: rest =>
      if token ch = 0 then some (fields, ch :: rest)
      else if fields.headerState = .general then
        fieldLoop limit fuel fields (rest.drop (fieldRun limit rest))
      else
        match fields.fieldChar ch (token ch) with
        | none => none
        | some fields => fieldLoop limit fuel fields rest

/-- `s_header_field`, with the text that is left. -/
def headerField (fields : ParserFields) (limit : Nat) (left : List Byte) : Handling :=
  match fieldLoop limit left.length fields left with
  | none => .assert false (.next .headerField fields)
  | some (fields, []) =>
      .advance (left.length - 1)
        (.count (left.length - 1) .headerField fields (.next .headerField fields))
  | some (fields, ch :: rest) =>
      let passed := left.length - (rest.length + 1)
      .advance passed
        (.count passed .headerField fields
          (if ch = ':'.toUInt8 then .dataNext .headerField .headerValueDiscardWs fields
            else .fail .invalidHeaderToken .headerField fields))

/-- The state that the first letter of a field leads to. -/
def fieldStart (c : Byte) : HeaderState :=
  if c = 'c'.toUInt8 then .c
  else if c = 'p'.toUInt8 then .matchingProxyConnection
  else if c = 't'.toUInt8 then .matchingTransferEncoding
  else if c = 'u'.toUInt8 then .matchingUpgrade
  else .general

/-- `s_header_field_start`. -/
def headerFieldStart (fields : ParserFields) (ch : Byte) : Handling :=
  if ch = cr then .next .headersAlmostDone fields
  else if ch = lf then fields.headersAlmostDone ch
  else if token ch = 0 then .fail .invalidHeaderToken .headerFieldStart fields
  else
    .mark .headerField
      (.next .headerField { fields with index := 0, headerState := fieldStart (token ch) })

/-- The state that the first letter of the value of `Connection` leads to. -/
def connectionStart (c : Byte) : HeaderState :=
  if c = 'k'.toUInt8 then .matchingConnectionKeepAlive
  else if c = 'c'.toUInt8 then .matchingConnectionClose
  else if c = 'u'.toUInt8 then .matchingConnectionUpgrade
  else .matchingConnectionToken

/-- `s_header_value_start`, which is only gone to from other states. -/
def headerValueStart (fields : ParserFields) (ch : Byte) : Handling :=
  let fields := { fields with index := 0 }
  .mark .headerValue
    (match fields.headerState with
    | .upgrade =>
        .next .headerValue
          ((fields.withFlags { fields.flags with upgrade := true }).withHeaderState .general)
    | .transferEncoding =>
        .next .headerValue (fields.withHeaderState
          (if lower ch = 'c'.toUInt8 then .matchingTransferEncodingChunked else .general))
    | .contentLength =>
        if !isNum ch then .fail .invalidContentLength .headerValue fields
        else if fields.flags.contentLength then
          .fail .unexpectedContentLength .headerValue fields
        else
          .next .headerValue
            { fields with
              flags := { fields.flags with contentLength := true }
              contentLength := (ch - '0'.toUInt8).toUInt64
              headerState := .contentLengthNum }
    | .contentLengthWs => .next .headerValue fields
    | .connection => .next .headerValue (fields.withHeaderState (connectionStart (lower ch)))
    | .matchingConnectionTokenStart => .next .headerValue fields
    | _ => .next .headerValue (fields.withHeaderState .general))

/-- `s_header_value_discard_ws`. -/
def headerValueDiscardWs (fields : ParserFields) (ch : Byte) : Handling :=
  if ch = ' '.toUInt8 ∨ ch = '\t'.toUInt8 then .next .headerValueDiscardWs fields
  else if ch = cr then .next .headerValueDiscardWsAlmostDone fields
  else if ch = lf then .next .headerValueDiscardLws fields
  else fields.headerValueStart ch

/-- The flags of a header that has been read. -/
def headerRead (fields : ParserFields) : ParserFields :=
  match fields.headerState with
  | .connectionKeepAlive =>
      fields.withFlags { fields.flags with connectionKeepAlive := true }
  | .connectionClose => fields.withFlags { fields.flags with connectionClose := true }
  | .transferEncodingChunked => fields.withFlags { fields.flags with chunked := true }
  | .connectionUpgrade => fields.withFlags { fields.flags with connectionUpgrade := true }
  | _ => fields

/-- `s_header_value_lws`. -/
def headerValueLws (fields : ParserFields) (ch : Byte) : Handling :=
  if ch = ' '.toUInt8 ∨ ch = '\t'.toUInt8 then
    (if fields.headerState = .contentLengthNum then fields.withHeaderState .contentLengthWs
      else fields).headerValueStart ch
  else fields.headerRead.headerFieldStart ch

/-- `s_header_almost_done`. -/
def headerAlmostDone (fields : ParserFields) (ch : Byte) : Handling :=
  if ch ≠ lf then .fail .lfExpected .headerAlmostDone fields else .next .headerValueLws fields

/-- `s_header_value_discard_lws`. -/
def headerValueDiscardLws (fields : ParserFields) (ch : Byte) : Handling :=
  if ch = ' '.toUInt8 ∨ ch = '\t'.toUInt8 then .next .headerValueDiscardWs fields
  else if fields.headerState = .contentLength then
    .fail .invalidContentLength .headerValueDiscardLws fields
  else
    let fields := fields.headerRead
    .mark .headerValue
      (.data .headerValue 0 0 .headerFieldStart fields (fields.headerFieldStart ch))

/-- What becomes of a character of a value. -/
inductive ValueChar where
  | passes (headerState : HeaderState) (fields : ParserFields)
  | fails (fields : ParserFields)
  | impossible

/-- `h_content_length_num`. -/
def contentDigit (fields : ParserFields) (ch : Byte) : ValueChar :=
  if ch = ' '.toUInt8 then .passes .contentLengthWs fields
  else if !isNum ch ∨ (ullongMax - 10) / 10 < fields.contentLength then
    .fails (fields.withHeaderState .contentLengthNum)
  else
    .passes .contentLengthNum
      { fields with
        contentLength := fields.contentLength * 10 + (ch - '0'.toUInt8).toUInt64 }

/-- A value that is compared with a word. -/
def matchValue (fields : ParserFields) (word : List Byte)
    (matching matched failed : HeaderState) (c : Byte) : ValueChar :=
  let fields := fields.incIndex
  .passes (matchWord word matching matched failed fields.index c) fields

/-- A word of `Connection` that has been read. -/
def tokenEnd (fields : ParserFields) (headerState : HeaderState) (flags : ParserFlags)
    (ch : Byte) : ValueChar :=
  if ch = ','.toUInt8 then
    .passes .matchingConnectionTokenStart { fields with flags := flags, index := 0 }
  else if ch ≠ ' '.toUInt8 then .passes .matchingConnectionToken fields
  else .passes headerState fields

/-- The `switch` of `s_header_value` but for the general state. -/
def valueChar (fields : ParserFields) (headerState : HeaderState) (ch : Byte) : ValueChar :=
  let c := lower ch
  match headerState with
  | .connection | .transferEncoding => .impossible
  | .contentLength =>
      if ch = ' '.toUInt8 then .passes .contentLength fields else fields.contentDigit ch
  | .contentLengthNum => fields.contentDigit ch
  | .contentLengthWs =>
      if ch = ' '.toUInt8 then .passes .contentLengthWs fields
      else .fails (fields.withHeaderState .contentLengthWs)
  | .matchingTransferEncodingChunked =>
      fields.matchValue chunkedWord .matchingTransferEncodingChunked .transferEncodingChunked
        .general c
  | .matchingConnectionTokenStart =>
      if c = 'k'.toUInt8 then .passes .matchingConnectionKeepAlive fields
      else if c = 'c'.toUInt8 then .passes .matchingConnectionClose fields
      else if c = 'u'.toUInt8 then .passes .matchingConnectionUpgrade fields
      else if token c ≠ 0 then .passes .matchingConnectionToken fields
      else if c = ' '.toUInt8 ∨ c = '\t'.toUInt8 then
        .passes .matchingConnectionTokenStart fields
      else .passes .general fields
  | .matchingConnectionKeepAlive =>
      fields.matchValue keepAliveWord .matchingConnectionKeepAlive .connectionKeepAlive
        .matchingConnectionToken c
  | .matchingConnectionClose =>
      fields.matchValue closeWord .matchingConnectionClose .connectionClose
        .matchingConnectionToken c
  | .matchingConnectionUpgrade =>
      fields.matchValue upgradeWord .matchingConnectionUpgrade .connectionUpgrade
        .matchingConnectionToken c
  | .matchingConnectionToken =>
      if ch = ','.toUInt8 then
        .passes .matchingConnectionTokenStart { fields with index := 0 }
      else .passes .matchingConnectionToken fields
  | .transferEncodingChunked =>
      .passes (if ch ≠ ' '.toUInt8 then .general else .transferEncodingChunked) fields
  | .connectionKeepAlive =>
      fields.tokenEnd .connectionKeepAlive { fields.flags with connectionKeepAlive := true } ch
  | .connectionClose =>
      fields.tokenEnd .connectionClose { fields.flags with connectionClose := true } ch
  | .connectionUpgrade =>
      fields.tokenEnd .connectionUpgrade { fields.flags with connectionUpgrade := true } ch
  | _ => .passes .general fields

/-- What the general state of a value goes over at once, with the number of characters up
to `pe`: whether all of them are characters of headers, and what is left.  The loop around
it steps over the character at `pe` without a look at it. -/
def valueRun (lenient : Bool) : Nat → List Byte → Bool × List Byte
  | _, [] => (true, [])
  | 0, _ :: rest => (true, rest)
  | limit + 1, ch :: rest =>
      if ch = cr ∨ ch = lf then (true, ch :: rest)
      else if !lenient && !isHeaderChar ch then (false, ch :: rest)
      else valueRun lenient limit rest

/-- Where the loop of `s_header_value` ends. -/
inductive ValueEnd where
  | atCr
  | atLf
  | finish
  | badToken
  | badLength
  | impossible
  deriving DecidableEq

/-- What the loop of `s_header_value` leaves behind: `h_state`, the fields, and the text from
where it ends. -/
structure ValueLoop where
  ending : ValueEnd
  headerState : HeaderState
  fields : ParserFields
  left : List Byte

/-- The loop of `s_header_value`. -/
def valueLoop (limit : Nat) : Nat → HeaderState → ParserFields → List Byte → ValueLoop
  | 0, headerState, fields, left => ⟨.finish, headerState, fields, left⟩
  | _ + 1, headerState, fields, [] => ⟨.finish, headerState, fields, []⟩
  | fuel + 1, headerState, fields, ch :: rest =>
      if ch = cr then ⟨.atCr, headerState, fields, ch :: rest⟩
      else if ch = lf then ⟨.atLf, headerState, fields, ch :: rest⟩
      else if !fields.lenientHttpHeaders && !isHeaderChar ch then
        ⟨.badToken, headerState, fields, ch :: rest⟩
      else if headerState = .general then
        match valueRun fields.lenientHttpHeaders limit (ch :: rest) with
        | (true, left) => valueLoop limit fuel .general fields left
        | (false, left) => ⟨.badToken, .general, fields, left⟩
      else
        match fields.valueChar headerState ch with
        | .passes headerState fields => valueLoop limit fuel headerState fields rest
        | .fails fields => ⟨.badLength, headerState, fields, ch :: rest⟩
        | .impossible => ⟨.impossible, headerState, fields, ch :: rest⟩

/-- The fields with `h_state` stored in them. -/
def ValueLoop.read (loop : ValueLoop) : ParserFields :=
  loop.fields.withHeaderState loop.headerState

/-- What follows the loop of `s_header_value`, which has passed some characters. -/
def valueEnded (loop : ValueLoop) (passed : Nat) : Handling :=
  match loop.ending with
  | .atCr =>
      .advance passed (.data .headerValue 0 1 .headerAlmostDone loop.read
        (.count passed .headerAlmostDone loop.read (.next .headerAlmostDone loop.read)))
  | .atLf =>
      .advance passed (.count passed .headerAlmostDone loop.fields
        (.data .headerValue 0 0 .headerAlmostDone loop.read (loop.read.headerAlmostDone lf)))
  | .finish =>
      .advance (passed - 1)
        (.count (passed - 1) .headerValue loop.read (.next .headerValue loop.read))
  | .badToken => .advance passed (.fail .invalidHeaderToken .headerValue loop.fields)
  | .badLength => .advance passed (.fail .invalidContentLength .headerValue loop.fields)
  | .impossible => .advance passed (.assert false (.next .headerValue loop.read))

/-- `s_header_value`, with the text that is left. -/
def headerValue (fields : ParserFields) (limit : Nat) (left : List Byte) : Handling :=
  let loop := valueLoop limit left.length fields.headerState fields left
  valueEnded loop (left.length - loop.left.length)

end ParserFields

/-! ## The switch -/

/-- The `switch` of `http_parser_execute`, on the text that is left. -/
def handle (limit : Nat) (state : ParserState) (nread : Nat) (fields : ParserFields)
    (ch : Byte) (rest : List Byte) : Handling :=
  match state with
  | .url state => fields.url state ch
  | .startReqOrRes => fields.startReqOrRes ch
  | .resOrRespH => fields.resOrRespH ch
  | .startRes => fields.startRes ch
  | .resH => .strictCheck 'T'.toUInt8 .resH .resHT fields ch
  | .resHT => .strictCheck 'T'.toUInt8 .resHT .resHTT fields ch
  | .resHTT => .strictCheck 'P'.toUInt8 .resHTT .resHTTP fields ch
  | .resHTTP => .strictCheck '/'.toUInt8 .resHTTP .resHttpMajor fields ch
  | .resHttpMajor => fields.httpMajorDigit .resHttpMajor .resHttpDot ch
  | .resHttpDot => fields.httpDot .resHttpDot .resHttpMinor ch
  | .resHttpMinor => fields.httpMinorDigit .resHttpMinor .resHttpEnd ch
  | .resHttpEnd => fields.resHttpEnd ch
  | .resFirstStatusCode => fields.resFirstStatusCode ch
  | .resStatusCode => fields.resStatusCode ch
  | .resStatusStart => fields.resStatusStart ch
  | .resStatus => fields.resStatus ch
  | .resLineAlmostDone => .strictCheck lf .resLineAlmostDone .headerFieldStart fields ch
  | .startReq => fields.startReq ch
  | .reqMethod => fields.reqMethod ch
  | .reqHttpStart => fields.reqHttpStart ch
  | .reqHttpH => .strictCheck 'T'.toUInt8 .reqHttpH .reqHttpHT fields ch
  | .reqHttpHT => .strictCheck 'T'.toUInt8 .reqHttpHT .reqHttpHTT fields ch
  | .reqHttpHTT => .strictCheck 'P'.toUInt8 .reqHttpHTT .reqHttpHTTP fields ch
  | .reqHttpI => .strictCheck 'C'.toUInt8 .reqHttpI .reqHttpIC fields ch
  | .reqHttpIC => .strictCheck 'E'.toUInt8 .reqHttpIC .reqHttpHTTP fields ch
  | .reqHttpHTTP => .strictCheck '/'.toUInt8 .reqHttpHTTP .reqHttpMajor fields ch
  | .reqHttpMajor => fields.httpMajorDigit .reqHttpMajor .reqHttpDot ch
  | .reqHttpDot => fields.httpDot .reqHttpDot .reqHttpMinor ch
  | .reqHttpMinor => fields.httpMinorDigit .reqHttpMinor .reqHttpEnd ch
  | .reqHttpEnd => fields.reqHttpEnd ch
  | .reqLineAlmostDone => fields.reqLineAlmostDone ch
  | .headerFieldStart => fields.headerFieldStart ch
  | .headerField => fields.headerField limit (ch :: rest)
  | .headerValueDiscardWs => fields.headerValueDiscardWs ch
  | .headerValueDiscardWsAlmostDone =>
      .strictCheck lf .headerValueDiscardWsAlmostDone .headerValueDiscardLws fields ch
  | .headerValueDiscardLws => fields.headerValueDiscardLws ch
  | .headerValue => fields.headerValue limit (ch :: rest)
  | .headerValueLws => fields.headerValueLws ch
  | .headerAlmostDone => fields.headerAlmostDone ch
  | .chunkSizeStart => fields.chunkSizeStart nread ch
  | .chunkSize => fields.chunkSize ch
  | .chunkParameters => fields.chunkParameters ch
  | .chunkSizeAlmostDone => fields.chunkSizeAlmostDone ch
  | .headersAlmostDone => fields.headersAlmostDone ch
  | .headersDone => fields.headersDone ch
  | .chunkData => fields.chunkData (ch :: rest)
  | .chunkDataAlmostDone => fields.chunkDataAlmostDone ch
  | .chunkDataDone => fields.chunkDataDone ch
  | .bodyIdentity => fields.bodyIdentity (ch :: rest)
  | .bodyIdentityEof => fields.bodyIdentityEof (ch :: rest)
  | .messageDone => fields.messageDone

end ReactiveToolbox.Http
