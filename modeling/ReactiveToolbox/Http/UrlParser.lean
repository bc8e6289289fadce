import Mathlib.Algebra.Ring.Nat
import Mathlib.Data.Fintype.Defs
import Mathlib.Logic.Function.Basic
import ReactiveToolbox.Io.Buffer

/-!
# The vendored URL parser

`http_parser_parse_url` in its strict form.  It runs a state machine over the
URL, marks where each component begins and counts its bytes, and then goes over
the host once more to split off the port and the user information.  Offsets and
lengths are kept in sixteen bits.

Only `port` and `field_set` of the result are cleared first; the offsets and
lengths of components that the URL does not have are left as they were.
-/

namespace ReactiveToolbox.Http

open ReactiveToolbox.Io

/-! ## Character classes -/

/-- `LOWER`. -/
def lower (ch : Byte) : Byte :=
  ch ||| 0x20

/-- `IS_ALPHA`. -/
def isAlpha (ch : Byte) : Bool :=
  'a'.toUInt8 ≤ lower ch && lower ch ≤ 'z'.toUInt8

/-- `IS_NUM`. -/
def isNum (ch : Byte) : Bool :=
  '0'.toUInt8 ≤ ch && ch ≤ '9'.toUInt8

/-- `IS_ALPHANUM`. -/
def isAlphanum (ch : Byte) : Bool :=
  isAlpha ch || isNum ch

/-- `IS_HEX`. -/
def isHex (ch : Byte) : Bool :=
  isNum ch || ('a'.toUInt8 ≤ lower ch && lower ch ≤ 'f'.toUInt8)

/-- `IS_MARK`. -/
def isMark (ch : Byte) : Bool :=
  ch == '-'.toUInt8 || ch == '_'.toUInt8 || ch == '.'.toUInt8 || ch == '!'.toUInt8 ||
    ch == '~'.toUInt8 || ch == '*'.toUInt8 || ch == '\''.toUInt8 || ch == '('.toUInt8 ||
    ch == ')'.toUInt8

/-- `IS_USERINFO_CHAR`. -/
def isUserinfoChar (ch : Byte) : Bool :=
  isAlphanum ch || isMark ch || ch == '%'.toUInt8 || ch == ';'.toUInt8 || ch == ':'.toUInt8 ||
    ch == '&'.toUInt8 || ch == '='.toUInt8 || ch == '+'.toUInt8 || ch == '$'.toUInt8 ||
    ch == ','.toUInt8

/-- `normal_url_char`: the visible characters without `#` and `?`. -/
def isUrlChar (ch : Byte) : Bool :=
  33 ≤ ch && ch ≤ 126 && ch != '#'.toUInt8 && ch != '?'.toUInt8

/-- `IS_HOST_CHAR`, which is strict. -/
def isHostChar (ch : Byte) : Bool :=
  isAlphanum ch || ch == '.'.toUInt8 || ch == '-'.toUInt8

/-! ## The state machines -/

/-- The states of `enum state` that belong to a URL. -/
inductive UrlState where
  | dead
  | reqSpacesBeforeUrl
  | reqSchema
  | reqSchemaSlash
  | reqSchemaSlashSlash
  | reqServerStart
  | reqServer
  | reqServerWithAt
  | reqPath
  | reqQueryStringStart
  | reqQueryString
  | reqFragmentStart
  | reqFragment
  deriving DecidableEq

/-- The case that `s_req_server_with_at` falls through to. -/
def parseServerChar (ch : Byte) : UrlState :=
  if ch == '/'.toUInt8 then .reqPath
  else if ch == '?'.toUInt8 then .reqQueryStringStart
  else if ch == '@'.toUInt8 then .reqServerWithAt
  else if isUserinfoChar ch || ch == '['.toUInt8 || ch == ']'.toUInt8 then .reqServer
  else .dead

/-- `parse_url_char`. -/
def parseUrlChar (state : UrlState) (ch : Byte) : UrlState :=
  if ch == ' '.toUInt8 || ch == '\r'.toUInt8 || ch == '\n'.toUInt8 then .dead
  else if ch == '\t'.toUInt8 || ch == 12 then .dead
  else
    match state with
    | .reqSpacesBeforeUrl =>
        if ch == '/'.toUInt8 || ch == '*'.toUInt8 then .reqPath
        else if isAlpha ch then .reqSchema
        else .dead
    | .reqSchema =>
        if isAlpha ch then .reqSchema
        else if ch == ':'.toUInt8 then .reqSchemaSlash
        else .dead
    | .reqSchemaSlash => if ch == '/'.toUInt8 then .reqSchemaSlashSlash else .dead
    | .reqSchemaSlashSlash => if ch == '/'.toUInt8 then .reqServerStart else .dead
    | .reqServerWithAt => if ch == '@'.toUInt8 then .dead else parseServerChar ch
    | .reqServerStart | .reqServer => parseServerChar ch
    | .reqPath =>
        if isUrlChar ch then .reqPath
        else if ch == '?'.toUInt8 then .reqQueryStringStart
        else if ch == '#'.toUInt8 then .reqFragmentStart
        else .dead
    | .reqQueryStringStart | .reqQueryString =>
        if isUrlChar ch then .reqQueryString
        else if ch == '?'.toUInt8 then .reqQueryString
        else if ch == '#'.toUInt8 then .reqFragmentStart
        else .dead
    | .reqFragmentStart =>
        if isUrlChar ch then .reqFragment
        else if ch == '?'.toUInt8 then .reqFragment
        else if ch == '#'.toUInt8 then .reqFragmentStart
        else .dead
    | .reqFragment =>
        if isUrlChar ch then .reqFragment
        else if ch == '?'.toUInt8 || ch == '#'.toUInt8 then .reqFragment
        else .dead
    | .dead => .dead

/-- `enum http_host_state`. -/
inductive HostState where
  | dead
  | userinfoStart
  | userinfo
  | hostStart
  | hostV6Start
  | host
  | hostV6
  | hostV6End
  | hostV6ZoneStart
  | hostV6Zone
  | hostPortStart
  | hostPort
  deriving DecidableEq

/-- The case that `s_http_host` falls through to. -/
def parseHostEndChar (ch : Byte) : HostState :=
  if ch == ':'.toUInt8 then .hostPortStart else .dead

/-- The case that `s_http_host_v6` falls through to. -/
def parseV6Char (state : HostState) (ch : Byte) : HostState :=
  if isHex ch || ch == ':'.toUInt8 || ch == '.'.toUInt8 then .hostV6
  else if state = .hostV6 ∧ ch = '%'.toUInt8 then .hostV6ZoneStart
  else .dead

/-- The case that `s_http_host_v6_zone` falls through to. -/
def parseZoneChar (ch : Byte) : HostState :=
  if isAlphanum ch || ch == '%'.toUInt8 || ch == '.'.toUInt8 || ch == '-'.toUInt8 ||
      ch == '_'.toUInt8 || ch == '~'.toUInt8 then .hostV6Zone
  else .dead

/-- `http_parse_host_char`. -/
def httpParseHostChar (state : HostState) (ch : Byte) : HostState :=
  match state with
  | .userinfo | .userinfoStart =>
      if ch == '@'.toUInt8 then .hostStart
      else if isUserinfoChar ch then .userinfo
      else .dead
  | .hostStart =>
      if ch == '['.toUInt8 then .hostV6Start
      else if isHostChar ch then .host
      else .dead
  | .host => if isHostChar ch then .host else parseHostEndChar ch
  | .hostV6End => parseHostEndChar ch
  | .hostV6 => if ch == ']'.toUInt8 then .hostV6End else parseV6Char .hostV6 ch
  | .hostV6Start => parseV6Char .hostV6Start ch
  | .hostV6Zone => if ch == ']'.toUInt8 then .hostV6End else parseZoneChar ch
  | .hostV6ZoneStart => parseZoneChar ch
  | .hostPort | .hostPortStart => if isNum ch then .hostPort else .dead
  | .dead => .dead

/-! ## The parsed URL -/

/-- `enum http_parser_url_fields`. -/
inductive UrlField where
  | schema
  | host
  | port
  | path
  | query
  | fragment
  | userinfo
  deriving DecidableEq

/-- An entry of `field_data`. -/
structure FieldData where
  off : Nat
  len : Nat
  deriving DecidableEq

/-- `http_parser_url`. -/
@[ext]
structure HttpParserUrl where
  fieldSet : UrlField → Bool
  port : Nat
  fieldData : UrlField → FieldData

/-- `http_parser_url_init`. -/
def httpParserUrlInit : HttpParserUrl where
  fieldSet _ := false
  port := 0
  fieldData _ := ⟨0, 0⟩

namespace HttpParserUrl

/-- `field_data[field].off = (uint16_t)index`. -/
def setOff (url : HttpParserUrl) (field : UrlField) (index : Nat) : HttpParserUrl :=
  { url with
    fieldData := Function.update url.fieldData field
      { url.fieldData field with off := index % 2 ^ 16 } }

/-- `field_data[field].len = len`. -/
def setLen (url : HttpParserUrl) (field : UrlField) (len : Nat) : HttpParserUrl :=
  { url with
    fieldData := Function.update url.fieldData field
      { url.fieldData field with len := len % 2 ^ 16 } }

/-- `field_data[field].len++`. -/
def extend (url : HttpParserUrl) (field : UrlField) : HttpParserUrl :=
  url.setLen field ((url.fieldData field).len + 1)

/-- `field_set |= (1 << field)`. -/
def mark (url : HttpParserUrl) (field : UrlField) : HttpParserUrl :=
  { url with fieldSet := Function.update url.fieldSet field true }

/-- A component that begins at `index`, with the length it is given there. -/
def start (url : HttpParserUrl) (field : UrlField) (index len : Nat) : HttpParserUrl :=
  ((url.setOff field index).setLen field len).mark field

end HttpParserUrl

/-- What the main loop does in a state. -/
inductive UrlStep where
  | fail
  | skip
  | field (field : UrlField)

/-- What a state of the parser makes of the field in progress. -/
def UrlState.step : UrlState → UrlStep
  | .dead | .reqSpacesBeforeUrl => .fail
  | .reqSchemaSlash | .reqSchemaSlashSlash | .reqServerStart | .reqQueryStringStart
  | .reqFragmentStart => .skip
  | .reqSchema => .field .schema
  | .reqServerWithAt | .reqServer => .field .host
  | .reqPath => .field .path
  | .reqQueryString => .field .query
  | .reqFragment => .field .fragment

/--
The main loop of `http_parser_parse_url`: `found_at` unless it fails, and the
components it marked.
-/
def scanUrl (state : UrlState) (oldField : Option UrlField) (foundAt : Bool) (index : Nat)
    (bytes : List Byte) (url : HttpParserUrl) : Option Bool × HttpParserUrl :=
  match bytes with
  | [] => (some foundAt, url)
  | ch :: rest =>
      let next := parseUrlChar state ch
      match next.step with
      | .fail => (none, url)
      | .skip => scanUrl next oldField foundAt (index + 1) rest url
      | .field field =>
          let found := foundAt || decide (next = .reqServerWithAt)
          if oldField = some field then
            scanUrl next oldField found (index + 1) rest (url.extend field)
          else
            scanUrl next (some field) found (index + 1) rest (url.start field index 1)

/-- What the loop of `http_parse_host` does to the result on entering a state. -/
def markHost (state next : HostState) (index : Nat) (url : HttpParserUrl) : HttpParserUrl :=
  match next with
  | .host => (if state = .host then url else url.setOff .host index).extend .host
  | .hostV6 => (if state = .hostV6 then url else url.setOff .host index).extend .host
  | .hostV6ZoneStart | .hostV6Zone => url.extend .host
  | .hostPort => (if state = .hostPort then url else url.start .port index 0).extend .port
  | .userinfo => (if state = .userinfo then url else url.start .userinfo index 0).extend .userinfo
  | _ => url

/-- The loop of `http_parse_host`. -/
def scanHost (state : HostState) (index : Nat) (bytes : List Byte) (url : HttpParserUrl) :
    Option HostState × HttpParserUrl :=
  match bytes with
  | [] => (some state, url)
  | ch :: rest =>
      let next := httpParseHostChar state ch
      if next = .dead then (none, url)
      else scanHost next (index + 1) rest (markHost state next index url)

/-- The states that a host must not end in. -/
def HostState.unexpectedEnd : HostState → Bool
  | .hostStart | .hostV6Start | .hostV6 | .hostV6ZoneStart | .hostV6Zone | .hostPortStart
  | .userinfo | .userinfoStart => true
  | _ => false

/-- `http_parse_host`. -/
def httpParseHost (buf : List Byte) (url : HttpParserUrl) (foundAt : Bool) :
    Nat × HttpParserUrl :=
  let off := (url.fieldData .host).off
  let buflen := off + (url.fieldData .host).len
  let state : HostState := if foundAt then .userinfoStart else .hostStart
  match scanHost state off ((buf.take buflen).drop off) (url.setLen .host 0) with
  | (none, scanned) => (1, scanned)
  | (some last, scanned) => (if last.unexpectedEnd then 1 else 0, scanned)

/-- The number that the digits of a port stand for, unless it exceeds sixteen bits. -/
def portValue (value : Nat) (digits : List Byte) : Option Nat :=
  match digits with
  | [] => some value
  | ch :: rest =>
      let larger := value * 10 + (ch.toNat - '0'.toNat)
      if 0xffff < larger then none else portValue larger rest

/-- The conversion of the port at the end of `http_parser_parse_url`. -/
def parsePort (buf : List Byte) (url : HttpParserUrl) : Nat × HttpParserUrl :=
  if url.fieldSet .port then
    let off := (url.fieldData .port).off
    let len := (url.fieldData .port).len
    match portValue 0 ((buf.drop off).take len) with
    | none => (1, url)
    | some value => (0, { url with port := value })
  else (0, url)

/-- `field_set` is exactly the host and the port. -/
def HttpParserUrl.onlyHostPort (url : HttpParserUrl) : Bool :=
  url.fieldSet .host && url.fieldSet .port && !url.fieldSet .schema && !url.fieldSet .path &&
    !url.fieldSet .query && !url.fieldSet .fragment && !url.fieldSet .userinfo

/-- The host of a URL that has one is taken apart. -/
def splitHost (buf : List Byte) (foundAt : Bool) (url : HttpParserUrl) : Nat × HttpParserUrl :=
  if url.fieldSet .host then httpParseHost buf url foundAt else (0, url)

/-- `http_parser_parse_url` behind its main loop. -/
def finishUrl (buf : List Byte) (isConnect foundAt : Bool) (url : HttpParserUrl) :
    Nat × HttpParserUrl :=
  if url.fieldSet .schema && !url.fieldSet .host then (1, url)
  else
    let split := splitHost buf foundAt url
    if split.1 ≠ 0 then (1, split.2)
    else if isConnect && !split.2.onlyHostPort then (1, split.2)
    else parsePort buf split.2

/-- `http_parser_parse_url`: its return value, and what it leaves in `*u`. -/
def httpParserParseUrl (buf : List Byte) (isConnect : Bool) (url : HttpParserUrl) :
    Nat × HttpParserUrl :=
  if buf.length = 0 then (1, url)
  else
    let state : UrlState := if isConnect then .reqServerStart else .reqSpacesBeforeUrl
    match scanUrl state none false 0 buf { url with port := 0, fieldSet := fun _ => false } with
    | (none, scanned) => (1, scanned)
    | (some foundAt, scanned) => finishUrl buf isConnect foundAt scanned

end ReactiveToolbox.Http
