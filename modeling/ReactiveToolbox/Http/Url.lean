import ReactiveToolbox.Http.Types
import ReactiveToolbox.Http.UrlParser

/-!
# The request of a connection and its URL

`HttpRequest` is a `BasicUrl`: it keeps the parsed URL beside the text it was
parsed from, and its accessors cut the components out of the present text.  One
request object serves all the messages of a connection; it is cleared when a
message begins, appended to while the message arrives, and flushed at its end.
-/

namespace ReactiveToolbox.Http

open ReactiveToolbox.Io

/-- `std::string_view::substr`; `none` when it throws `std::out_of_range`. -/
def substr (text : List Byte) (off len : Nat) : Option (List Byte) :=
  if off ≤ text.length then some ((text.drop off).take len) else none

/-- `HttpException`: the value of its error code, and its text. -/
structure HttpException where
  status : Nat
  what : List Byte
  deriving DecidableEq

/-- The longest text that `err_msg()` takes; what is streamed beyond it is cut off. -/
def maxErrSize : Nat :=
  511

/-- The exception of `parse`, with `HttpStatus::BadRequest`. -/
def invalidUrl (url : List Byte) : HttpException where
  status := 400
  what := ascii "Bad Request: " ++ (ascii "invalid url: " ++ url).take maxErrSize

/-- `HttpRequest`, with the `parser_` of its `BasicUrl`. -/
structure HttpRequest where
  method : HttpMethod
  url : List Byte
  headers : List (List Byte × List Byte)
  body : List Byte
  parser : HttpParserUrl

namespace HttpRequest

/-- A request that nothing has been appended to. -/
def create : HttpRequest where
  method := .get
  url := []
  headers := []
  body := []
  parser := httpParserUrlInit

/-! ## The accessors of `BasicUrl` -/

/-- `url().substr(field.off, field.len)`. -/
def component (request : HttpRequest) (field : UrlField) : Option (List Byte) :=
  let data := request.parser.fieldData field
  substr request.url data.off data.len

/-- `BasicUrl::schema`. -/
def schema (request : HttpRequest) : Option (List Byte) :=
  request.component .schema

/-- `BasicUrl::host`. -/
def host (request : HttpRequest) : Option (List Byte) :=
  request.component .host

/-- `BasicUrl::port`. -/
def port (request : HttpRequest) : Option (List Byte) :=
  request.component .port

/-- `BasicUrl::path`. -/
def path (request : HttpRequest) : Option (List Byte) :=
  request.component .path

/-- `BasicUrl::query`. -/
def query (request : HttpRequest) : Option (List Byte) :=
  request.component .query

/-- `BasicUrl::fragment`. -/
def fragment (request : HttpRequest) : Option (List Byte) :=
  request.component .fragment

/-- `BasicUrl::user_info`. -/
def userInfo (request : HttpRequest) : Option (List Byte) :=
  request.component .userinfo

/-- All the accessors of `BasicUrl`. -/
def components (request : HttpRequest) : List (Option (List Byte)) :=
  [request.schema, request.host, request.port, request.path, request.query, request.fragment,
    request.userInfo]

/-! ## The operations of `HttpRequest` -/

/-- `clear`, which keeps what the last parse has found. -/
def clear (request : HttpRequest) : HttpRequest :=
  { request with
    method := .get
    url := []
    headers := []
    body := [] }

/-- `set_method`. -/
def setMethod (request : HttpRequest) (method : HttpMethod) : HttpRequest :=
  { request with method := method }

/-- `append_url`. -/
def appendUrl (request : HttpRequest) (text : List Byte) : HttpRequest :=
  { request with url := request.url ++ text }

/-- `append_header_field`; a piece that is not the first extends the last header's name. -/
def appendHeaderField (request : HttpRequest) (text : List Byte) (first : Bool) : HttpRequest :=
  { request with
    headers :=
      if first then request.headers ++ [(text, [])]
      else request.headers.modifyLast fun header => (header.1 ++ text, header.2) }

/-- `append_header_value`, to the last header. -/
def appendHeaderValue (request : HttpRequest) (text : List Byte) : HttpRequest :=
  { request with
    headers := request.headers.modifyLast fun header => (header.1, header.2 ++ text) }

/-- `append_body`. -/
def appendBody (request : HttpRequest) (text : List Byte) : HttpRequest :=
  { request with body := request.body ++ text }

/-- `BasicUrl::parse`. -/
def parse (request : HttpRequest) (isConnect : Bool) : Except HttpException HttpRequest :=
  let parsed := httpParserParseUrl request.url isConnect request.parser
  if parsed.1 ≠ 0 then .error (invalidUrl request.url)
  else .ok { request with parser := parsed.2 }

/-- `flush`, which parses the URL. -/
def flush (request : HttpRequest) : Except HttpException HttpRequest :=
  request.parse false

/-! ## Messages -/

/-- A piece of a message that the connection hands to the request. -/
inductive Part where
  | url (text : List Byte)
  | headerField (text : List Byte) (first : Bool)
  | headerValue (text : List Byte)
  | headersEnd (method : HttpMethod)
  | body (text : List Byte)
  deriving DecidableEq

/-- A part of a message as it arrives. -/
def append (request : HttpRequest) : Part → HttpRequest
  | .url text => request.appendUrl text
  | .headerField text first => request.appendHeaderField text first
  | .headerValue text => request.appendHeaderValue text
  | .headersEnd method => request.setMethod method
  | .body text => request.appendBody text

/-- A message from `on_message_begin` to the `flush` of `on_message_end`. -/
def deliver (request : HttpRequest) (parts : List Part) : Except HttpException HttpRequest :=
  (parts.foldl append request.clear).flush

/-- The messages of a connection, up to the first whose `flush` throws. -/
def deliverAll (request : HttpRequest) (messages : List (List Part)) :
    Except HttpException HttpRequest :=
  messages.foldlM deliver request

/-- The URL that a message carries. -/
def urlOf (parts : List Part) : List Byte :=
  parts.flatMap fun
    | .url text => text
    | _ => []

end HttpRequest

/-! ## Where components begin -/

/-- The component of a URL, when the URL is valid and has the component. -/
def fieldIn (url : List Byte) (field : UrlField) : Option FieldData :=
  let parsed := httpParserParseUrl url false httpParserUrlInit
  if parsed.1 = 0 ∧ parsed.2.fieldSet field = true then some (parsed.2.fieldData field) else none

/-- The component of the last of some URLs that has it. -/
def lastFieldIn (urls : List (List Byte)) (field : UrlField) : Option FieldData :=
  urls.reverse.findSome? fun url => fieldIn url field

/--
No component of the earlier URLs is left behind where the present URL has none:
either no earlier URL had it, or the last one that had it had it begin at the
very length of the present URL.
-/
def NothingLeftBehind (earlier : List (List Byte)) (url : List Byte) : Prop :=
  ∀ field, fieldIn url field = none →
    ∀ data, lastFieldIn earlier field = some data → data.off = url.length

end ReactiveToolbox.Http
