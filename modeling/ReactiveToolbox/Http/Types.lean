import ReactiveToolbox.Io.Buffer

/-!
# HTTP types

The methods of requests and the status codes of responses with their reason
phrases.
-/

namespace ReactiveToolbox.Http

open ReactiveToolbox.Io

/-- The bytes of a text of seven-bit characters. -/
def ascii (text : String) : List Byte :=
  text.toList.map Char.toUInt8

/-- `HttpMethod`. -/
inductive HttpMethod where
  | delete | get | head | post | put | connect | options | trace | copy | lock | mkCol | move
  | propFind | propPatch | search | unlock | bind | rebind | unbind | acl | report | mkActivity
  | checkout | merge | mSearch | notify | subscribe | unsubscribe | patch | purge | mkCalendar
  | link | unlink | source
  deriving DecidableEq

/-- `enum_string(HttpMethod)`, which is `http_method_str` of the vendored parser. -/
def HttpMethod.enumString : HttpMethod → List Byte
  | .delete => ascii "DELETE"
  | .get => ascii "GET"
  | .head => ascii "HEAD"
  | .post => ascii "POST"
  | .put => ascii "PUT"
  | .connect => ascii "CONNECT"
  | .options => ascii "OPTIONS"
  | .trace => ascii "TRACE"
  | .copy => ascii "COPY"
  | .lock => ascii "LOCK"
  | .mkCol => ascii "MKCOL"
  | .move => ascii "MOVE"
  | .propFind => ascii "PROPFIND"
  | .propPatch => ascii "PROPPATCH"
  | .search => ascii "SEARCH"
  | .unlock => ascii "UNLOCK"
  | .bind => ascii "BIND"
  | .rebind => ascii "REBIND"
  | .unbind => ascii "UNBIND"
  | .acl => ascii "ACL"
  | .report => ascii "REPORT"
  | .mkActivity => ascii "MKACTIVITY"
  | .checkout => ascii "CHECKOUT"
  | .merge => ascii "MERGE"
  | .mSearch => ascii "M-SEARCH"
  | .notify => ascii "NOTIFY"
  | .subscribe => ascii "SUBSCRIBE"
  | .unsubscribe => ascii "UNSUBSCRIBE"
  | .patch => ascii "PATCH"
  | .purge => ascii "PURGE"
  | .mkCalendar => ascii "MKCALENDAR"
  | .link => ascii "LINK"
  | .unlink => ascii "UNLINK"
  | .source => ascii "SOURCE"

/-- `HTTP_STATUS_MAP`. -/
def httpStatusMap : List (Nat × String) := [
  (100, "Continue"),
  (101, "Switching Protocols"),
  (102, "Processing"),
  (200, "OK"),
  (201, "Created"),
  (202, "Accepted"),
  (203, "Non-Authoritative Information"),
  (204, "No Content"),
  (205, "Reset Content"),
  (206, "Partial Content"),
  (207, "Multi-Status"),
  (208, "Already Reported"),
  (226, "IM Used"),
  (300, "Multiple Choices"),
  (301, "Moved Permanently"),
  (302, "Found"),
  (303, "See Other"),
  (304, "Not Modified"),
  (305, "Use Proxy"),
  (307, "Temporary Redirect"),
  (308, "Permanent Redirect"),
  (400, "Bad Request"),
  (401, "Unauthorized"),
  (402, "Payment Required"),
  (403, "Forbidden"),
  (404, "Not Found"),
  (405, "Method Not Allowed"),
  (406, "Not Acceptable"),
  (407, "Proxy Authentication Required"),
  (408, "Request Timeout"),
  (409, "Conflict"),
  (410, "Gone"),
  (411, "Length Required"),
  (412, "Precondition Failed"),
  (413, "Payload Too Large"),
  (414, "URI Too Long"),
  (415, "Unsupported Media Type"),
  (416, "Range Not Satisfiable"),
  (417, "Expectation Failed"),
  (421, "Misdirected Request"),
  (422, "Unprocessable Entity"),
  (423, "Locked"),
  (424, "Failed Dependency"),
  (426, "Upgrade Required"),
  (428, "Precondition Required"),
  (429, "Too Many Requests"),
  (431, "Request Header Fields Too Large"),
  (451, "Unavailable For Legal Reasons"),
  (500, "Internal Server Error"),
  (501, "Not Implemented"),
  (502, "Bad Gateway"),
  (503, "Service Unavailable"),
  (504, "Gateway Timeout"),
  (505, "HTTP Version Not Supported"),
  (506, "Variant Also Negotiates"),
  (507, "Insufficient Storage"),
  (508, "Loop Detected"),
  (510, "Not Extended"),
  (511, "Network Authentication Required")]

/-- `enum_string(HttpStatus)`, which terminates on a status that is not in the map. -/
def enumString (status : Nat) : Option (List Byte) :=
  (httpStatusMap.lookup status).map ascii

end ReactiveToolbox.Http
