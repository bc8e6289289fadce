import Mathlib.Algebra.Ring.Nat
import ReactiveToolbox.Http.Types
import ReactiveToolbox.Io.Buffer

/-!
# The response stream

`HttpStream` formats a response into the prepared region of a `Buffer`, behind
the committed bytes.  Each write prepares the region anew and remembers where it
begins, since the buffer may have moved; the length of the body is written over
its place-holder when the response is committed.

A pointer into the storage of the buffer is an offset together with the
allocation it points into.  Every growth of the storage is taken as a new
allocation, so that a pointer kept across it is not valid any more.
-/

namespace ReactiveToolbox.Http

open ReactiveToolbox.Io

/-- A pointer into the storage of a buffer. -/
structure Pointer where
  allocation : Nat
  offset : Nat
  deriving DecidableEq

/-- `HttpBuf`, with the buffer it refers to and the allocation of the buffer's storage. -/
structure HttpBuf where
  buf : Buffer
  allocation : Nat
  pbase : Option Pointer
  pcount : Nat
  deriving DecidableEq

namespace HttpBuf

/-- `HttpBuf`, with nothing prepared. -/
def create (buf : Buffer) : HttpBuf where
  buf := buf
  allocation := 0
  pbase := none
  pcount := 0

/-- `HttpBuf::reset`. -/
def reset (httpBuf : HttpBuf) : HttpBuf :=
  { httpBuf with
    pbase := none
    pcount := 0 }

/-- `pbase_ = buffer_cast<char*>(buf_.prepare(size))`. -/
def prepare (httpBuf : HttpBuf) (size : Nat) : HttpBuf :=
  let allocation :=
    if httpBuf.buf.available < size then httpBuf.allocation + 1 else httpBuf.allocation
  { httpBuf with
    buf := (httpBuf.buf.prepare size).1
    allocation := allocation
    pbase := some ⟨allocation, httpBuf.buf.wpos⟩ }

/--
A write through `pbase_`, at an offset from it; `none` if the pointer is not valid
or the write leaves the storage.
-/
def write (httpBuf : HttpBuf) (offset : Nat) (bytes : List Byte) : Option HttpBuf :=
  match httpBuf.pbase with
  | none => none
  | some pbase =>
      let storage := httpBuf.buf.buf
      let start := pbase.offset + offset
      if pbase.allocation = httpBuf.allocation ∧ start + bytes.length ≤ storage.length then
        some { httpBuf with
          buf := { httpBuf.buf with
            buf := storage.take start ++ bytes ++ storage.drop (start + bytes.length) } }
      else none

/-- `HttpBuf::overflow`; `none` stands for the end of file. -/
def overflow (httpBuf : HttpBuf) (c : Option Byte) : Option HttpBuf :=
  match c with
  | none => some httpBuf
  | some c =>
      let prepared := httpBuf.prepare (httpBuf.pcount + 1)
      (prepared.write prepared.pcount [c]).map fun written =>
        { written with pcount := written.pcount + 1 }

/-- `HttpBuf::xsputn`. -/
def xsputn (httpBuf : HttpBuf) (s : List Byte) : Option HttpBuf :=
  let prepared := httpBuf.prepare (httpBuf.pcount + s.length)
  (prepared.write prepared.pcount s).map fun written =>
    { written with pcount := written.pcount + s.length }

/--
`HttpBuf::set_content_length`: the digits are written from the last one on; `none`
when they reach beyond the beginning of the response.
-/
def setContentLength (httpBuf : HttpBuf) (pos len : Nat) : Option HttpBuf :=
  match pos with
  | 0 => none
  | it + 1 =>
      (httpBuf.write it ['0'.toUInt8 + (len % 10).toUInt8]).bind fun written =>
        if 0 < len / 10 then written.setContentLength it (len / 10) else some written

/-- `HttpBuf::commit`. -/
def commit (httpBuf : HttpBuf) : HttpBuf :=
  { httpBuf with buf := httpBuf.buf.commit httpBuf.pcount }

end HttpBuf

/-- `HttpStream`. -/
structure HttpStream where
  buf : HttpBuf
  cloff : Nat
  hcount : Nat
  deriving DecidableEq

namespace HttpStream

/-- `HttpStream`, with no response begun. -/
def create (buf : Buffer) : HttpStream where
  buf := .create buf
  cloff := 0
  hcount := 0

/-- A call of the stream buffer that puts bytes. -/
inductive Put where
  | overflow (c : Byte)
  | xsputn (s : List Byte)
  deriving DecidableEq

/-- The bytes that a call puts. -/
def Put.bytes : Put → List Byte
  | .overflow c => [c]
  | .xsputn s => s

/-- A call of the stream buffer, which counts what it puts. -/
def put (stream : HttpStream) (call : Put) : Option HttpStream :=
  let buf :=
    match call with
    | .overflow c => stream.buf.overflow (some c)
    | .xsputn s => stream.buf.xsputn s
  buf.map fun buf => { stream with buf := buf }

/-- Some calls of the stream buffer, one after another. -/
def puts (stream : HttpStream) (calls : List Put) : Option HttpStream :=
  calls.foldlM put stream

/-- `HttpStream::pcount`. -/
def pcount (stream : HttpStream) : Nat :=
  stream.buf.pcount

/-- Texts streamed one after the other with the insertion operator. -/
def insert (stream : HttpStream) (texts : List (List Byte)) : Option HttpStream :=
  stream.puts (texts.map .xsputn)

/-- The cache header of `http_status`. -/
def insertCacheControl (stream : HttpStream) (noCache : Bool) : Option HttpStream :=
  if noCache then stream.insert [ascii "\r\nCache-Control: no-cache"] else some stream

/-- The content headers of `http_status`, with ten spaces for the length and the place behind it. -/
def insertContentType (stream : HttpStream) (contentType : Option (List Byte)) :
    Option HttpStream :=
  match contentType with
  | some contentType =>
      (stream.insert [ascii "\r\nContent-Type: ", contentType,
        ascii "\r\nContent-Length:          0"]).map fun stream =>
          { stream with cloff := stream.pcount }
  | none => some { stream with cloff := 0 }

/-- `HttpStream::http_status`; `none` also when `enum_string` terminates. -/
def httpStatus (stream : HttpStream) (status : Nat) (contentType : Option (List Byte))
    (noCache : Bool) : Option HttpStream := do
  let reason ← enumString status
  let cleared : HttpStream := { stream with buf := stream.buf.reset }
  let lined ← cleared.insert [ascii "HTTP/1.1 ", ascii (toString status), ascii " ", reason]
  let cached ← lined.insertCacheControl noCache
  let typed ← cached.insertContentType contentType
  let ended ← typed.insert [ascii "\r\n\r\n"]
  some { ended with hcount := ended.pcount }

/-- `HttpStream::commit`. -/
def commit (stream : HttpStream) : Option HttpStream :=
  let patched :=
    if 0 < stream.cloff then
      stream.buf.setContentLength stream.cloff (stream.pcount - stream.hcount)
    else some stream.buf
  patched.map fun buf => { stream with buf := buf.commit }

/-- `HttpStream::http_request` without headers; there is a space before the version as well. -/
def httpRequest (stream : HttpStream) (method : HttpMethod) (url : List Byte) :
    Option HttpStream :=
  stream.insert [method.enumString, ascii " ", url, ascii " ", ascii " HTTP/1.1\r\n\r\n"]

/-- `HttpStream::http_request` with headers. -/
def httpRequestWith (stream : HttpStream) (method : HttpMethod) (url : List Byte)
    (headers : List (List Byte × List Byte)) : Option HttpStream := do
  let lined ← stream.insert
    [method.enumString, ascii " ", url, ascii " ", ascii " HTTP/1.1\r\n"]
  let headed ← headers.foldlM (fun stream header =>
    stream.insert [header.1, ascii ":", header.2, ascii "\r\n"]) lined
  headed.insert [ascii "\r\n"]

/-! ## Sequences of responses -/

/-- A response as it is written: its head, and the calls that put its body. -/
structure Response where
  status : Nat
  contentType : List Byte
  noCache : Bool
  body : List Put
  deriving DecidableEq

/-- The bytes of a response's body. -/
def Response.content (response : Response) : List Byte :=
  response.body.flatMap Put.bytes

/-- A response, from its status line to `commit`. -/
def respond (stream : HttpStream) (response : Response) : Option HttpStream := do
  let stream ← stream.httpStatus response.status (some response.contentType) response.noCache
  let stream ← stream.puts response.body
  stream.commit

/-- What happens to a stream and its buffer: a response, or up to `count` bytes are read. -/
inductive Event where
  | respond (response : Response)
  | consume (count : Nat)
  deriving DecidableEq

/-- The bytes of the buffer that are committed and not yet consumed. -/
def readable (stream : HttpStream) : List Byte :=
  stream.buf.buf.readable

/-- The reader of the buffer takes what there is, up to `count` bytes. -/
def consume (stream : HttpStream) (count : Nat) : HttpStream :=
  { stream with
    buf := { stream.buf with
      buf := stream.buf.buf.consume (min count stream.buf.buf.size) } }

/-- One event, with the bytes taken from the buffer so far. -/
def step (session : HttpStream × List Byte) : Event → Option (HttpStream × List Byte)
  | .respond response => (session.1.respond response).map fun stream => (stream, session.2)
  | .consume count =>
      some (session.1.consume count, session.2 ++ session.1.readable.take count)

/-- What some events of a server leave. -/
def run (session : HttpStream × List Byte) (events : List Event) :
    Option (HttpStream × List Byte) :=
  events.foldlM step session

/-! ## Sequences of requests -/

/-- A request as it is written; `headers` is `none` for the call that takes none. -/
structure Request where
  method : HttpMethod
  url : List Byte
  headers : Option (List (List Byte × List Byte))
  deriving DecidableEq

/-- The call of `http_request` that a request is written with. -/
def writeRequest (stream : HttpStream) (request : Request) : Option HttpStream :=
  match request.headers with
  | none => stream.httpRequest request.method request.url
  | some headers => stream.httpRequestWith request.method request.url headers

/-- A request that is written and committed. -/
def request (stream : HttpStream) (request : Request) : Option HttpStream := do
  let stream ← stream.writeRequest request
  stream.commit

/-- What happens to a client's stream: a request, or up to `count` bytes are read. -/
inductive ClientEvent where
  | request (request : Request)
  | consume (count : Nat)
  deriving DecidableEq

/-- One event, with the bytes taken from the buffer so far. -/
def clientStep (session : HttpStream × List Byte) :
    ClientEvent → Option (HttpStream × List Byte)
  | .request request => (session.1.request request).map fun stream => (stream, session.2)
  | .consume count =>
      some (session.1.consume count, session.2 ++ session.1.readable.take count)

/-- What some events of a client leave. -/
def clientRun (session : HttpStream × List Byte) (events : List ClientEvent) :
    Option (HttpStream × List Byte) :=
  events.foldlM clientStep session

end HttpStream

end ReactiveToolbox.Http
