import ReactiveToolbox.Http.StreamBytes

/-!
# The bytes of requests

`http_request` neither resets the stream buffer nor writes a single space before
the version.  Each request therefore goes behind as many unwritten bytes as the
requests before it were long, commits them together with its own text, and is a
byte longer than the request it stands for.
-/

namespace ReactiveToolbox.Http

open ReactiveToolbox.Io

/-! ## A stream buffer that has not been reset -/

namespace HttpBuf

variable {httpBuf : HttpBuf}

/-- The bytes behind the write position that are still counted become part of the text. -/
theorem prepare_pending (valid : httpBuf.buf.Valid) (size : Nat) :
    ∃ front gap,
      (httpBuf.prepare (httpBuf.pcount + size)).Holds httpBuf.buf.rpos front gap ∧
      (httpBuf.prepare (httpBuf.pcount + size)).Pointed ∧
      front.length + gap.length + size ≤
        (httpBuf.prepare (httpBuf.pcount + size)).buf.buf.length ∧
      front.drop httpBuf.buf.rpos = httpBuf.buf.readable ∧
      httpBuf.buf.rpos ≤ front.length := by
  have ordered := valid.ordered
  have preparedValid := Buffer.prepare_valid valid (httpBuf.pcount + size)
  have readable_eq := Buffer.readable_prepare valid (httpBuf.pcount + size)
  rcases Buffer.prepare_room httpBuf.buf valid (httpBuf.pcount + size) with ⟨enough, room⟩
  have positions : (httpBuf.buf.prepare (httpBuf.pcount + size)).1.wpos = httpBuf.buf.wpos ∧
      (httpBuf.buf.prepare (httpBuf.pcount + size)).1.rpos = httpBuf.buf.rpos := by
    unfold Buffer.prepare
    split <;> exact ⟨rfl, rfl⟩
  rcases positions with ⟨wpos, rpos⟩
  generalize prepared_eq : (httpBuf.buf.prepare (httpBuf.pcount + size)).1 = prepared at *
  have stored := preparedValid.stored
  have front_length : (prepared.buf.take prepared.wpos).length = prepared.wpos := by
    rw [List.length_take, Nat.min_eq_left stored]
  have gap_length :
      ((prepared.buf.drop prepared.wpos).take httpBuf.pcount).length = httpBuf.pcount := by
    rw [List.length_take, List.length_drop]
    omega
  refine ⟨prepared.buf.take prepared.wpos,
    (prepared.buf.drop prepared.wpos).take httpBuf.pcount, ⟨⟨?_, ?_⟩, ?_, ?_, ?_⟩, ?_, ?_, ?_, ?_⟩
  · exact (prepared.buf.drop prepared.wpos).drop httpBuf.pcount
  · rw [List.append_assoc, List.take_append_drop, List.take_append_drop]
    simp only [prepare, prepared_eq]
  · simp only [prepare, prepared_eq]
    exact front_length.symm
  · simp only [prepare, prepared_eq]
    exact rpos
  · exact gap_length.symm
  · simp only [Pointed, prepare, prepared_eq]
    rw [wpos]
  · simp only [prepare, prepared_eq]
    omega
  · rw [← readable_eq, List.drop_take, Buffer.readable, Buffer.size, rpos]
  · omega

theorem xsputn_pending (valid : httpBuf.buf.Valid) (s : List Byte) :
    ∃ front gap next, httpBuf.xsputn s = some next ∧
      next.Holds httpBuf.buf.rpos front (gap ++ s) ∧ next.Pointed ∧
      gap.length = httpBuf.pcount ∧ front.drop httpBuf.buf.rpos = httpBuf.buf.readable ∧
      httpBuf.buf.rpos ≤ front.length := by
  rcases prepare_pending valid s.length with
    ⟨front, gap, prepared, pointed, room, readable, ordered⟩
  rcases write_text_holds prepared pointed room with ⟨next, writes, nextHolds, nextPointed⟩
  exact ⟨front, gap, next, writes, nextHolds, nextPointed, prepared.pcount.symm, readable, ordered⟩

end HttpBuf

namespace HttpStream

/-! ## What a request is -/

/-- The line of a header, with no blank behind the colon. -/
def headerLine (header : List Byte × List Byte) : List Byte :=
  header.1 ++ ascii ":" ++ header.2 ++ crlf

/-- A well-formed request: its line, its headers and the empty line. -/
def Request.bytes (request : Request) : List Byte :=
  request.method.enumString ++ ascii " " ++ request.url ++ ascii " " ++ ascii "HTTP/1.1" ++ crlf ++
    (request.headers.getD []).flatMap headerLine ++ crlf

/-- The text that `http_request` streams. -/
def Request.text (request : Request) : List Byte :=
  request.method.enumString ++ ascii " " ++ request.url ++ ascii " " ++ ascii " HTTP/1.1" ++ crlf ++
    (request.headers.getD []).flatMap headerLine ++ crlf

theorem Request.length_text (request : Request) :
    request.text.length = request.bytes.length + 1 := by
  have versions : (ascii " HTTP/1.1").length = (ascii "HTTP/1.1").length + 1 := by decide
  simp only [text, bytes, List.length_append, versions]
  omega

/-! ## A request is written -/

variable {stream : HttpStream}

theorem put_pending (valid : stream.buf.buf.Valid) (s : List Byte) :
    ∃ front gap next, stream.put (.xsputn s) = some next ∧
      next.buf.Holds stream.buf.buf.rpos front (gap ++ s) ∧ next.buf.Pointed ∧
      next.cloff = stream.cloff ∧ gap.length = stream.pcount ∧
      front.drop stream.buf.buf.rpos = stream.readable ∧ stream.buf.buf.rpos ≤ front.length := by
  rcases HttpBuf.xsputn_pending valid s with
    ⟨front, gap, next, puts, holds, pointed, counted, readable, ordered⟩
  refine ⟨front, gap, { stream with buf := next }, ?_, holds, pointed, rfl, counted, readable,
    ordered⟩
  simp only [put, puts, Option.map_some]

/-- The first call of a request is made on a buffer that has not been reset. -/
theorem insert_pending (valid : stream.buf.buf.Valid) (first : List Byte)
    (rest : List (List Byte)) :
    ∃ front gap next, stream.insert (first :: rest) = some next ∧
      next.buf.Holds stream.buf.buf.rpos front (gap ++ (first :: rest).flatten) ∧
      next.buf.Pointed ∧ next.cloff = stream.cloff ∧ gap.length = stream.pcount ∧
      front.drop stream.buf.buf.rpos = stream.readable ∧ stream.buf.buf.rpos ≤ front.length := by
  rcases put_pending valid first with
    ⟨front, gap, middle, puts, middleHolds, middlePointed, middleCloff, described⟩
  rcases insert_holds middleHolds rest (Or.inl middlePointed) with
    ⟨next, inserts, holds, pointed, cloff, -⟩
  refine ⟨front, gap, next, ?_, ?_, pointed, cloff.trans middleCloff, described⟩
  · simp only [insert, List.map_cons, HttpStream.puts, List.foldlM_cons, puts]
    exact inserts
  · rwa [List.flatten_cons, ← List.append_assoc]

theorem insertHeaders_holds {rpos : Nat} {front text : List Byte}
    (holds : stream.buf.Holds rpos front text) (pointed : stream.buf.Pointed)
    (headers : List (List Byte × List Byte)) :
    ∃ next, headers.foldlM (fun stream header =>
        stream.insert [header.1, ascii ":", header.2, ascii "\r\n"]) stream = some next ∧
      next.buf.Holds rpos front (text ++ headers.flatMap headerLine) ∧ next.buf.Pointed ∧
      next.cloff = stream.cloff := by
  induction headers generalizing stream text with
  | nil =>
      refine ⟨stream, rfl, ?_, pointed, rfl⟩
      rwa [List.flatMap_nil, List.append_nil]
  | cons header rest continued =>
      rcases insert_holds holds [header.1, ascii ":", header.2, ascii "\r\n"] (Or.inl pointed) with
        ⟨middle, inserts, middleHolds, middlePointed, middleCloff, -⟩
      have line : [header.1, ascii ":", header.2, ascii "\r\n"].flatten = headerLine header := by
        simp only [List.flatten_cons, List.flatten_nil, List.append_nil, List.append_assoc,
          headerLine, crlf]
      rw [line] at middleHolds
      rcases continued middleHolds middlePointed with
        ⟨next, continues, nextHolds, nextPointed, cloff⟩
      refine ⟨next, ?_, ?_, nextPointed, cloff.trans middleCloff⟩
      · rw [List.foldlM_cons, inserts]
        exact continues
      · rwa [List.flatMap_cons, ← List.append_assoc]

/-- Both calls stream the text of the request behind what is still counted. -/
theorem writeRequest_holds (valid : stream.buf.buf.Valid) (request : Request) :
    ∃ front gap next, stream.writeRequest request = some next ∧
      next.buf.Holds stream.buf.buf.rpos front (gap ++ request.text) ∧
      next.cloff = stream.cloff ∧ gap.length = stream.pcount ∧
      front.drop stream.buf.buf.rpos = stream.readable ∧ stream.buf.buf.rpos ≤ front.length := by
  rcases request with ⟨method, url, headers⟩
  have version : ascii " HTTP/1.1\r\n" = ascii " HTTP/1.1" ++ crlf := by decide
  cases headers with
  | none =>
      rcases insert_pending valid method.enumString
        [ascii " ", url, ascii " ", ascii " HTTP/1.1\r\n\r\n"] with
        ⟨front, gap, next, inserts, holds, -, described⟩
      refine ⟨front, gap, next, inserts, ?_, described⟩
      have ends : ascii " HTTP/1.1\r\n\r\n" = ascii " HTTP/1.1" ++ crlf ++ crlf := by decide
      rw [ends] at holds
      simpa only [Request.text, List.flatten_cons, List.flatten_nil, List.append_nil,
        List.append_assoc, Option.getD_none, List.flatMap_nil, List.nil_append] using holds
  | some headers =>
      rcases insert_pending valid method.enumString
        [ascii " ", url, ascii " ", ascii " HTTP/1.1\r\n"] with
        ⟨front, gap, lined, lineInserted, lineHolds, linePointed, lineCloff, described⟩
      rcases insertHeaders_holds lineHolds linePointed headers with
        ⟨headed, headInserted, headHolds, headPointed, headCloff⟩
      rcases insert_holds headHolds [ascii "\r\n"] (Or.inl headPointed) with
        ⟨next, inserts, holds, -, cloff, -⟩
      refine ⟨front, gap, next, ?_, ?_, (cloff.trans headCloff).trans lineCloff, described⟩
      · simp only [writeRequest, httpRequestWith, Option.bind_eq_bind, lineInserted,
          Option.bind_some, headInserted, inserts]
      · rw [version] at holds
        simpa only [Request.text, List.flatten_cons, List.flatten_nil, List.append_nil,
          List.append_assoc, Option.getD_some, crlf] using holds

/-- A request commits as many unwritten bytes as are still counted, and then its text. -/
theorem request_appends (valid : stream.buf.buf.Valid) (unmarked : stream.cloff = 0)
    (request : Request) :
    ∃ gap next, stream.request request = some next ∧ next.buf.buf.Valid ∧ next.cloff = 0 ∧
      gap.length = stream.pcount ∧
      next.pcount = stream.pcount + request.text.length ∧
      next.readable = stream.readable ++ gap ++ request.text := by
  rcases writeRequest_holds valid request with
    ⟨front, gap, written, writes, holds, cloff, counted, readable, ordered⟩
  rcases HttpBuf.commit_holds holds ordered with ⟨committedValid, committed⟩
  have unpatched : ¬0 < written.cloff := by
    rw [cloff, unmarked]
    exact Nat.lt_irrefl 0
  refine ⟨gap, { written with buf := written.buf.commit }, ?_, committedValid,
    cloff.trans unmarked, counted, ?_, ?_⟩
  · simp only [HttpStream.request, Option.bind_eq_bind, writes, Option.bind_some, commit]
    rw [if_neg unpatched, Option.map_some]
  · have pcount := holds.pcount
    rw [List.length_append, counted] at pcount
    exact pcount
  · rw [← readable, List.append_assoc]
    exact committed

/-! ## Sequences of requests -/

/-- The bytes of the request that an event stands for. -/
def ClientEvent.written : ClientEvent → List Byte
  | .request message => message.bytes
  | .consume _ => []

/-- The event begins and commits a request. -/
def ClientEvent.isRequest : ClientEvent → Bool
  | .request _ => true
  | .consume _ => false

/-- An event appends what it should, or more when it is a request. -/
theorem clientStep_appends (valid : stream.buf.buf.Valid) (unmarked : stream.cloff = 0)
    (taken : List Byte) (event : ClientEvent) :
    ∃ appended next nextTaken, clientStep (stream, taken) event = some (next, nextTaken) ∧
      next.buf.buf.Valid ∧ next.cloff = 0 ∧
      nextTaken ++ next.readable = taken ++ stream.readable ++ appended ∧
      (if event.isRequest then event.written.length < appended.length
        else appended = event.written) := by
  cases event with
  | request message =>
      rcases request_appends valid unmarked message with
        ⟨gap, next, requests, nextValid, nextUnmarked, -, -, appended⟩
      refine ⟨gap ++ message.text, next, taken, ?_, nextValid, nextUnmarked, ?_, ?_⟩
      · simp only [clientStep, requests, Option.map_some]
      · rw [appended]
        simp only [List.append_assoc]
      · have longer := message.length_text
        simp only [ClientEvent.isRequest, ClientEvent.written, if_true, List.length_append]
        omega
  | consume count =>
      have admissible : Event.Admissible (.consume count) := trivial
      rcases step_appends valid taken admissible with
        ⟨next, nextTaken, stepped, nextValid, appended⟩
      cases stepped
      refine ⟨[], _, _, rfl, nextValid, unmarked, appended, ?_⟩
      simp only [ClientEvent.isRequest, ClientEvent.written, Bool.false_eq_true, if_false]

/-- A run appends what it should exactly where it makes no request, and else more. -/
theorem clientRun_appends (valid : stream.buf.buf.Valid) (unmarked : stream.cloff = 0)
    (taken : List Byte) (events : List ClientEvent) :
    ∃ appended final finalTaken, clientRun (stream, taken) events = some (final, finalTaken) ∧
      finalTaken ++ final.readable = taken ++ stream.readable ++ appended ∧
      (if events.any ClientEvent.isRequest
        then (events.flatMap ClientEvent.written).length < appended.length
        else appended = events.flatMap ClientEvent.written) := by
  induction events generalizing stream taken with
  | nil => exact ⟨[], stream, taken, rfl, (List.append_nil _).symm, rfl⟩
  | cons event rest continued =>
      rcases clientStep_appends valid unmarked taken event with
        ⟨head, next, nextTaken, stepped, nextValid, nextUnmarked, headAppended, headLength⟩
      rcases continued nextValid nextUnmarked nextTaken with
        ⟨tail, final, finalTaken, ran, tailAppended, tailLength⟩
      refine ⟨head ++ tail, final, finalTaken, ?_, ?_, ?_⟩
      · rw [clientRun, List.foldlM_cons, stepped]
        exact ran
      · rw [tailAppended, headAppended, List.append_assoc]
      · rw [List.flatMap_cons, List.any_cons]
        cases first : event.isRequest with
        | true =>
            rw [first, if_pos rfl] at headLength
            have tailLeast : (rest.flatMap ClientEvent.written).length ≤ tail.length := by
              split at tailLength
              · exact Nat.le_of_lt tailLength
              · rw [tailLength]
            rw [Bool.true_or, if_pos rfl, List.length_append, List.length_append]
            exact Nat.add_lt_add_of_lt_of_le headLength tailLeast
        | false =>
            rw [first, if_neg Bool.false_ne_true] at headLength
            rw [Bool.false_or, headLength]
            split at tailLength
            · rename_i more
              rw [if_pos more, List.length_append, List.length_append]
              exact Nat.add_lt_add_left tailLength _
            · rename_i none
              rw [if_neg none, tailLength]

/--
Whatever is requested and consumed, the bytes taken from the buffer and those still
in it are what was there at first and the requests in turn, exactly if nothing is
requested.
-/
theorem clientRun_appends_requests_iff (buf : Buffer) (valid : buf.Valid)
    (events : List ClientEvent) :
    (∃ final taken, clientRun (create buf, []) events = some (final, taken) ∧
      taken ++ final.readable = buf.readable ++ events.flatMap ClientEvent.written) ↔
      ∀ request, .request request ∉ events := by
  have start : (create buf).buf.buf.Valid := valid
  rcases clientRun_appends start rfl [] events with
    ⟨appended, final, finalTaken, ran, described, length⟩
  have contains : events.any ClientEvent.isRequest = true ↔
      ∃ request, .request request ∈ events := by
    rw [List.any_eq_true]
    constructor
    · rintro ⟨event, member, isRequest⟩
      cases event with
      | request message => exact ⟨message, member⟩
      | consume count => cases isRequest
    · rintro ⟨request, member⟩
      exact ⟨_, member, rfl⟩
  constructor
  · rintro ⟨other, otherTaken, otherRan, expected⟩ request member
    cases ran.symm.trans otherRan
    rw [if_pos (contains.mpr ⟨request, member⟩)] at length
    have same := List.append_cancel_left (described.symm.trans expected)
    rw [same] at length
    exact Nat.lt_irrefl _ length
  · intro none
    have noRequest : ¬events.any ClientEvent.isRequest = true := by
      intro some
      rcases contains.mp some with ⟨request, member⟩
      exact none request member
    rw [if_neg noRequest] at length
    rw [length] at described
    exact ⟨final, finalTaken, ran, described⟩

theorem clientRun_appends_requests_iff_get :
    ¬∃ final taken,
      clientRun (create .create, []) [.request ⟨.get, ascii "/", none⟩, .consume 5] =
        some (final, taken) ∧
      taken ++ final.readable = Buffer.create.readable ++
        [ClientEvent.request ⟨.get, ascii "/", none⟩, .consume 5].flatMap
          ClientEvent.written := by
  intro appends
  exact (clientRun_appends_requests_iff .create Buffer.create_valid _).mp appends _
    List.mem_cons_self

/-- Two requests: there are two spaces before each version, and unwritten bytes between them. -/
theorem clientRun_twice_sends_gap :
    (clientRun (create .create, [])
        [.request ⟨.get, ascii "/", none⟩, .request ⟨.get, ascii "/", none⟩]).map
          (fun session => session.2 ++ session.1.readable) =
      some (ascii "GET /  HTTP/1.1\r\n\r\n" ++ List.replicate 19 0 ++
        ascii "GET /  HTTP/1.1\r\n\r\n") ∧
    [ClientEvent.request ⟨.get, ascii "/", none⟩,
        .request ⟨.get, ascii "/", none⟩].flatMap ClientEvent.written =
      ascii "GET / HTTP/1.1\r\n\r\n" ++ ascii "GET / HTTP/1.1\r\n\r\n" ∧
    ¬∃ final taken,
      clientRun (create .create, [])
          [.request ⟨.get, ascii "/", none⟩, .request ⟨.get, ascii "/", none⟩] =
        some (final, taken) ∧
      taken ++ final.readable = Buffer.create.readable ++
        [ClientEvent.request ⟨.get, ascii "/", none⟩,
          .request ⟨.get, ascii "/", none⟩].flatMap ClientEvent.written := by
  have sent : (clientRun (create .create, [])
      [.request ⟨.get, ascii "/", none⟩, .request ⟨.get, ascii "/", none⟩]).map
        (fun session => session.2 ++ session.1.readable) =
      some (ascii "GET /  HTTP/1.1\r\n\r\n" ++ List.replicate 19 0 ++
        ascii "GET /  HTTP/1.1\r\n\r\n") := by
    decide +kernel
  have expected : [ClientEvent.request ⟨.get, ascii "/", none⟩,
      .request ⟨.get, ascii "/", none⟩].flatMap ClientEvent.written =
        ascii "GET / HTTP/1.1\r\n\r\n" ++ ascii "GET / HTTP/1.1\r\n\r\n" := by
    decide +kernel
  refine ⟨sent, expected, ?_⟩
  rintro ⟨final, taken, ran, appended⟩
  rw [ran, Option.map_some, appended, expected] at sent
  exact absurd sent (by decide +kernel)

end HttpStream

end ReactiveToolbox.Http
