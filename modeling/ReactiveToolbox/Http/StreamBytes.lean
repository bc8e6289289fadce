import ReactiveToolbox.Http.Stream

/-!
# The bytes of responses

While a response is written the storage of the buffer is what was there before
the write position, the text so far, and unused bytes.  A put extends the text;
the length of the body replaces spaces of the head and nothing else.
-/

namespace ReactiveToolbox.Http

open ReactiveToolbox.Io

/-! ## Decimal numbers -/

/-- A number in decimal. -/
def decimal (number : Nat) : List Byte :=
  (Nat.toDigits 10 number).map Char.toUInt8

theorem ascii_toString (number : Nat) : ascii (toString number) = decimal number := by
  unfold ascii decimal
  rw [Nat.toString_eq_ofList_toDigits, String.toList_ofList]

theorem digit_eq (digit : Nat) (small : digit < 10) :
    '0'.toUInt8 + digit.toUInt8 = (Nat.digitChar digit).toUInt8 := by
  have each : ∀ digit : Fin 10,
      '0'.toUInt8 + digit.val.toUInt8 = (Nat.digitChar digit.val).toUInt8 := by
    decide
  exact each ⟨digit, small⟩

theorem decimal_of_lt {number : Nat} (small : number < 10) :
    decimal number = ['0'.toUInt8 + (number % 10).toUInt8] := by
  unfold decimal
  rw [Nat.toDigits_of_lt_base small, Nat.mod_eq_of_lt small, digit_eq number small]
  rfl

theorem decimal_of_le {number : Nat} (large : 10 ≤ number) :
    decimal number = decimal (number / 10) ++ ['0'.toUInt8 + (number % 10).toUInt8] := by
  unfold decimal
  rw [Nat.toDigits_of_base_le (by decide) large, List.map_append,
    digit_eq _ (Nat.mod_lt number (by decide))]
  rfl

theorem length_decimal_pos (number : Nat) : 0 < (decimal number).length := by
  unfold decimal
  rw [List.length_map]
  exact Nat.length_toDigits_pos

/-! ## The stream buffer -/

namespace HttpBuf

/-- A response of which `text` has been written, behind the stored bytes `front`. -/
structure Holds (httpBuf : HttpBuf) (rpos : Nat) (front text : List Byte) : Prop where
  stored : ∃ back, httpBuf.buf.buf = front ++ text ++ back
  wpos : httpBuf.buf.wpos = front.length
  rpos : httpBuf.buf.rpos = rpos
  pcount : httpBuf.pcount = text.length

/-- The pointer of the stream buffer points to the beginning of the response. -/
def Pointed (httpBuf : HttpBuf) : Prop :=
  httpBuf.pbase = some ⟨httpBuf.allocation, httpBuf.buf.wpos⟩

section

variable {httpBuf : HttpBuf} {rpos : Nat} {front text : List Byte}

theorem Holds.within (holds : httpBuf.Holds rpos front text) :
    front.length + text.length ≤ httpBuf.buf.buf.length := by
  rcases holds.stored with ⟨back, stored⟩
  rw [stored, List.length_append, List.length_append]
  exact Nat.le_add_right _ _

theorem prepare_holds (holds : httpBuf.Holds rpos front text) (size : Nat) :
    (httpBuf.prepare (httpBuf.pcount + size)).Holds rpos front text ∧
      (httpBuf.prepare (httpBuf.pcount + size)).Pointed ∧
      front.length + text.length + size ≤
        (httpBuf.prepare (httpBuf.pcount + size)).buf.buf.length := by
  rcases holds.stored with ⟨back, stored⟩
  have wpos := holds.wpos
  have pcount := holds.pcount
  have within := holds.within
  by_cases short : httpBuf.buf.available < httpBuf.pcount + size
  · simp only [prepare, Buffer.prepare, Pointed, if_pos short]
    refine ⟨⟨⟨back ++ List.replicate (httpBuf.pcount + size - httpBuf.buf.available) 0, ?_⟩,
      wpos, holds.rpos, pcount⟩, trivial, ?_⟩
    · simp only [stored, List.append_assoc]
    · rw [List.length_append, List.length_replicate]
      unfold Buffer.available
      omega
  · simp only [prepare, Buffer.prepare, Pointed, if_neg short]
    refine ⟨⟨⟨back, stored⟩, wpos, holds.rpos, pcount⟩, trivial, ?_⟩
    unfold Buffer.available at short
    omega

/-- A write within the storage goes through, and it changes the written bytes only. -/
theorem write_eq (holds : httpBuf.Holds rpos front text) (pointed : httpBuf.Pointed)
    {offset : Nat} {bytes : List Byte}
    (room : front.length + offset + bytes.length ≤ httpBuf.buf.buf.length) :
    httpBuf.write offset bytes = some { httpBuf with
      buf := { httpBuf.buf with
        buf := httpBuf.buf.buf.take (front.length + offset) ++ bytes ++
          httpBuf.buf.buf.drop (front.length + offset + bytes.length) } } := by
  have wpos := holds.wpos
  unfold Pointed at pointed
  simp only [write, pointed, wpos]
  rw [if_pos ⟨trivial, room⟩]

/-- Bytes that are put into the prepared storage extend the text. -/
theorem write_text_holds (holds : httpBuf.Holds rpos front text) (pointed : httpBuf.Pointed)
    {s : List Byte} (room : front.length + text.length + s.length ≤ httpBuf.buf.buf.length) :
    ∃ next, (httpBuf.write httpBuf.pcount s).map
        (fun written => { written with pcount := written.pcount + s.length }) = some next ∧
      next.Holds rpos front (text ++ s) ∧ next.Pointed := by
  rcases holds.stored with ⟨back, stored⟩
  have pcount := holds.pcount
  rw [pcount, write_eq holds pointed room]
  refine ⟨_, rfl, ⟨⟨back.drop s.length, ?_⟩, holds.wpos, holds.rpos, ?_⟩, pointed⟩
  · have front_length : front.length + text.length = (front ++ text).length :=
      List.length_append.symm
    simp only [stored, front_length]
    rw [List.take_left, List.drop_length_add_append]
    simp only [List.append_assoc]
  · simp only [List.length_append]
    omega

theorem xsputn_holds (holds : httpBuf.Holds rpos front text) (s : List Byte) :
    ∃ next, httpBuf.xsputn s = some next ∧ next.Holds rpos front (text ++ s) ∧ next.Pointed := by
  rcases prepare_holds holds s.length with ⟨prepared, pointed, room⟩
  exact write_text_holds prepared pointed room

theorem write_byte_holds (holds : httpBuf.Holds rpos front text) (pointed : httpBuf.Pointed)
    {offset : Nat} (within : offset < text.length) (byte : Byte) :
    ∃ next, httpBuf.write offset [byte] = some next ∧
      next.Holds rpos front (text.take offset ++ byte :: text.drop (offset + 1)) ∧
      next.Pointed := by
  rcases holds.stored with ⟨back, stored⟩
  have room : front.length + offset + [byte].length ≤ httpBuf.buf.buf.length := by
    have stored_length := holds.within
    rw [List.length_singleton]
    omega
  rw [write_eq holds pointed room]
  refine ⟨_, rfl, ⟨⟨back, ?_⟩, holds.wpos, holds.rpos, ?_⟩, pointed⟩
  · simp only [stored, List.length_singleton, List.append_assoc]
    rw [List.take_length_add_append, Nat.add_assoc, List.drop_length_add_append,
      List.take_append_of_le_length (by omega), List.drop_append_of_le_length (by omega)]
    simp only [List.append_assoc, List.cons_append, List.nil_append]
  · have pcount := holds.pcount
    simp only [List.length_append, List.length_take, List.length_cons, List.length_drop]
    omega

end

/-- The digits replace as many bytes before the offset and nothing else. -/
theorem setContentLength_holds {httpBuf : HttpBuf} {rpos : Nat} {front text : List Byte}
    {pos len : Nat} (holds : httpBuf.Holds rpos front text) (pointed : httpBuf.Pointed)
    (within : pos ≤ text.length) (fits : (decimal len).length ≤ pos) :
    ∃ next, httpBuf.setContentLength pos len = some next ∧
      next.Holds rpos front
        (text.take (pos - (decimal len).length) ++ decimal len ++ text.drop pos) := by
  induction pos generalizing httpBuf text len with
  | zero =>
      have positive := length_decimal_pos len
      omega
  | succ it continued =>
      rcases write_byte_holds holds pointed within ('0'.toUInt8 + (len % 10).toUInt8) with
        ⟨written, writes, writtenHolds, writtenPointed⟩
      simp only [setContentLength, writes, Option.bind_some]
      by_cases more : 0 < len / 10
      · have large : 10 ≤ len := by omega
        rw [decimal_of_le large] at fits ⊢
        rw [List.length_append, List.length_singleton] at fits ⊢
        rw [if_pos more]
        have take_length : (text.take it).length = it := by
          rw [List.length_take]
          omega
        rcases continued writtenHolds writtenPointed
          (by simp only [List.length_append, take_length]; omega)
          (Nat.le_of_succ_le_succ fits) with ⟨next, sets, nextHolds⟩
        refine ⟨next, sets, ?_⟩
        have front_eq : (text.take it ++ ('0'.toUInt8 + (len % 10).toUInt8) ::
            text.drop (it + 1)).take (it - (decimal (len / 10)).length) =
              text.take (it + 1 - ((decimal (len / 10)).length + 1)) := by
          rw [List.take_append_of_le_length (by omega), List.take_take]
          congr 1
          omega
        have back_eq : (text.take it ++ ('0'.toUInt8 + (len % 10).toUInt8) ::
            text.drop (it + 1)).drop it =
              ('0'.toUInt8 + (len % 10).toUInt8) :: text.drop (it + 1) := by
          rw [List.drop_append_of_le_length (by omega), List.drop_of_length_le (by omega),
            List.nil_append]
        rw [front_eq, back_eq] at nextHolds
        simpa only [List.append_assoc, List.cons_append, List.nil_append] using nextHolds
      · have small : len < 10 := by omega
        rw [if_neg more]
        refine ⟨written, rfl, ?_⟩
        rw [decimal_of_lt small]
        simpa only [List.length_singleton, Nat.add_sub_cancel, List.append_assoc,
          List.cons_append, List.nil_append] using writtenHolds

theorem reset_holds {httpBuf : HttpBuf} (valid : httpBuf.buf.Valid) :
    httpBuf.reset.Holds httpBuf.buf.rpos (httpBuf.buf.buf.take httpBuf.buf.wpos) [] := by
  have stored := valid.stored
  refine ⟨⟨httpBuf.buf.buf.drop httpBuf.buf.wpos, ?_⟩, ?_, rfl, rfl⟩
  · rw [List.append_nil]
    exact (List.take_append_drop ..).symm
  · rw [List.length_take]
    exact (Nat.min_eq_left stored).symm

/-- Committing appends the text to what can be read. -/
theorem commit_holds {httpBuf : HttpBuf} {rpos : Nat} {front text : List Byte}
    (holds : httpBuf.Holds rpos front text) (ordered : rpos ≤ front.length) :
    httpBuf.commit.buf.Valid ∧ httpBuf.commit.buf.readable = front.drop rpos ++ text := by
  rcases holds.stored with ⟨back, stored⟩
  have wpos := holds.wpos
  have rpos_eq := holds.rpos
  have pcount := holds.pcount
  have length : (front ++ text).length = front.length + text.length := List.length_append
  refine ⟨⟨?_, ?_⟩, ?_⟩
  · simp only [commit, Buffer.commit]
    omega
  · simp only [commit, Buffer.commit, stored, List.length_append]
    omega
  · simp only [commit, Buffer.commit, Buffer.readable, Buffer.size, stored, wpos, rpos_eq, pcount]
    rw [List.drop_append_of_le_length (by omega), List.drop_append_of_le_length ordered,
      List.take_left']
    rw [List.length_append, List.length_drop]
    omega

end HttpBuf

/-! ## What a response is -/

namespace HttpStream

/-- The end of a line. -/
def crlf : List Byte :=
  ascii "\r\n"

/-- The header with the length of the body, flushed right over eleven columns. -/
def contentLengthLine (length : Nat) : List Byte :=
  let digits := ascii (toString length)
  ascii "Content-Length:" ++ List.replicate (11 - digits.length) ' '.toUInt8 ++ digits ++ crlf

/-- The bytes of a response with the given reason phrase. -/
def Response.bytes (response : Response) (reason : List Byte) : List Byte :=
  (ascii "HTTP/1.1 " ++ ascii (toString response.status) ++ ascii " " ++ reason ++ crlf) ++
    ((if response.noCache then ascii "Cache-Control: no-cache" ++ crlf else []) ++
      (ascii "Content-Type: " ++ response.contentType ++ crlf) ++
      contentLengthLine response.content.length ++ crlf) ++
    response.content

section

variable {stream : HttpStream} {rpos : Nat} {front text : List Byte}

theorem put_holds (holds : stream.buf.Holds rpos front text) (call : Put) :
    ∃ next, stream.put call = some next ∧ next.buf.Holds rpos front (text ++ call.bytes) ∧
      next.buf.Pointed ∧ next.cloff = stream.cloff ∧ next.hcount = stream.hcount := by
  have puts : ∃ next, stream.buf.xsputn call.bytes = some next ∧
      next.Holds rpos front (text ++ call.bytes) ∧ next.Pointed :=
    HttpBuf.xsputn_holds holds call.bytes
  rcases puts with ⟨next, succeeds, nextHolds, pointed⟩
  refine ⟨{ stream with buf := next }, ?_, nextHolds, pointed, rfl, rfl⟩
  cases call with
  | overflow c =>
      have overflows : stream.buf.overflow (some c) = some next := succeeds
      simp only [put, overflows, Option.map_some]
  | xsputn s =>
      have puts : stream.buf.xsputn s = some next := succeeds
      simp only [put, puts, Option.map_some]

theorem puts_holds (holds : stream.buf.Holds rpos front text) (calls : List Put)
    (ready : stream.buf.Pointed ∨ calls ≠ []) :
    ∃ next, stream.puts calls = some next ∧
      next.buf.Holds rpos front (text ++ calls.flatMap Put.bytes) ∧ next.buf.Pointed ∧
      next.cloff = stream.cloff ∧ next.hcount = stream.hcount := by
  induction calls generalizing stream text with
  | nil =>
      refine ⟨stream, rfl, ?_, ready.resolve_right (absurd rfl), rfl, rfl⟩
      rwa [List.flatMap_nil, List.append_nil]
  | cons call rest continued =>
      rcases put_holds holds call with ⟨middle, puts, middleHolds, middlePointed, cloff, hcount⟩
      rcases continued middleHolds (Or.inl middlePointed) with
        ⟨next, continues, nextHolds, nextPointed, nextCloff, nextHcount⟩
      refine ⟨next, ?_, ?_, nextPointed, nextCloff.trans cloff, nextHcount.trans hcount⟩
      · unfold HttpStream.puts at continues ⊢
        rw [List.foldlM_cons, puts]
        exact continues
      · rwa [List.flatMap_cons, ← List.append_assoc]

theorem insert_holds (holds : stream.buf.Holds rpos front text) (texts : List (List Byte))
    (ready : stream.buf.Pointed ∨ texts ≠ []) :
    ∃ next, stream.insert texts = some next ∧
      next.buf.Holds rpos front (text ++ texts.flatten) ∧ next.buf.Pointed ∧
      next.cloff = stream.cloff ∧ next.hcount = stream.hcount := by
  have flattened : (texts.map Put.xsputn).flatMap Put.bytes = texts.flatten := by
    rw [List.flatMap_map]
    exact List.flatMap_id
  have inserted := puts_holds holds (texts.map Put.xsputn)
    (ready.imp_right (mt List.map_eq_nil_iff.mp))
  rwa [flattened] at inserted

end

/-- The head of a response up to its place-holder, as the stream writes it. -/
def head (response : Response) (reason : List Byte) : List Byte :=
  ascii "HTTP/1.1 " ++ ascii (toString response.status) ++ ascii " " ++ reason ++
    (if response.noCache then ascii "\r\nCache-Control: no-cache" else []) ++
    ascii "\r\nContent-Type: " ++ response.contentType ++ ascii "\r\nContent-Length:"

theorem placeholder_eq :
    ascii "\r\nContent-Length:          0" =
      ascii "\r\nContent-Length:" ++ List.replicate 10 ' '.toUInt8 ++ ['0'.toUInt8] := by
  decide

/-- The head that the stream writes and the length that it writes over the place-holder. -/
theorem bytes_eq (response : Response) (reason : List Byte) :
    response.bytes reason =
      head response reason ++
        (List.replicate (11 - (decimal response.content.length).length) ' '.toUInt8 ++
          decimal response.content.length) ++ ascii "\r\n\r\n" ++ response.content := by
  have cache : ascii "\r\nCache-Control: no-cache" =
      crlf ++ ascii "Cache-Control: no-cache" := by decide
  have type : ascii "\r\nContent-Type: " = crlf ++ ascii "Content-Type: " := by decide
  have length : ascii "\r\nContent-Length:" = crlf ++ ascii "Content-Length:" := by decide
  have ends : ascii "\r\n\r\n" = crlf ++ crlf := by decide
  unfold Response.bytes contentLengthLine head
  rw [ascii_toString response.content.length, cache, type, length, ends]
  cases response.noCache <;>
    simp only [if_true, if_false, Bool.false_eq_true, List.append_assoc, List.nil_append]

/-- What `http_status` writes. -/
theorem httpStatus_holds {stream : HttpStream} (valid : stream.buf.buf.Valid)
    (response : Response) {reason : List Byte} (known : enumString response.status = some reason) :
    ∃ next, stream.httpStatus response.status (some response.contentType) response.noCache =
        some next ∧
      next.buf.Holds stream.buf.buf.rpos (stream.buf.buf.buf.take stream.buf.buf.wpos)
        (head response reason ++ (List.replicate 10 ' '.toUInt8 ++ ['0'.toUInt8]) ++
          ascii "\r\n\r\n") ∧
      next.buf.Pointed ∧ next.cloff = (head response reason).length + 11 ∧
      next.hcount = (head response reason).length + 11 + 4 := by
  have start : HttpBuf.Holds { stream with buf := stream.buf.reset }.buf _ _ _ :=
    HttpBuf.reset_holds valid
  rcases insert_holds start
    [ascii "HTTP/1.1 ", ascii (toString response.status), ascii " ", reason]
    (Or.inr (List.cons_ne_nil _ _)) with ⟨lined, lineInserted, lineHolds, linePointed, -, -⟩
  have cached : ∃ next, lined.insertCacheControl response.noCache = some next ∧
      next.buf.Holds stream.buf.buf.rpos (stream.buf.buf.buf.take stream.buf.buf.wpos)
        (ascii "HTTP/1.1 " ++ ascii (toString response.status) ++ ascii " " ++ reason ++
          if response.noCache then ascii "\r\nCache-Control: no-cache" else []) ∧
      next.buf.Pointed := by
    cases response.noCache with
    | true =>
        rcases insert_holds lineHolds [ascii "\r\nCache-Control: no-cache"]
          (Or.inl linePointed) with ⟨next, inserted, nextHolds, nextPointed, -, -⟩
        refine ⟨next, inserted, ?_, nextPointed⟩
        simpa using nextHolds
    | false =>
        refine ⟨lined, rfl, ?_, linePointed⟩
        simpa using lineHolds
  rcases cached with ⟨cached, cacheInserted, cacheHolds, cachePointed⟩
  rcases insert_holds cacheHolds [ascii "\r\nContent-Type: ", response.contentType,
    ascii "\r\nContent-Length:          0"] (Or.inl cachePointed) with
    ⟨typed, typeInserted, typeHolds, typePointed, -, -⟩
  have typeHolds : typed.buf.Holds stream.buf.buf.rpos
      (stream.buf.buf.buf.take stream.buf.buf.wpos)
      (head response reason ++ (List.replicate 10 ' '.toUInt8 ++ ['0'.toUInt8])) := by
    rw [placeholder_eq] at typeHolds
    simpa only [head, List.flatten_cons, List.flatten_nil, List.append_assoc,
      List.append_nil] using typeHolds
  have typeCount : typed.pcount = (head response reason).length + 11 := by
    refine typeHolds.pcount.trans ?_
    simp only [List.length_append, List.length_replicate, List.length_singleton]
  have marked : HttpBuf.Holds { typed with cloff := typed.pcount }.buf _ _ _ := typeHolds
  rcases insert_holds marked [ascii "\r\n\r\n"] (Or.inl typePointed) with
    ⟨ended, endInserted, endHolds, endPointed, endCloff, -⟩
  rw [List.flatten_singleton] at endHolds
  refine ⟨{ ended with hcount := ended.pcount }, ?_, endHolds, endPointed, ?_, ?_⟩
  · unfold httpStatus
    rw [known]
    simp only [Option.bind_eq_bind, Option.bind_some, lineInserted, cacheInserted,
      insertContentType, typeInserted, Option.map_some, endInserted]
  · exact endCloff.trans typeCount
  · have ends_length : (ascii "\r\n\r\n").length = 4 := by decide
    have endCount := endHolds.pcount
    rw [List.length_append, ← typeHolds.pcount, ends_length] at endCount
    exact endCount.trans (congrArg (· + 4) typeCount)

theorem length_decimal_le {number : Nat} (small : number < 10 ^ 10) :
    (decimal number).length ≤ 10 := by
  unfold decimal
  rw [List.length_map]
  exact (Nat.length_toDigits_le_iff (by decide) (by decide)).mpr small

/-- What is left of the place-holder before the digits. -/
theorem take_placeholder (before after : List Byte) {digits : Nat} (positive : 0 < digits)
    (fits : digits ≤ 10) :
    (before ++ (List.replicate 10 ' '.toUInt8 ++ ['0'.toUInt8]) ++ after).take
        (before.length + 11 - digits) =
      before ++ List.replicate (11 - digits) ' '.toUInt8 := by
  have split : before.length + 11 - digits = before.length + (11 - digits) := by omega
  have spaces : 11 - digits ≤ (List.replicate 10 ' '.toUInt8).length := by
    rw [List.length_replicate]
    omega
  rw [split, List.append_assoc, List.take_length_add_append, List.append_assoc,
    List.take_append_of_le_length spaces, List.take_replicate]
  congr 2
  omega

theorem drop_placeholder (before after : List Byte) :
    (before ++ (List.replicate 10 ' '.toUInt8 ++ ['0'.toUInt8]) ++ after).drop
        (before.length + 11) = after := by
  refine List.drop_left' ?_
  simp only [List.length_append, List.length_replicate, List.length_singleton]

/-- A response appends its bytes to what can be read. -/
theorem respond_appends {stream : HttpStream} (valid : stream.buf.buf.Valid)
    (response : Response) {reason : List Byte} (known : enumString response.status = some reason)
    (short : response.content.length < 10 ^ 10) :
    ∃ next, stream.respond response = some next ∧ next.buf.buf.Valid ∧
      next.readable = stream.readable ++ response.bytes reason := by
  rcases httpStatus_holds valid response known with
    ⟨headed, heads, headHolds, headPointed, headCloff, headHcount⟩
  rcases puts_holds headHolds response.body (Or.inl headPointed) with
    ⟨bodied, puts, bodyHolds, bodyPointed, bodyCloff, bodyHcount⟩
  have cloff := bodyCloff.trans headCloff
  have hcount := bodyHcount.trans headHcount
  have digits_pos := length_decimal_pos response.content.length
  have digits_le := length_decimal_le short
  have ends_length : (ascii "\r\n\r\n").length = 4 := by decide
  have content_length : bodied.pcount - bodied.hcount = response.content.length := by
    have pcount := bodyHolds.pcount
    simp only [List.length_append, List.length_replicate, List.length_singleton,
      ends_length] at pcount
    simp only [HttpStream.pcount, Response.content]
    omega
  have regrouped := bodyHolds
  rw [List.append_assoc (head response reason ++ _)] at regrouped
  rcases HttpBuf.setContentLength_holds regrouped bodyPointed
    (by simp only [List.length_append, List.length_replicate, List.length_singleton]; omega)
    (by omega : (decimal response.content.length).length ≤ (head response reason).length + 11)
    with ⟨patched, sets, patchedHolds⟩
  rw [take_placeholder _ _ digits_pos digits_le, drop_placeholder] at patchedHolds
  have ordered : stream.buf.buf.rpos ≤ (stream.buf.buf.buf.take stream.buf.buf.wpos).length := by
    rw [List.length_take, Nat.min_eq_left valid.stored]
    exact valid.ordered
  rcases HttpBuf.commit_holds patchedHolds ordered with ⟨committedValid, committed⟩
  refine ⟨{ bodied with buf := patched.commit }, ?_, committedValid, ?_⟩
  · have positive : 0 < bodied.cloff := by omega
    have patches : bodied.buf.setContentLength bodied.cloff (bodied.pcount - bodied.hcount) =
        some patched := by
      rw [cloff, content_length]
      exact sets
    simp only [respond, Option.bind_eq_bind, heads, Option.bind_some, puts, commit]
    rw [if_pos positive, patches, Option.map_some]
  · refine committed.trans ?_
    rw [bytes_eq, HttpStream.readable, Buffer.readable, Buffer.size, List.drop_take]
    simp only [List.append_assoc, Response.content]

/-- The bytes that an event appends to the buffer. -/
def Event.written : Event → List Byte
  | .respond response => response.bytes ((enumString response.status).getD [])
  | .consume _ => []

/-- The responses have known status codes and bodies of less than ten billion bytes. -/
def Event.Admissible : Event → Prop
  | .respond response =>
      (enumString response.status).isSome ∧ response.content.length < 10 ^ 10
  | .consume _ => True

theorem step_appends {stream : HttpStream} (valid : stream.buf.buf.Valid) (taken : List Byte)
    {event : Event} (admissible : event.Admissible) :
    ∃ next nextTaken, step (stream, taken) event = some (next, nextTaken) ∧
      next.buf.buf.Valid ∧
      nextTaken ++ next.readable = taken ++ stream.readable ++ event.written := by
  cases event with
  | respond response =>
      rcases admissible with ⟨known, short⟩
      rcases Option.isSome_iff_exists.mp known with ⟨reason, reason_eq⟩
      rcases respond_appends valid response reason_eq short with
        ⟨next, responds, nextValid, appended⟩
      refine ⟨next, taken, ?_, nextValid, ?_⟩
      · simp only [step, responds, Option.map_some]
      · simp only [appended, Event.written, reason_eq, Option.getD_some, List.append_assoc]
  | consume count =>
      have within : min count stream.buf.buf.size ≤ stream.buf.buf.size := Nat.min_le_right ..
      rcases Buffer.consume_valid valid within with ⟨nextValid, remaining⟩
      refine ⟨stream.consume count, _, rfl, nextValid, ?_⟩
      have taken_eq : stream.readable.take count =
          stream.readable.take (min count stream.buf.buf.size) := by
        rw [← Buffer.length_readable valid]
        exact List.take_eq_take_min ..
      simp only [Event.written, List.append_nil]
      rw [taken_eq, List.append_assoc]
      congr 1
      exact (congrArg _ remaining).trans (List.take_append_drop ..)

/-- From any valid buffer, with some bytes taken from it before. -/
theorem run_from_appends {stream : HttpStream} (valid : stream.buf.buf.Valid) (taken : List Byte)
    {events : List Event} (admissible : ∀ event ∈ events, event.Admissible) :
    ∃ final finalTaken, run (stream, taken) events = some (final, finalTaken) ∧
      finalTaken ++ final.readable =
        taken ++ stream.readable ++ events.flatMap Event.written := by
  induction events generalizing stream taken with
  | nil => exact ⟨stream, taken, rfl, (List.append_nil _).symm⟩
  | cons event rest continued =>
      rcases step_appends valid taken (admissible event List.mem_cons_self) with
        ⟨next, nextTaken, stepped, nextValid, appended⟩
      rcases continued nextValid nextTaken
        (fun other member => admissible other (List.mem_cons_of_mem _ member)) with
        ⟨final, finalTaken, ran, remaining⟩
      refine ⟨final, finalTaken, ?_, ?_⟩
      · rw [run, List.foldlM_cons, stepped]
        exact ran
      · rw [remaining, appended, List.flatMap_cons, List.append_assoc]

/--
Whatever is written and consumed, the bytes taken from the buffer and those still
in it are what was there at first and the bytes of the responses in turn.
-/
theorem run_appends (buf : Buffer) (valid : buf.Valid) (events : List Event)
    (admissible : ∀ event ∈ events, event.Admissible) :
    ∃ final taken, run (create buf, []) events = some (final, taken) ∧
      taken ++ final.readable = buf.readable ++ events.flatMap Event.written := by
  have start : (create buf).buf.buf.Valid := valid
  exact run_from_appends start [] admissible

theorem run_appends_twice :
    ∃ final taken,
      run (create .create, [])
          [.respond ⟨200, ascii "text/plain", true, [.xsputn (ascii "hello"), .overflow 33]⟩,
            .consume 30, .respond ⟨404, ascii "text/plain", false, []⟩] =
        some (final, taken) ∧
      taken ++ final.readable =
        [Event.respond ⟨200, ascii "text/plain", true, [.xsputn (ascii "hello"), .overflow 33]⟩,
          .consume 30, .respond ⟨404, ascii "text/plain", false, []⟩].flatMap Event.written := by
  refine run_appends .create Buffer.create_valid _ ?_
  intro event member
  rcases List.mem_cons.mp member with rfl | member
  · exact ⟨by decide, by decide⟩
  · rcases List.mem_cons.mp member with rfl | member
    · trivial
    · cases List.mem_singleton.mp member
      exact ⟨by decide, by decide⟩

end HttpStream

end ReactiveToolbox.Http
