import ReactiveToolbox.Http.ParserMarks

/-!
# What the HTTP parser calls back for

The callbacks of a message follow one another in an order, which the phases of a message
say.  A body of which the length is known, and a chunk, is called back for with as many
characters as have been announced.  Each state of the parser is in a phase of its own, and
what it does with a character leads to the phase of the next.
-/

namespace ReactiveToolbox.Http

open ReactiveToolbox.Io

/-- Where a message is, as far as its callbacks tell. -/
inductive MessagePhase where
  | idle
  /-- No header has been begun, of the message or of the trailer behind its chunks. -/
  | head (trailing : Bool)
  | field (trailing : Bool)
  | value (trailing : Bool)
  /-- A body, and how much of it has not been called back for. -/
  | length (left : Nat)
  | untilEof
  | chunks
  | chunk (left : Nat)
  | ended
  deriving DecidableEq

namespace MessagePhase

/-- What the headers announce. -/
def afterHead (fields : ParserFields) : MessagePhase :=
  if fields.upgrade ∧ (fields.method = .connect ∨ fields.flags.skipbody ∨ !fields.hasBody) then
    .ended
  else if fields.flags.skipbody then .ended
  else if fields.flags.chunked then .chunks
  else if fields.contentLength ≠ ullongMax then .length fields.contentLength.toNat
  else if fields.messageNeedsEof then .untilEof
  else .ended

/-- A callback without text. -/
def notify : MessagePhase → Notice → ParserFields → Option MessagePhase
  | .idle, .messageBegin, _ => some (.head false)
  | .chunks, .chunkHeader, fields =>
      some
        (if fields.contentLength = 0 then .head true
        else .chunk fields.contentLength.toNat)
  | .chunk 0, .chunkComplete, _ => some .chunks
  | .head true, .chunkComplete, _ => some .ended
  | .value true, .chunkComplete, _ => some .ended
  | .length 0, .messageComplete, _ => some .idle
  | .untilEof, .messageComplete, _ => some .untilEof
  | .ended, .messageComplete, _ => some .idle
  | _, _, _ => none

/-- The callback behind the headers, with the fields that the parser goes on with. -/
def headersComplete : MessagePhase → ParserFields → Option MessagePhase
  | .head false, fields => some (afterHead fields)
  | .value false, fields => some (afterHead fields)
  | _, _ => none

/-- A callback for as many characters of a text. -/
def data : MessagePhase → Piece → Nat → Option MessagePhase
  | .head false, .url, _ => some (.head false)
  | .head false, .status, _ => some (.head false)
  | .head trailing, .headerField, _ => some (.field trailing)
  | .field trailing, .headerField, _ => some (.field trailing)
  | .value trailing, .headerField, _ => some (.field trailing)
  | .field trailing, .headerValue, _ => some (.value trailing)
  | .value trailing, .headerValue, _ => some (.value trailing)
  | .length left, .body, amount => if amount ≤ left then some (.length (left - amount)) else none
  | .chunk left, .body, amount => if amount ≤ left then some (.chunk (left - amount)) else none
  | .untilEof, .body, _ => some .untilEof
  | _, _, _ => none

theorem data_head (trailing : Bool) (amount : Nat) :
    (head trailing).data .headerField amount = some (.field trailing) := by
  cases trailing <;> rfl

theorem data_length {left amount : Nat} (fits : amount ≤ left) :
    (length left).data .body amount = some (.length (left - amount)) :=
  if_pos fits

theorem data_chunk {left amount : Nat} (fits : amount ≤ left) :
    (chunk left).data .body amount = some (.chunk (left - amount)) :=
  if_pos fits

end MessagePhase

/-! ## States and phases -/

/-- The states of headers in which a field is read. -/
def HeaderState.ofField : HeaderState → Bool
  | .general | .c | .co | .con | .matchingConnection | .matchingProxyConnection
  | .matchingContentLength | .matchingTransferEncoding | .matchingUpgrade | .connection
  | .contentLength | .transferEncoding | .upgrade => true
  | _ => false

/-- The states of headers in which a value is read. -/
def HeaderState.ofValue : HeaderState → Bool
  | .connection | .transferEncoding => false
  | _ => true

/-- The phase that a state is in, with the characters of a text that it has passed but not
called back for. -/
def Located (state : ParserState) (nread : Nat) (fields : ParserFields) (passed : Nat)
    (phase : MessagePhase) : Prop :=
  match state with
  | .url .dead | .startReqOrRes | .startRes | .startReq => phase = .idle
  | .headerFieldStart | .headersAlmostDone =>
      phase = .head fields.flags.trailing ∨ phase = .value fields.flags.trailing
  | .headerField =>
      (phase = .head fields.flags.trailing ∨ phase = .field fields.flags.trailing ∨
        phase = .value fields.flags.trailing) ∧ fields.headerState.ofField
  | .headerValueDiscardWs | .headerValueDiscardWsAlmostDone | .headerValueDiscardLws =>
      phase = .field fields.flags.trailing
  | .headerValue =>
      (phase = .field fields.flags.trailing ∨ phase = .value fields.flags.trailing) ∧
        fields.headerState.ofValue
  | .headerValueLws | .headerAlmostDone => phase = .value fields.flags.trailing
  | .headersDone => fields.flags.trailing = false ∧ phase = .afterHead fields
  | .chunkSizeStart => phase = .chunks ∧ fields.flags.chunked ∧ nread = 0
  | .chunkSize | .chunkParameters | .chunkSizeAlmostDone =>
      phase = .chunks ∧ fields.flags.chunked ∧ fields.contentLength ≠ ullongMax
  | .chunkData =>
      phase = .chunk (fields.contentLength.toNat + passed) ∧ fields.flags.chunked ∧
        BodyLength fields.contentLength
  | .chunkDataAlmostDone =>
      phase = .chunk passed ∧ fields.flags.chunked ∧ fields.contentLength = 0
  | .chunkDataDone => phase = .chunk 0 ∧ fields.flags.chunked
  | .bodyIdentity =>
      phase = .length (fields.contentLength.toNat + passed) ∧ BodyLength fields.contentLength
  | .bodyIdentityEof => phase = .untilEof
  | .messageDone => phase = .ended ∨ phase = .length 0
  | _ => phase = .head false ∧ fields.flags.trailing = false

/-- A text that has begun, and how many of its characters have been passed. -/
abbrev Held : Type :=
  Option (Piece × Nat)

namespace Held

/-- Nothing is passed of a text that has not begun. -/
def passed : Held → Nat
  | none => 0
  | some (_, amount) => amount

/-- More characters have been passed behind a mark. -/
def pass (held : Held) (amount : Nat) : Held :=
  held.map fun (piece, passed) => (piece, passed + amount)

/-- The mark. -/
def mark (held : Held) : Option Piece :=
  held.map Prod.fst

end Held

namespace Handling

/--
A handling that keeps to the phases, with what is left of the data, the counts, the phase and
the text that has begun: its assertions hold, it stays within the data, it calls back for what
the phase expects, and it leaves the parser where the next state is.
-/
def Conforms : Handling → Nat → Nat → Nat → MessagePhase → Held → Prop
  | .next state fields, left, nread, _, phase, held =>
      0 < left ∧ Located state nread fields (held.pass 1).passed phase
  | .fail errno _ _, _, _, _, _, _ => errno ≠ .ok ∧ errno ≠ .paused
  | .exit state fields, left, nread, _, phase, _ =>
      0 < left ∧ Located state nread fields 0 phase
  | .assert holds after, left, nread, stored, phase, held =>
      holds ∧ Conforms after left nread stored phase held
  | .count _ _ _ after, left, _, stored, phase, held =>
      ∀ nread, Conforms after left nread stored phase held
  | .resetNread after, left, _, _, phase, held => Conforms after left 0 0 phase held
  | .mark piece after, left, nread, stored, phase, held =>
      Conforms after left nread stored phase (held.or (some (piece, 0)))
  | .advance amount after, left, nread, stored, phase, held =>
      amount ≤ left ∧ Conforms after (left - amount) nread stored phase (held.pass amount)
  | .data piece more passed state fields after, left, nread, stored, phase, held =>
      if held.mark = some piece then
        ∃ next, phase.data piece (held.passed + more) = some next ∧ more ≤ left ∧
          passed ≤ left ∧ Located state stored fields 0 next ∧
            Conforms after left nread stored next none
      else Conforms after left nread stored phase held
  | .notify notice passed state fields after, left, nread, stored, phase, held =>
      ∃ next, phase.notify notice fields = some next ∧ passed ≤ left ∧
        Located state stored fields 0 next ∧ Conforms after left nread stored next held
  | .headersComplete state fields after, left, nread, stored, phase, held =>
      ∀ answered : ParserFields, answered.flags.trailing = fields.flags.trailing →
        ∃ next, phase.headersComplete answered = some next ∧
          Located state nread answered 0 next ∧
            Conforms (after answered) left nread stored next held

end Handling

open Handling

/-! ## Macros -/

section States

variable {left nread stored : Nat} {phase next : MessagePhase} {held : Held}

theorem conforms_strictCheck (some_left : 0 < left) {state after : ParserState}
    (fields : ParserFields) (expected ch : Byte)
    (located : Located after nread fields (held.pass 1).passed phase) :
    (strictCheck expected state after fields ch).Conforms left nread stored phase held := by
  unfold strictCheck
  split_ifs
  · exact ⟨HttpErrno.noConfusion, HttpErrno.noConfusion⟩
  · exact ⟨some_left, located⟩

theorem conforms_notifyNext (some_left : 0 < left) {state : ParserState} {fields : ParserFields}
    {notice : Notice} (step : phase.notify notice fields = some next)
    (located : Located state nread fields 0 next) (pauses : Located state stored fields 0 next) :
    (notifyNext notice state fields).Conforms left nread stored phase none :=
  ⟨next, step, some_left, pauses, some_left, located⟩

/-- A callback for a text that has begun. -/
theorem conforms_data {piece : Piece} {amount more passed : Nat} {state : ParserState}
    {fields : ParserFields} {after : Handling}
    (step : phase.data piece (amount + more) = some next) (more_left : more ≤ left)
    (passed_left : passed ≤ left) (pauses : Located state stored fields 0 next)
    (continued : after.Conforms left nread stored next none) :
    (Handling.data piece more passed state fields after).Conforms left nread stored phase
      (some (piece, amount)) := by
  have marked : Held.mark (some (piece, amount)) = some piece := rfl
  rw [Conforms, if_pos marked]
  exact ⟨next, step, more_left, passed_left, pauses, continued⟩

theorem conforms_dataNext (some_left : 0 < left) {state : ParserState} {fields : ParserFields}
    {piece : Piece} {amount : Nat} (step : phase.data piece amount = some next)
    (located : ∀ nread, Located state nread fields 0 next) :
    (dataNext piece state fields).Conforms left nread stored phase (some (piece, amount)) :=
  conforms_data step (Nat.zero_le _) some_left (located stored) ⟨some_left, located nread⟩

/-! ## Request and status lines -/

namespace ParserFields

variable {fields : ParserFields}

theorem conforms_httpMajorDigit (some_left : 0 < left) {state after : ParserState} (ch : Byte)
    (located : ∀ fields', fields'.flags = fields.flags → Located after nread fields' 0 phase) :
    (fields.httpMajorDigit state after ch).Conforms left nread stored phase none := by
  unfold httpMajorDigit
  split_ifs
  · exact ⟨HttpErrno.noConfusion, HttpErrno.noConfusion⟩
  · exact ⟨some_left, located _ rfl⟩

theorem conforms_httpDot (some_left : 0 < left) {state after : ParserState} (ch : Byte)
    (located : Located after nread fields 0 phase) :
    (fields.httpDot state after ch).Conforms left nread stored phase none := by
  unfold httpDot
  split_ifs
  · exact ⟨HttpErrno.noConfusion, HttpErrno.noConfusion⟩
  · exact ⟨some_left, located⟩

theorem conforms_httpMinorDigit (some_left : 0 < left) {state after : ParserState} (ch : Byte)
    (located : ∀ fields', fields'.flags = fields.flags → Located after nread fields' 0 phase) :
    (fields.httpMinorDigit state after ch).Conforms left nread stored phase none := by
  unfold httpMinorDigit
  split_ifs
  · exact ⟨HttpErrno.noConfusion, HttpErrno.noConfusion⟩
  · exact ⟨some_left, located _ rfl⟩

theorem conforms_startReq (some_left : 0 < left) (ch : Byte) :
    (fields.startReq ch).Conforms left nread stored .idle none := by
  unfold startReq
  split_ifs
  · exact ⟨some_left, rfl⟩
  · exact ⟨HttpErrno.noConfusion, HttpErrno.noConfusion⟩
  · cases methodOf ch with
    | none => exact ⟨HttpErrno.noConfusion, HttpErrno.noConfusion⟩
    | some method => exact conforms_notifyNext some_left rfl ⟨rfl, rfl⟩ ⟨rfl, rfl⟩

theorem conforms_startReqOrRes (some_left : 0 < left) (ch : Byte) :
    (fields.startReqOrRes ch).Conforms left nread stored .idle none := by
  unfold startReqOrRes
  split_ifs
  · exact ⟨some_left, rfl⟩
  · exact conforms_notifyNext some_left rfl ⟨rfl, rfl⟩ ⟨rfl, rfl⟩
  · exact conforms_startReq some_left ch

theorem conforms_startRes (some_left : 0 < left) (ch : Byte) :
    (fields.startRes ch).Conforms left nread stored .idle none := by
  unfold startRes
  split_ifs
  · exact ⟨some_left, rfl⟩
  · exact conforms_notifyNext some_left rfl ⟨rfl, rfl⟩ ⟨rfl, rfl⟩
  · exact ⟨HttpErrno.noConfusion, HttpErrno.noConfusion⟩

theorem conforms_resOrRespH (some_left : 0 < left) (ch : Byte)
    (plain : fields.flags.trailing = false) :
    (fields.resOrRespH ch).Conforms left nread stored (.head false) none := by
  unfold resOrRespH
  split_ifs
  · exact ⟨some_left, rfl, plain⟩
  · exact ⟨HttpErrno.noConfusion, HttpErrno.noConfusion⟩
  · exact ⟨some_left, rfl, plain⟩

theorem conforms_resHttpEnd (some_left : 0 < left) (ch : Byte)
    (plain : fields.flags.trailing = false) :
    (fields.resHttpEnd ch).Conforms left nread stored (.head false) none := by
  unfold resHttpEnd
  split_ifs
  · exact ⟨HttpErrno.noConfusion, HttpErrno.noConfusion⟩
  · exact ⟨some_left, rfl, plain⟩

theorem conforms_resFirstStatusCode (some_left : 0 < left) (ch : Byte)
    (plain : fields.flags.trailing = false) :
    (fields.resFirstStatusCode ch).Conforms left nread stored (.head false) none := by
  unfold resFirstStatusCode
  split_ifs
  · exact ⟨some_left, rfl, plain⟩
  · exact ⟨HttpErrno.noConfusion, HttpErrno.noConfusion⟩
  · exact ⟨some_left, rfl, plain⟩

theorem conforms_resStatus (some_left : 0 < left) (ch : Byte)
    (plain : fields.flags.trailing = false) (amount : Nat) :
    (fields.resStatus ch).Conforms left nread stored (.head false) (some (.status, amount)) := by
  unfold resStatus
  split_ifs
  · exact conforms_dataNext some_left rfl fun _ => ⟨rfl, plain⟩
  · exact conforms_dataNext some_left rfl fun _ => .inl (by rw [plain])
  · exact ⟨some_left, rfl, plain⟩

theorem conforms_resStatusStart (some_left : 0 < left) (ch : Byte)
    (plain : fields.flags.trailing = false) :
    (fields.resStatusStart ch).Conforms left nread stored (.head false) none := by
  simp only [resStatusStart, Conforms, Option.none_or]
  split_ifs
  · exact conforms_resStatus some_left ch (by exact plain) 0
  · exact ⟨some_left, rfl, plain⟩

theorem conforms_resStatusCode (some_left : 0 < left) (ch : Byte)
    (plain : fields.flags.trailing = false) :
    (fields.resStatusCode ch).Conforms left nread stored (.head false) none := by
  simp only [resStatusCode]
  split_ifs
  · exact ⟨some_left, rfl, plain⟩
  · exact conforms_resStatusStart some_left ch plain
  · exact ⟨HttpErrno.noConfusion, HttpErrno.noConfusion⟩
  · exact ⟨HttpErrno.noConfusion, HttpErrno.noConfusion⟩
  · exact ⟨some_left, rfl, plain⟩

theorem conforms_reqMethod (some_left : 0 < left) (ch : Byte)
    (plain : fields.flags.trailing = false) :
    (fields.reqMethod ch).Conforms left nread stored (.head false) none := by
  simp only [reqMethod]
  split_ifs
  · exact ⟨HttpErrno.noConfusion, HttpErrno.noConfusion⟩
  · exact ⟨some_left, rfl, plain⟩
  · exact ⟨some_left, rfl, plain⟩
  · cases otherMethod fields.method fields.index ch with
    | none => exact ⟨HttpErrno.noConfusion, HttpErrno.noConfusion⟩
    | some method => exact ⟨some_left, rfl, plain⟩
  · exact ⟨HttpErrno.noConfusion, HttpErrno.noConfusion⟩

theorem conforms_urlChar (some_left : 0 < left) (state : UrlState) (ch : Byte)
    (plain : fields.flags.trailing = false) (amount : Nat) :
    (fields.urlChar state ch).Conforms left nread stored (.head false) (some (.url, amount)) := by
  simp only [urlChar]
  generalize parseUrlChar state ch = after
  split_ifs with dead
  · exact ⟨HttpErrno.noConfusion, HttpErrno.noConfusion⟩
  · refine ⟨some_left, ?_⟩
    cases after
    case dead => exact absurd rfl dead
    all_goals exact ⟨rfl, plain⟩

theorem conforms_reqSpacesBeforeUrl (some_left : 0 < left) (ch : Byte)
    (plain : fields.flags.trailing = false) :
    (fields.reqSpacesBeforeUrl ch).Conforms left nread stored (.head false) none := by
  unfold reqSpacesBeforeUrl
  split_ifs
  · exact ⟨some_left, rfl, plain⟩
  · exact conforms_urlChar some_left _ ch plain 0
  · exact conforms_urlChar some_left _ ch plain 0

theorem conforms_urlWithoutSpace (some_left : 0 < left) (state : UrlState) (ch : Byte)
    (plain : fields.flags.trailing = false) (amount : Nat) :
    (fields.urlWithoutSpace state ch).Conforms left nread stored (.head false)
      (some (.url, amount)) := by
  unfold urlWithoutSpace
  split_ifs
  · exact ⟨HttpErrno.noConfusion, HttpErrno.noConfusion⟩
  · exact conforms_urlChar some_left state ch plain amount

theorem conforms_urlEnding (some_left : 0 < left) (state : UrlState) (ch : Byte)
    (plain : fields.flags.trailing = false) (amount : Nat) :
    (fields.urlEnding state ch).Conforms left nread stored (.head false)
      (some (.url, amount)) := by
  unfold urlEnding
  split_ifs
  · exact conforms_dataNext some_left rfl fun _ => ⟨rfl, plain⟩
  · exact conforms_dataNext some_left rfl fun _ => ⟨rfl, plain⟩
  · exact conforms_dataNext some_left rfl fun _ => .inl (by rw [← plain])
  · exact conforms_urlChar some_left state ch plain amount

theorem conforms_dead (some_left : 0 < left) (ch : Byte) :
    (fields.dead ch).Conforms left nread stored .idle none := by
  unfold dead
  split_ifs
  · exact ⟨some_left, rfl⟩
  · exact ⟨HttpErrno.noConfusion, HttpErrno.noConfusion⟩

theorem conforms_reqHttpStart (some_left : 0 < left) (ch : Byte)
    (plain : fields.flags.trailing = false) :
    (fields.reqHttpStart ch).Conforms left nread stored (.head false) none := by
  unfold reqHttpStart
  split_ifs
  · exact ⟨some_left, rfl, plain⟩
  · exact ⟨some_left, rfl, plain⟩
  · exact ⟨some_left, rfl, plain⟩
  · exact ⟨HttpErrno.noConfusion, HttpErrno.noConfusion⟩

theorem conforms_reqHttpEnd (some_left : 0 < left) (ch : Byte)
    (plain : fields.flags.trailing = false) :
    (fields.reqHttpEnd ch).Conforms left nread stored (.head false) none := by
  unfold reqHttpEnd
  split_ifs
  · exact ⟨some_left, rfl, plain⟩
  · exact ⟨some_left, .inl (by rw [plain])⟩
  · exact ⟨HttpErrno.noConfusion, HttpErrno.noConfusion⟩

theorem conforms_reqLineAlmostDone (some_left : 0 < left) (ch : Byte)
    (plain : fields.flags.trailing = false) :
    (fields.reqLineAlmostDone ch).Conforms left nread stored (.head false) none := by
  unfold reqLineAlmostDone
  split_ifs
  · exact ⟨HttpErrno.noConfusion, HttpErrno.noConfusion⟩
  · exact ⟨some_left, .inl (by rw [plain])⟩

end ParserFields

/-! ## Bodies -/

namespace ParserFields

variable {fields : ParserFields}

theorem located_newMessage (nread : Nat) (other : ParserFields) (passed : Nat) :
    Located fields.newMessage nread other passed .idle := by
  unfold newMessage startState
  split_ifs <;> rfl

theorem conforms_messageDone (some_left : 0 < left) (done : phase = .ended ∨ phase = .length 0) :
    fields.messageDone.Conforms left nread stored phase none := by
  unfold messageDone
  refine ⟨.idle, ?_, some_left, located_newMessage _ _ _, ?_⟩
  · rcases done with rfl | rfl
    · rfl
    · rfl
  · split_ifs
    · exact ⟨some_left, located_newMessage _ _ _⟩
    · exact ⟨some_left, located_newMessage _ _ _⟩

theorem conforms_completeNow (some_left : 0 < left) (done : phase = .ended ∨ phase = .length 0) :
    fields.completeNow.Conforms left nread stored phase none := by
  have step : phase.notify .messageComplete fields = some .idle := by
    rcases done with rfl | rfl
    · rfl
    · rfl
  exact conforms_notifyNext some_left step (located_newMessage _ _ _) (located_newMessage _ _ _)

/-- What the parser makes of the headers is what they announce. -/
theorem conforms_afterHeaders (some_left : 0 < left) :
    fields.afterHeaders.Conforms left 0 0 (.afterHead fields) none := by
  unfold afterHeaders MessagePhase.afterHead
  by_cases upgraded : fields.upgrade ∧
      (fields.method = .connect ∨ fields.flags.skipbody ∨ !fields.hasBody)
  · rw [if_pos upgraded, if_pos upgraded]
    exact ⟨.idle, rfl, some_left, located_newMessage _ _ _, some_left, located_newMessage _ _ _⟩
  rw [if_neg upgraded, if_neg upgraded]
  by_cases skipped : fields.flags.skipbody
  · rw [if_pos skipped, if_pos skipped]
    exact conforms_completeNow some_left (.inl rfl)
  rw [if_neg skipped, if_neg skipped]
  by_cases chunked : fields.flags.chunked
  · rw [if_pos chunked, if_pos chunked]
    exact ⟨some_left, rfl, chunked, rfl⟩
  rw [if_neg chunked, if_neg chunked]
  by_cases known : fields.contentLength ≠ ullongMax
  · rw [if_pos known, if_pos known]
    split_ifs with empty
    · exact conforms_completeNow some_left (.inr (by rw [empty]; rfl))
    · exact ⟨some_left, rfl, empty, known⟩
  · have some_length : fields.contentLength ≠ 0 := by
      rw [not_not.mp known]
      decide
    rw [if_neg some_length, if_neg known, if_neg known]
    cases fields.messageNeedsEof with
    | false => exact conforms_completeNow some_left (.inl rfl)
    | true => exact ⟨some_left, rfl⟩

theorem conforms_headersDone (some_left : 0 < left) (ch : Byte) :
    (fields.headersDone ch).Conforms left nread stored (.afterHead fields) none := by
  unfold headersDone
  split_ifs
  · exact ⟨HttpErrno.noConfusion, HttpErrno.noConfusion⟩
  · exact conforms_afterHeaders some_left

theorem conforms_headersAlmostDone (some_left : 0 < left) (ch : Byte)
    (behind : phase = .head fields.flags.trailing ∨ phase = .value fields.flags.trailing) :
    (fields.headersAlmostDone ch).Conforms left nread stored phase none := by
  unfold headersAlmostDone
  split_ifs with wrong trailing both
  · exact ⟨HttpErrno.noConfusion, HttpErrno.noConfusion⟩
  · rw [trailing] at behind
    have step : phase.notify .chunkComplete fields = some .ended := by
      rcases behind with rfl | rfl
      · rfl
      · rfl
    exact ⟨.ended, step, Nat.zero_le _, .inl rfl, conforms_messageDone some_left (.inl rfl)⟩
  · exact ⟨HttpErrno.noConfusion, HttpErrno.noConfusion⟩
  · intro answered same
    have plain : fields.flags.trailing = false := eq_false_of_ne_true trailing
    have step : phase.headersComplete answered = some (.afterHead answered) := by
      rw [plain] at behind
      rcases behind with rfl | rfl
      · rfl
      · rfl
    exact ⟨.afterHead answered, step, ⟨same.trans plain, rfl⟩, conforms_headersDone some_left ch⟩

/-- Less than all is consumed of a body of which something is left. -/
theorem consumed_less {amount : Nat} (fewer : amount ≤ fields.contentLength.toNat)
    (some_left : (fields.consumed amount).contentLength ≠ 0) :
    amount < fields.contentLength.toNat := by
  apply fewer.lt_of_ne
  intro all
  apply some_left
  apply UInt64.toNat_inj.mp
  rw [consumed_length fewer, all, Nat.sub_self]
  rfl

/-- As much of a body as there is, of which some may have been passed before. -/
theorem conforms_takeBody {held : Held} {text : List Byte} (some_text : text ≠ [])
    (body : held = none ∨ ∃ amount, held = some (.body, amount))
    (valid : BodyLength fields.contentLength) {after : ParserFields → Handling}
    (continued : ∀ amount, 0 < amount → amount ≤ fields.contentLength.toNat →
      amount ≤ text.length →
      (after (fields.consumed amount)).Conforms (text.length - (amount - 1)) nread stored phase
        (some (.body, held.passed + (amount - 1)))) :
    (fields.takeBody text after).Conforms text.length nread stored phase held := by
  have some_left := List.length_pos_of_ne_nil some_text
  have some_body := valid.some_left
  have read : fields.toRead text ≤ fields.contentLength.toNat ∧
      fields.toRead text ≤ text.length ∧ 0 < fields.toRead text :=
    ⟨Nat.min_le_left _ _, Nat.min_le_right _ _, Nat.lt_min.mpr ⟨some_body, some_left⟩⟩
  obtain ⟨fewer, few, some_read⟩ := read
  have held_body : Held.pass (held.or (some (.body, 0))) (fields.toRead text - 1) =
      some (.body, held.passed + (fields.toRead text - 1)) := by
    rcases body with rfl | ⟨amount, rfl⟩
    · rfl
    · rfl
  refine ⟨(Nat.sub_le _ _).trans few, ?_⟩
  have next := continued _ some_read fewer few
  rw [← held_body] at next
  exact next

theorem conforms_bodyIdentity {held : Held} {text : List Byte} (some_text : text ≠ [])
    (body : held = none ∨ ∃ amount, held = some (.body, amount))
    (valid : BodyLength fields.contentLength) :
    (fields.bodyIdentity text).Conforms text.length nread stored
      (.length (fields.contentLength.toNat + held.passed)) held := by
  refine ⟨decide_eq_true valid, conforms_takeBody some_text body valid ?_⟩
  intro amount some_read fewer few
  have length := consumed_length fewer
  by_cases empty : (fields.consumed amount).contentLength = 0
  · rw [if_pos empty]
    rw [empty, UInt64.toNat_zero] at length
    have step : (MessagePhase.length (fields.contentLength.toNat + held.passed)).data .body
        (held.passed + (amount - 1) + 1) = some (.length 0) := by
      rw [MessagePhase.data_length (by omega)]
      congr 2
      omega
    apply conforms_data step
    · omega
    · exact Nat.zero_le _
    · exact .inr rfl
    · apply conforms_messageDone
      · omega
      · exact .inr rfl
  · rw [if_neg empty]
    have more := consumed_less fewer empty
    refine ⟨by omega, ?_, .consumed some_read more⟩
    rw [length]
    show _ = MessagePhase.length (_ + (held.passed + (amount - 1) + 1))
    congr 1
    omega

theorem conforms_chunkData {held : Held} {text : List Byte} (some_text : text ≠ [])
    (body : held = none ∨ ∃ amount, held = some (.body, amount))
    (chunked : fields.flags.chunked) (valid : BodyLength fields.contentLength) :
    (fields.chunkData text).Conforms text.length nread stored
      (.chunk (fields.contentLength.toNat + held.passed)) held := by
  refine ⟨chunked, decide_eq_true valid, conforms_takeBody some_text body valid ?_⟩
  intro amount some_read fewer few
  have length := consumed_length fewer
  by_cases empty : (fields.consumed amount).contentLength = 0
  · rw [if_pos empty]
    rw [empty, UInt64.toNat_zero] at length
    refine ⟨by omega, ?_, chunked, empty⟩
    show _ = MessagePhase.chunk (held.passed + (amount - 1) + 1)
    congr 1
    omega
  · rw [if_neg empty]
    have more := consumed_less fewer empty
    refine ⟨by omega, ?_, chunked, .consumed some_read more⟩
    rw [length]
    show _ = MessagePhase.chunk (_ + (held.passed + (amount - 1) + 1))
    congr 1
    omega

theorem conforms_bodyIdentityEof {held : Held} {text : List Byte} (some_text : text ≠ []) :
    (fields.bodyIdentityEof text).Conforms text.length nread stored .untilEof held := by
  have some_left := List.length_pos_of_ne_nil some_text
  refine ⟨Nat.sub_le _ _, ?_, rfl⟩
  omega

/-! ## Chunks -/

/-- A character between two others, as a distance from the first. -/
theorem toNat_sub_of_between {first last ch : Byte} (between : first ≤ ch ∧ ch ≤ last) :
    (ch - first).toUInt64.toNat ≤ last.toNat - first.toNat := by
  rw [UInt8.toNat_toUInt64, UInt8.toNat_sub_of_le _ _ between.1]
  exact Nat.sub_le_sub_right (UInt8.le_iff_toNat_le.mp between.2) _

theorem unhex_lt {ch : Byte} {digit : UInt64} (found : unhex ch = some digit) :
    digit.toNat < 16 := by
  unfold unhex at found
  split_ifs at found with num hex
  · obtain rfl := Option.some.inj found
    simp only [isNum, Bool.and_eq_true, decide_eq_true_eq] at num
    exact (toNat_sub_of_between num).trans_lt (by decide)
  · obtain rfl := Option.some.inj found
    simp only [isHex, num, Bool.false_or, Bool.and_eq_true, decide_eq_true_eq] at hex
    have few := (toNat_sub_of_between hex).trans (show _ ≤ 5 by decide)
    have ten : (10 : UInt64).toNat = 10 := rfl
    rw [UInt64.toNat_add, ten]
    omega
  · obtain rfl := Option.some.inj found
    decide

theorem digit_ne_most {digit : UInt64} (small : digit.toNat < 16) : digit ≠ ullongMax := by
  intro most
  rw [most] at small
  exact absurd small (by decide)

/-- The length of a chunk stays below the one that stands for none. -/
theorem chunk_length_ne_most {length digit : UInt64}
    (fits : ¬(ullongMax - 16) / 16 < length) (small : digit.toNat < 16) :
    length * 16 + digit ≠ ullongMax := by
  intro most
  have bound : length.toNat ≤ ((ullongMax - 16) / 16).toNat :=
    UInt64.le_iff_toNat_le.mp (UInt64.not_lt.mp fits)
  have limit : ((ullongMax - 16) / 16).toNat = 1152921504606846974 := by decide
  have total := congrArg UInt64.toNat most
  have bits : ullongMax.toNat = 18446744073709551615 := rfl
  have sixteen : (16 : UInt64).toNat = 16 := rfl
  rw [UInt64.toNat_add, UInt64.toNat_mul, bits, sixteen] at total
  omega

theorem conforms_chunkSizeStart (some_left : 0 < left) (ch : Byte)
    (chunked : fields.flags.chunked) :
    (fields.chunkSizeStart 1 ch).Conforms left nread stored .chunks none := by
  refine ⟨rfl, chunked, ?_⟩
  cases digit : unhex ch with
  | none => exact ⟨HttpErrno.noConfusion, HttpErrno.noConfusion⟩
  | some _ => exact ⟨some_left, rfl, chunked, digit_ne_most (unhex_lt digit)⟩

theorem conforms_chunkSize (some_left : 0 < left) (ch : Byte) (chunked : fields.flags.chunked)
    (known : fields.contentLength ≠ ullongMax) :
    (fields.chunkSize ch).Conforms left nread stored .chunks none := by
  refine ⟨chunked, ?_⟩
  by_cases ends : ch = cr
  · rw [if_pos ends]
    exact ⟨some_left, rfl, chunked, known⟩
  · rw [if_neg ends]
    cases digit : unhex ch with
    | none =>
        dsimp only
        split_ifs
        · exact ⟨some_left, rfl, chunked, known⟩
        · exact ⟨HttpErrno.noConfusion, HttpErrno.noConfusion⟩
    | some _ =>
        dsimp only
        split_ifs with most
        · exact ⟨HttpErrno.noConfusion, HttpErrno.noConfusion⟩
        · exact ⟨some_left, rfl, chunked, chunk_length_ne_most most (unhex_lt digit)⟩

theorem conforms_chunkParameters (some_left : 0 < left) (ch : Byte)
    (chunked : fields.flags.chunked) (known : fields.contentLength ≠ ullongMax) :
    (fields.chunkParameters ch).Conforms left nread stored .chunks none := by
  refine ⟨chunked, ?_⟩
  split_ifs
  · exact ⟨some_left, rfl, chunked, known⟩
  · exact ⟨some_left, rfl, chunked, known⟩

theorem conforms_chunkSizeAlmostDone (some_left : 0 < left) (ch : Byte)
    (chunked : fields.flags.chunked) (known : fields.contentLength ≠ ullongMax) :
    (fields.chunkSizeAlmostDone ch).Conforms left nread stored .chunks none := by
  refine ⟨chunked, ?_⟩
  split_ifs with wrong empty
  · exact ⟨HttpErrno.noConfusion, HttpErrno.noConfusion⟩
  · exact conforms_notifyNext some_left (congrArg some (if_pos empty)) (.inl rfl) (.inl rfl)
  · have located : ∀ nread, Located .chunkData nread fields 0
        (.chunk fields.contentLength.toNat) :=
      fun _ => ⟨rfl, chunked, empty, known⟩
    exact conforms_notifyNext some_left (congrArg some (if_neg empty)) (located _) (located _)

theorem conforms_chunkDataAlmostDone {held : Held} (some_left : 0 < left) (ch : Byte)
    (body : held = none ∨ ∃ amount, held = some (.body, amount))
    (chunked : fields.flags.chunked) (empty : fields.contentLength = 0) :
    (fields.chunkDataAlmostDone ch).Conforms left nread stored (.chunk held.passed) held := by
  refine ⟨chunked, decide_eq_true empty, ?_⟩
  split_ifs
  · exact ⟨HttpErrno.noConfusion, HttpErrno.noConfusion⟩
  · rcases body with rfl | ⟨amount, rfl⟩
    · exact ⟨some_left, rfl, chunked⟩
    · have step : (MessagePhase.chunk amount).data .body amount = some (.chunk 0) := by
        rw [MessagePhase.data_chunk (Nat.le_refl _), Nat.sub_self]
      exact conforms_dataNext some_left step fun _ => ⟨rfl, chunked⟩

theorem conforms_chunkDataDone (some_left : 0 < left) (ch : Byte)
    (chunked : fields.flags.chunked) :
    (fields.chunkDataDone ch).Conforms left nread stored (.chunk 0) none := by
  refine ⟨chunked, ?_⟩
  split_ifs
  · exact ⟨HttpErrno.noConfusion, HttpErrno.noConfusion⟩
  · exact conforms_notifyNext some_left rfl ⟨rfl, chunked, rfl⟩ ⟨rfl, chunked, rfl⟩

end ParserFields

end States

end ReactiveToolbox.Http
