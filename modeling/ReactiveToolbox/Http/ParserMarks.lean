import ReactiveToolbox.Http.HttpParserExecute

/-!
# The marks of the HTTP parser

A text that has begun is marked, and which mark is set can be told from the state: the
parser sets it again where it resumes.  Only in a body there may be none yet.  A state sets
no mark beside another, and calls back for nothing else while one is set.
-/

namespace ReactiveToolbox.Http

open ReactiveToolbox.Io

/-- The states of a body. -/
def ParserState.inBody : ParserState → Bool
  | .bodyIdentity | .bodyIdentityEof | .chunkData | .chunkDataAlmostDone => true
  | _ => false

/-- The states that look at more than one character. -/
def ParserState.looksAhead : ParserState → Bool
  | .headerField | .headerValue | .bodyIdentity | .bodyIdentityEof | .chunkData => true
  | _ => false

/-- The mark that there may be in a state: the one that the parser resumes with, or, behind
a state that looks ahead, the text of a body that has begun. -/
def Marked (ahead : Bool) (state : ParserState) (mark : Option Piece) : Prop :=
  mark = Execution.resumed state ∨ ahead ∧ state.inBody ∧ mark = some .body

/-- What `http_errno` is behind a callback: no error, one of the callback's, or a pause. -/
inductive HttpErrno.Answered : HttpErrno → Prop where
  | ok : Answered .ok
  | cbMessageBegin : Answered .cbMessageBegin
  | cbUrl : Answered .cbUrl
  | cbHeaderField : Answered .cbHeaderField
  | cbHeaderValue : Answered .cbHeaderValue
  | cbHeadersComplete : Answered .cbHeadersComplete
  | cbBody : Answered .cbBody
  | cbMessageComplete : Answered .cbMessageComplete
  | cbStatus : Answered .cbStatus
  | cbChunkHeader : Answered .cbChunkHeader
  | cbChunkComplete : Answered .cbChunkComplete
  | paused : Answered .paused

theorem HttpErrno.not_answered_headerOverflow : ¬Answered .headerOverflow := by
  rintro ⟨⟩

theorem HttpErrno.not_answered_strict : ¬Answered .strict := by
  rintro ⟨⟩

theorem HttpErrno.not_answered_invalidHeaderToken : ¬Answered .invalidHeaderToken := by
  rintro ⟨⟩

theorem HttpErrno.not_answered_invalidContentLength : ¬Answered .invalidContentLength := by
  rintro ⟨⟩

namespace Handling

/--
A handling that keeps to the marks, with the one that is set: it leaves a mark that suits
the next state.  One that does not look ahead stays at its character.
-/
def Disciplined (ahead : Bool) : Option Piece → Handling → Prop
  | current, .next state _ => Marked ahead state current
  | _, .fail errno _ _ => ¬errno.Answered
  | current, .exit _ _ => current = none
  | current, .assert _ after => Disciplined ahead current after
  | current, .count _ _ _ after => Disciplined ahead current after
  | current, .resetNread after => Disciplined ahead current after
  | current, .mark piece after =>
      (current = none ∨ current = some piece) ∧ Disciplined ahead (some piece) after
  | current, .advance amount after => (ahead ∨ amount = 0) ∧ Disciplined ahead current after
  | current, .data piece more _ _ _ after =>
      (ahead ∨ more ≤ 1) ∧
        Disciplined ahead (if current = some piece then none else current) after
  | current, .notify _ _ _ _ after => current = none ∧ Disciplined ahead none after
  | current, .headersComplete _ _ after =>
      current = none ∧ ∀ fields, Disciplined ahead none (after fields)

end Handling

open Handling

variable (fields : ParserFields) (ch : Byte) (ahead : Bool)

@[simp]
theorem marked_newMessage : Marked ahead fields.newMessage none := by
  unfold ParserFields.newMessage ParserFields.startState
  split_ifs <;> exact .inl rfl

theorem disciplined_strictCheck (expected : Byte) {state next : ParserState}
    (suits : Marked ahead next none) :
    (strictCheck expected state next fields ch).Disciplined ahead none := by
  unfold strictCheck
  split_ifs
  · exact nofun
  · exact suits

theorem disciplined_notifyNext (notice : Notice) {state : ParserState}
    (suits : Marked ahead state none) :
    (notifyNext notice state fields).Disciplined ahead none :=
  ⟨rfl, suits⟩

theorem disciplined_dataNext (piece : Piece) {state : ParserState}
    (suits : Marked ahead state none) :
    (dataNext piece state fields).Disciplined ahead (some piece) := by
  simp [dataNext, Disciplined, suits]

namespace ParserFields

theorem disciplined_httpMajorDigit {state next : ParserState} (suits : Marked ahead next none) :
    (fields.httpMajorDigit state next ch).Disciplined ahead none := by
  unfold httpMajorDigit
  split_ifs
  · exact nofun
  · exact suits

theorem disciplined_httpDot {state next : ParserState} (suits : Marked ahead next none) :
    (fields.httpDot state next ch).Disciplined ahead none := by
  unfold httpDot
  split_ifs
  · exact nofun
  · exact suits

theorem disciplined_httpMinorDigit {state next : ParserState} (suits : Marked ahead next none) :
    (fields.httpMinorDigit state next ch).Disciplined ahead none := by
  unfold httpMinorDigit
  split_ifs
  · exact nofun
  · exact suits

theorem disciplined_startReq : (fields.startReq ch).Disciplined ahead none := by
  unfold startReq
  split_ifs
  · exact .inl rfl
  · exact nofun
  · cases methodOf ch with
    | none => exact nofun
    | some method => exact disciplined_notifyNext _ ahead _ (.inl rfl)

theorem disciplined_startReqOrRes : (fields.startReqOrRes ch).Disciplined ahead none := by
  unfold startReqOrRes
  split_ifs
  · exact .inl rfl
  · exact disciplined_notifyNext _ ahead _ (.inl rfl)
  · apply disciplined_startReq

theorem disciplined_resOrRespH : (fields.resOrRespH ch).Disciplined ahead none := by
  unfold resOrRespH
  split_ifs
  · exact .inl rfl
  · exact nofun
  · exact .inl rfl

theorem disciplined_startRes : (fields.startRes ch).Disciplined ahead none := by
  unfold startRes
  split_ifs
  · exact .inl rfl
  · exact disciplined_notifyNext _ ahead _ (.inl rfl)
  · exact nofun

theorem disciplined_resHttpEnd : (fields.resHttpEnd ch).Disciplined ahead none := by
  unfold resHttpEnd
  split_ifs
  · exact nofun
  · exact .inl rfl

theorem disciplined_resFirstStatusCode :
    (fields.resFirstStatusCode ch).Disciplined ahead none := by
  unfold resFirstStatusCode
  split_ifs
  · exact .inl rfl
  · exact nofun
  · exact .inl rfl

theorem disciplined_resStatus : (fields.resStatus ch).Disciplined ahead (some .status) := by
  unfold resStatus
  split_ifs
  · exact disciplined_dataNext _ ahead _ (.inl rfl)
  · exact disciplined_dataNext _ ahead _ (.inl rfl)
  · exact .inl rfl

theorem disciplined_resStatusStart : (fields.resStatusStart ch).Disciplined ahead none := by
  constructor
  · exact .inl rfl
  · split_ifs
    · apply disciplined_resStatus
    · exact .inl rfl

theorem disciplined_resStatusCode : (fields.resStatusCode ch).Disciplined ahead none := by
  simp only [resStatusCode]
  split_ifs
  · exact .inl rfl
  · apply disciplined_resStatusStart
  · exact nofun
  · exact nofun
  · exact .inl rfl

theorem disciplined_reqMethod : (fields.reqMethod ch).Disciplined ahead none := by
  simp only [reqMethod]
  split_ifs
  · exact nofun
  · exact .inl rfl
  · exact .inl rfl
  · cases otherMethod fields.method fields.index ch with
    | none => exact nofun
    | some method => exact .inl rfl
  · exact nofun

theorem parseServerChar_ne_spaces : parseServerChar ch ≠ .reqSpacesBeforeUrl := by
  unfold parseServerChar
  split_ifs <;> simp

/-- No state that a character of a URL leads to is the one in front of the URL. -/
theorem parseUrlChar_ne_spaces (state : UrlState) :
    parseUrlChar state ch ≠ .reqSpacesBeforeUrl := by
  have server := parseServerChar_ne_spaces ch
  cases state <;> dsimp only [parseUrlChar] <;> split_ifs <;> simp [server]

theorem disciplined_urlChar (state : UrlState) :
    (fields.urlChar state ch).Disciplined ahead (some .url) := by
  have moved := parseUrlChar_ne_spaces ch state
  simp only [urlChar]
  generalize parseUrlChar state ch = next at moved
  split_ifs with dead
  · exact nofun
  · cases next <;> first | exact .inl rfl | contradiction

theorem disciplined_reqSpacesBeforeUrl :
    (fields.reqSpacesBeforeUrl ch).Disciplined ahead none := by
  unfold reqSpacesBeforeUrl
  split_ifs
  · exact .inl rfl
  · exact ⟨.inl rfl, disciplined_urlChar _ _ _ _⟩
  · exact ⟨.inl rfl, disciplined_urlChar _ _ _ _⟩

theorem disciplined_urlWithoutSpace (state : UrlState) :
    (fields.urlWithoutSpace state ch).Disciplined ahead (some .url) := by
  unfold urlWithoutSpace
  split_ifs
  · exact nofun
  · apply disciplined_urlChar

theorem disciplined_urlEnding (state : UrlState) :
    (fields.urlEnding state ch).Disciplined ahead (some .url) := by
  unfold urlEnding
  split_ifs
  · exact disciplined_dataNext _ ahead _ (.inl rfl)
  · exact disciplined_dataNext _ ahead _ (.inl rfl)
  · exact disciplined_dataNext _ ahead _ (.inl rfl)
  · apply disciplined_urlChar

theorem disciplined_url (state : UrlState) :
    (fields.url state ch).Disciplined ahead (Execution.resumed (.url state)) := by
  cases state with
  | dead =>
      unfold url dead
      split_ifs
      · exact .inl rfl
      · exact nofun
  | reqSpacesBeforeUrl => apply disciplined_reqSpacesBeforeUrl
  | reqSchema | reqSchemaSlash | reqSchemaSlashSlash | reqServerStart =>
      apply disciplined_urlWithoutSpace
  | reqServer | reqServerWithAt | reqPath | reqQueryStringStart | reqQueryString
  | reqFragmentStart | reqFragment => apply disciplined_urlEnding

theorem disciplined_reqHttpStart : (fields.reqHttpStart ch).Disciplined ahead none := by
  unfold reqHttpStart
  split_ifs
  · exact .inl rfl
  · exact .inl rfl
  · exact .inl rfl
  · exact nofun

theorem disciplined_reqHttpEnd : (fields.reqHttpEnd ch).Disciplined ahead none := by
  unfold reqHttpEnd
  split_ifs
  · exact .inl rfl
  · exact .inl rfl
  · exact nofun

theorem disciplined_reqLineAlmostDone :
    (fields.reqLineAlmostDone ch).Disciplined ahead none := by
  unfold reqLineAlmostDone
  split_ifs
  · exact nofun
  · exact .inl rfl

/-! ## Bodies -/

theorem consumed_consumed (fields : ParserFields) (first second : Nat) :
    (fields.consumed first).consumed second = fields.consumed (first + second) := by
  have lengths : fields.contentLength - UInt64.ofNat first - UInt64.ofNat second =
      fields.contentLength - UInt64.ofNat (first + second) := by
    rw [UInt64.ofNat_add]
    grind
  simp only [ParserFields.consumed, lengths]

theorem consumed_length {fields : ParserFields} {amount : Nat}
    (few : amount ≤ fields.contentLength.toNat) :
    (fields.consumed amount).contentLength.toNat = fields.contentLength.toNat - amount := by
  have same : (UInt64.ofNat amount).toNat = amount :=
    UInt64.toNat_ofNat_of_lt' (few.trans_lt fields.contentLength.toNat_lt)
  rw [consumed, UInt64.toNat_sub_of_le, same]
  rw [UInt64.le_iff_toNat_le, same]
  exact few

theorem consumed_one {fields : ParserFields} (some_left : 1 ≤ fields.contentLength.toNat) :
    (fields.consumed 1).contentLength.toNat = fields.contentLength.toNat - 1 :=
  consumed_length some_left

theorem disciplined_messageDone : fields.messageDone.Disciplined ahead none := by
  unfold messageDone
  constructor
  · rfl
  · split_ifs
    · rfl
    · exact marked_newMessage fields ahead

theorem disciplined_completeNow : fields.completeNow.Disciplined ahead none :=
  disciplined_notifyNext _ ahead _ (marked_newMessage fields ahead)

theorem disciplined_afterHeaders : fields.afterHeaders.Disciplined ahead none := by
  unfold afterHeaders
  split_ifs
  · exact ⟨rfl, rfl⟩
  · apply disciplined_completeNow
  · exact .inl rfl
  · apply disciplined_completeNow
  · exact .inl rfl
  · apply disciplined_completeNow
  · exact .inl rfl

theorem disciplined_headersDone : (fields.headersDone ch).Disciplined ahead none := by
  unfold headersDone
  split_ifs
  · exact nofun
  · exact disciplined_afterHeaders fields ahead

theorem disciplined_headersAlmostDone :
    (fields.headersAlmostDone ch).Disciplined ahead none := by
  unfold headersAlmostDone
  split_ifs
  · exact nofun
  · exact ⟨rfl, disciplined_messageDone fields ahead⟩
  · exact nofun
  · exact ⟨rfl, fun fields => disciplined_headersDone fields ch ahead⟩

/-- A mark of a body that is set, or is not yet. -/
theorem disciplined_takeBody (left : List Byte) {after : ParserFields → Handling}
    (continued : ∀ fields, (after fields).Disciplined true (some .body))
    {current : Option Piece} (body : current = none ∨ current = some .body) :
    (fields.takeBody left after).Disciplined true current :=
  ⟨body, .inl rfl, continued _⟩

theorem disciplined_bodyRead :
    (if fields.contentLength = 0 then .data .body 1 0 .messageDone fields fields.messageDone
      else .next .bodyIdentity fields : Handling).Disciplined true (some .body) := by
  split_ifs
  · exact ⟨.inl rfl, disciplined_messageDone _ _⟩
  · exact .inr ⟨rfl, rfl, rfl⟩

theorem disciplined_chunkRead :
    (.next (if fields.contentLength = 0 then .chunkDataAlmostDone else .chunkData) fields :
      Handling).Disciplined true (some .body) := by
  split_ifs
  · exact .inr ⟨rfl, rfl, rfl⟩
  · exact .inr ⟨rfl, rfl, rfl⟩

theorem disciplined_bodyIdentity (left : List Byte) {current : Option Piece}
    (body : current = none ∨ current = some .body) :
    (fields.bodyIdentity left).Disciplined true current :=
  disciplined_takeBody fields left disciplined_bodyRead body

theorem disciplined_bodyIdentityEof (left : List Byte) {current : Option Piece}
    (body : current = none ∨ current = some .body) :
    (fields.bodyIdentityEof left).Disciplined true current :=
  ⟨body, .inl rfl, .inr ⟨rfl, rfl, rfl⟩⟩

theorem disciplined_chunkData (left : List Byte) {current : Option Piece}
    (body : current = none ∨ current = some .body) :
    (fields.chunkData left).Disciplined true current :=
  disciplined_takeBody fields left disciplined_chunkRead body

theorem disciplined_chunkDataAlmostDone {current : Option Piece}
    (body : current = none ∨ current = some .body) :
    (fields.chunkDataAlmostDone ch).Disciplined ahead current := by
  unfold chunkDataAlmostDone
  simp only [Disciplined]
  split_ifs
  · exact nofun
  · refine ⟨.inr (Nat.zero_le 1), ?_⟩
    rcases body with rfl | rfl
    · exact .inl rfl
    · exact .inl rfl

theorem disciplined_chunkSizeStart (nread : Nat) :
    (fields.chunkSizeStart nread ch).Disciplined ahead none := by
  simp only [chunkSizeStart, Disciplined]
  cases unhex ch with
  | none => exact nofun
  | some digit => exact .inl rfl

theorem disciplined_chunkSize : (fields.chunkSize ch).Disciplined ahead none := by
  simp only [chunkSize, Disciplined]
  cases unhex ch with
  | none =>
      dsimp only
      split_ifs
      · exact .inl rfl
      · exact .inl rfl
      · exact nofun
  | some digit =>
      dsimp only
      split_ifs
      · exact .inl rfl
      · exact nofun
      · exact .inl rfl

theorem disciplined_chunkParameters : (fields.chunkParameters ch).Disciplined ahead none := by
  simp only [chunkParameters, Disciplined]
  split_ifs
  · exact .inl rfl
  · exact .inl rfl

theorem disciplined_chunkSizeAlmostDone :
    (fields.chunkSizeAlmostDone ch).Disciplined ahead none := by
  simp only [chunkSizeAlmostDone, Disciplined]
  split_ifs
  · exact nofun
  · exact disciplined_notifyNext _ ahead .chunkHeader (.inl rfl)
  · exact disciplined_notifyNext _ ahead .chunkHeader (.inl rfl)

theorem disciplined_chunkDataDone : (fields.chunkDataDone ch).Disciplined ahead none := by
  simp only [chunkDataDone, Disciplined]
  split_ifs
  · exact nofun
  · exact disciplined_notifyNext _ ahead .chunkComplete (.inl rfl)

/-! ## Headers -/

theorem disciplined_headerFieldStart : (fields.headerFieldStart ch).Disciplined ahead none := by
  unfold headerFieldStart
  split_ifs
  · exact .inl rfl
  · apply disciplined_headersAlmostDone
  · exact nofun
  · exact ⟨.inl rfl, .inl rfl⟩

theorem disciplined_headerField (limit : Nat) (left : List Byte) :
    (fields.headerField limit left).Disciplined true (some .headerField) := by
  unfold headerField
  rcases fieldLoop limit left.length fields left with _ | ⟨read, _ | ⟨stop, rest⟩⟩
  · exact .inl rfl
  · exact ⟨.inl rfl, .inl rfl⟩
  · refine ⟨.inl rfl, ?_⟩
    dsimp only [Disciplined]
    split_ifs
    · exact disciplined_dataNext _ true _ (.inl rfl)
    · exact nofun

theorem disciplined_headerValueStart : (fields.headerValueStart ch).Disciplined ahead none := by
  unfold headerValueStart
  refine ⟨.inl rfl, ?_⟩
  cases fields.headerState <;> dsimp only <;> first | exact .inl rfl | skip
  split_ifs
  · exact nofun
  · exact nofun
  · exact .inl rfl

theorem disciplined_headerValueDiscardWs :
    (fields.headerValueDiscardWs ch).Disciplined ahead none := by
  unfold headerValueDiscardWs
  split_ifs
  · exact .inl rfl
  · exact .inl rfl
  · exact .inl rfl
  · apply disciplined_headerValueStart

theorem disciplined_headerValueLws : (fields.headerValueLws ch).Disciplined ahead none := by
  unfold headerValueLws
  split_ifs
  · apply disciplined_headerValueStart
  · apply disciplined_headerValueStart
  · apply disciplined_headerFieldStart

theorem disciplined_headerAlmostDone : (fields.headerAlmostDone ch).Disciplined ahead none := by
  unfold headerAlmostDone
  split_ifs
  · exact nofun
  · exact .inl rfl

theorem disciplined_headerValueDiscardLws :
    (fields.headerValueDiscardLws ch).Disciplined ahead none := by
  unfold headerValueDiscardLws
  split_ifs
  · exact .inl rfl
  · exact nofun
  · exact ⟨.inl rfl, .inr (Nat.zero_le 1), disciplined_headerFieldStart _ ch ahead⟩

theorem disciplined_valueEnded (loop : ValueLoop) {passed : Nat} (few : ahead ∨ passed = 0) :
    (valueEnded loop passed).Disciplined ahead (some .headerValue) := by
  unfold valueEnded
  cases loop.ending with
  | atCr => exact ⟨few, .inr (Nat.zero_le 1), .inl rfl⟩
  | atLf => exact ⟨few, .inr (Nat.zero_le 1), disciplined_headerAlmostDone _ lf ahead⟩
  | finish => exact ⟨few.imp_right fun none => by rw [none], .inl rfl⟩
  | badToken => exact ⟨few, nofun⟩
  | badLength => exact ⟨few, nofun⟩
  | impossible => exact ⟨few, .inl rfl⟩

theorem disciplined_headerValue (limit : Nat) (left : List Byte) :
    (fields.headerValue limit left).Disciplined true (some .headerValue) :=
  disciplined_valueEnded true _ (.inl rfl)

end ParserFields

/-- The length of a body, or of a chunk, of which something is left. -/
def BodyLength (length : UInt64) : Prop :=
  length ≠ 0 ∧ length ≠ ullongMax

namespace BodyLength

theorem some_left {length : UInt64} (valid : BodyLength length) : 1 ≤ length.toNat := by
  apply Nat.one_le_iff_ne_zero.mpr
  intro zero
  exact valid.1 (UInt64.toNat_inj.mp zero)

/-- Something is left of a body of which not all is consumed. -/
theorem consumed {fields : ParserFields} {amount : Nat} (some_consumed : 0 < amount)
    (more : amount < fields.contentLength.toNat) :
    BodyLength (fields.consumed amount).contentLength := by
  have length := ParserFields.consumed_length more.le
  have bound := fields.contentLength.toNat_lt
  constructor
  · intro zero
    rw [zero, UInt64.toNat_zero] at length
    omega
  · intro most
    have bits : ullongMax.toNat = 2 ^ 64 - 1 := rfl
    rw [most, bits] at length
    omega

end BodyLength

/-- The marks of a body. -/
theorem Marked.body {state : ParserState} {current : Option Piece}
    (suits : Marked ahead state current) (resumed : Execution.resumed state = none) :
    current = none ∨ current = some .body := by
  rcases suits with rfl | ⟨-, -, rfl⟩
  · exact .inl resumed
  · exact .inr rfl

/-- Every state keeps to the marks. -/
theorem disciplined_handle (limit : Nat) (state : ParserState) (nread : Nat) (rest : List Byte)
    {current : Option Piece} (suits : Marked true state current) :
    (handle limit state nread fields ch rest).Disciplined state.looksAhead current := by
  cases state
  case bodyIdentity => exact fields.disciplined_bodyIdentity _ (suits.body _ rfl)
  case bodyIdentityEof => exact fields.disciplined_bodyIdentityEof _ (suits.body _ rfl)
  case chunkData => exact fields.disciplined_chunkData _ (suits.body _ rfl)
  case chunkDataAlmostDone => exact fields.disciplined_chunkDataAlmostDone ch _ (suits.body _ rfl)
  all_goals
    obtain rfl : current = _ := suits.resolve_right fun body => nomatch body.2.1
  case url state => apply ParserFields.disciplined_url
  case startReqOrRes => apply ParserFields.disciplined_startReqOrRes
  case resOrRespH => apply ParserFields.disciplined_resOrRespH
  case startRes => apply ParserFields.disciplined_startRes
  case resHttpMajor | reqHttpMajor => exact fields.disciplined_httpMajorDigit ch _ (.inl rfl)
  case resHttpDot | reqHttpDot => exact fields.disciplined_httpDot ch _ (.inl rfl)
  case resHttpMinor | reqHttpMinor => exact fields.disciplined_httpMinorDigit ch _ (.inl rfl)
  case resHttpEnd => apply ParserFields.disciplined_resHttpEnd
  case resFirstStatusCode => apply ParserFields.disciplined_resFirstStatusCode
  case resStatusCode => apply ParserFields.disciplined_resStatusCode
  case resStatusStart => apply ParserFields.disciplined_resStatusStart
  case resStatus => apply ParserFields.disciplined_resStatus
  case startReq => apply ParserFields.disciplined_startReq
  case reqMethod => apply ParserFields.disciplined_reqMethod
  case reqHttpStart => apply ParserFields.disciplined_reqHttpStart
  case reqHttpEnd => apply ParserFields.disciplined_reqHttpEnd
  case reqLineAlmostDone => apply ParserFields.disciplined_reqLineAlmostDone
  case headerFieldStart => apply ParserFields.disciplined_headerFieldStart
  case headerField => apply ParserFields.disciplined_headerField
  case headerValueDiscardWs => apply ParserFields.disciplined_headerValueDiscardWs
  case headerValueDiscardLws => apply ParserFields.disciplined_headerValueDiscardLws
  case headerValue => apply ParserFields.disciplined_headerValue
  case headerValueLws => apply ParserFields.disciplined_headerValueLws
  case headerAlmostDone => apply ParserFields.disciplined_headerAlmostDone
  case chunkSizeStart => apply ParserFields.disciplined_chunkSizeStart
  case chunkSize => apply ParserFields.disciplined_chunkSize
  case chunkParameters => apply ParserFields.disciplined_chunkParameters
  case chunkSizeAlmostDone => apply ParserFields.disciplined_chunkSizeAlmostDone
  case headersAlmostDone => apply ParserFields.disciplined_headersAlmostDone
  case headersDone => apply ParserFields.disciplined_headersDone
  case chunkDataDone => apply ParserFields.disciplined_chunkDataDone
  case messageDone => apply ParserFields.disciplined_messageDone
  all_goals exact disciplined_strictCheck fields ch _ _ (.inl rfl)

end ReactiveToolbox.Http
