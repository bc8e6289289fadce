import ReactiveToolbox.Http.ParserEvents

/-!
# The type of a parser

A parser that is not made for both types stays one of requests, or of responses, and tells
its callbacks so.
-/

namespace ReactiveToolbox.Http

open ReactiveToolbox.Io

universe u

variable {σ : Type u}

/-- The states in which the type of the parser is known. -/
def ParserState.decided : ParserState → Bool
  | .startReqOrRes | .resOrRespH => false
  | _ => true

/-- A state and fields of a parser of one type. -/
structure OfType (type : ParserType) (state : ParserState) (fields : ParserFields) : Prop where
  type_eq : fields.type = type
  decided : state.decided

/-- A handling that leaves a parser of its type, and tells the callbacks so. -/
def Handling.OfType (type : ParserType) : Handling → Prop
  | .next state fields => Http.OfType type state fields
  | .fail _ state fields => Http.OfType type state fields
  | .exit state fields => Http.OfType type state fields
  | .assert _ after => after.OfType type
  | .count _ state fields after => Http.OfType type state fields ∧ after.OfType type
  | .resetNread after => after.OfType type
  | .mark _ after => after.OfType type
  | .advance _ after => after.OfType type
  | .data _ _ _ state fields after => Http.OfType type state fields ∧ after.OfType type
  | .notify _ _ state fields after => Http.OfType type state fields ∧ after.OfType type
  | .headersComplete state fields after =>
      Http.OfType type state fields ∧
        ∀ fields : ParserFields, fields.type = type → (after fields).OfType type

section States

variable {type : ParserType}

theorem ofType_strictCheck (expected : Byte) {state next : ParserState} {fields : ParserFields}
    (ofType : OfType type state fields) (leads : next.decided) (ch : Byte) :
    (Handling.strictCheck expected state next fields ch).OfType type := by
  unfold Handling.strictCheck
  split_ifs
  · exact ofType
  · exact ⟨ofType.type_eq, leads⟩

namespace ParserFields

variable {fields : ParserFields}

theorem newMessage_decided (fields : ParserFields) : fields.newMessage.decided := by
  unfold newMessage startState
  split_ifs <;> rfl

/-! ### Request and status lines -/

theorem ofType_startReq (ofType : fields.type = type) (ch : Byte) :
    (fields.startReq ch).OfType type := by
  unfold startReq
  split_ifs
  · exact ⟨ofType, rfl⟩
  · exact ⟨ofType, rfl⟩
  · dsimp only
    split
    · exact ⟨ofType, rfl⟩
    · exact ⟨⟨ofType, rfl⟩, ofType, rfl⟩

theorem ofType_startRes (ofType : fields.type = type) (ch : Byte) :
    (fields.startRes ch).OfType type := by
  unfold startRes
  split_ifs
  · exact ⟨ofType, rfl⟩
  · exact ⟨⟨ofType, rfl⟩, ofType, rfl⟩
  · exact ⟨ofType, rfl⟩

theorem ofType_resStatus (ofType : fields.type = type) (ch : Byte) :
    (fields.resStatus ch).OfType type := by
  unfold resStatus
  split_ifs
  · exact ⟨⟨ofType, rfl⟩, ofType, rfl⟩
  · exact ⟨⟨ofType, rfl⟩, ofType, rfl⟩
  · exact ⟨ofType, rfl⟩

theorem ofType_resStatusStart (ofType : fields.type = type) (ch : Byte) :
    (fields.resStatusStart ch).OfType type := by
  unfold resStatusStart
  dsimp only [Handling.OfType]
  split_ifs
  · exact @ofType_resStatus _ { fields with index := 0 } ofType ch
  · exact ⟨ofType, rfl⟩

theorem ofType_resStatusCode (ofType : fields.type = type) (ch : Byte) :
    (fields.resStatusCode ch).OfType type := by
  unfold resStatusCode
  dsimp only
  split_ifs
  · exact ⟨ofType, rfl⟩
  · exact ofType_resStatusStart ofType ch
  · exact ⟨ofType, rfl⟩
  · exact ⟨ofType, rfl⟩
  · exact ⟨ofType, rfl⟩

theorem ofType_reqMethod (ofType : fields.type = type) (ch : Byte) :
    (fields.reqMethod ch).OfType type := by
  unfold reqMethod
  dsimp only
  split_ifs
  · exact ⟨ofType, rfl⟩
  · exact ⟨ofType, rfl⟩
  · exact ⟨ofType, rfl⟩
  · split
    · exact ⟨ofType, rfl⟩
    · exact ⟨ofType, rfl⟩
  · exact ⟨ofType, rfl⟩

theorem ofType_urlChar (ofType : fields.type = type) (state : UrlState) (ch : Byte) :
    (fields.urlChar state ch).OfType type := by
  unfold urlChar
  dsimp only
  split_ifs <;> exact ⟨ofType, rfl⟩

theorem ofType_url (ofType : fields.type = type) (state : UrlState) (ch : Byte) :
    (fields.url state ch).OfType type := by
  cases state <;> unfold url
  case dead =>
    unfold dead
    split_ifs <;> exact ⟨ofType, rfl⟩
  case reqSpacesBeforeUrl =>
    unfold reqSpacesBeforeUrl
    split_ifs
    · exact ⟨ofType, rfl⟩
    · exact ofType_urlChar ofType _ ch
    · exact ofType_urlChar ofType _ ch
  case reqSchema | reqSchemaSlash | reqSchemaSlashSlash | reqServerStart =>
    unfold urlWithoutSpace
    split_ifs
    · exact ⟨ofType, rfl⟩
    · exact ofType_urlChar ofType _ ch
  all_goals
    unfold urlEnding
    split_ifs
    · exact ⟨⟨ofType, rfl⟩, ofType, rfl⟩
    · exact ⟨⟨ofType, rfl⟩, ofType, rfl⟩
    · exact ⟨⟨ofType, rfl⟩, ofType, rfl⟩
    · exact ofType_urlChar ofType _ ch

/-! ### Bodies and chunks -/

theorem ofType_messageDone (ofType : fields.type = type) : fields.messageDone.OfType type := by
  have leads : Http.OfType type fields.newMessage fields := ⟨ofType, fields.newMessage_decided⟩
  refine ⟨leads, ?_⟩
  split_ifs <;> exact leads

theorem ofType_afterHeaders (ofType : fields.type = type) :
    fields.afterHeaders.OfType type := by
  have leads : Http.OfType type fields.newMessage fields := ⟨ofType, fields.newMessage_decided⟩
  unfold afterHeaders
  split_ifs
  · exact ⟨leads, leads⟩
  · exact ⟨leads, leads⟩
  · exact ⟨ofType, rfl⟩
  · exact ⟨leads, leads⟩
  · exact ⟨ofType, rfl⟩
  · exact ⟨leads, leads⟩
  · exact ⟨ofType, rfl⟩

theorem ofType_headersDone (ofType : fields.type = type) (ch : Byte) :
    (fields.headersDone ch).OfType type := by
  unfold headersDone
  split_ifs
  · exact ⟨ofType, rfl⟩
  · exact ofType_afterHeaders ofType

theorem ofType_headersAlmostDone (ofType : fields.type = type) (ch : Byte) :
    (fields.headersAlmostDone ch).OfType type := by
  unfold headersAlmostDone
  split_ifs
  · exact ⟨ofType, rfl⟩
  · exact ⟨⟨ofType, rfl⟩, ofType_messageDone ofType⟩
  · exact ⟨ofType, rfl⟩
  · exact ⟨⟨ofType, rfl⟩, fun _ answered => ofType_headersDone answered ch⟩

theorem ofType_bodyIdentity (ofType : fields.type = type) (left : List Byte) :
    (fields.bodyIdentity left).OfType type := by
  show Handling.OfType type (if _ then _ else _)
  split_ifs
  · exact ⟨⟨ofType, rfl⟩, ofType_messageDone ofType⟩
  · exact ⟨ofType, rfl⟩

theorem ofType_chunkSizeStart (ofType : fields.type = type) (nread : Nat) (ch : Byte) :
    (fields.chunkSizeStart nread ch).OfType type := by
  unfold chunkSizeStart
  dsimp only [Handling.OfType]
  cases unhex ch <;> exact ⟨ofType, rfl⟩

theorem ofType_chunkSize (ofType : fields.type = type) (ch : Byte) :
    (fields.chunkSize ch).OfType type := by
  unfold chunkSize
  dsimp only [Handling.OfType]
  cases unhex ch <;> dsimp only <;> split_ifs <;> exact ⟨ofType, rfl⟩

theorem ofType_chunkParameters (ofType : fields.type = type) (ch : Byte) :
    (fields.chunkParameters ch).OfType type := by
  show Handling.OfType type (if _ then _ else _)
  split_ifs <;> exact ⟨ofType, rfl⟩

theorem ofType_chunkSizeAlmostDone (ofType : fields.type = type) (ch : Byte) :
    (fields.chunkSizeAlmostDone ch).OfType type := by
  unfold chunkSizeAlmostDone
  dsimp only [Handling.OfType]
  split_ifs
  · exact ⟨ofType, rfl⟩
  · exact ⟨⟨ofType, rfl⟩, ofType, rfl⟩
  · exact ⟨⟨ofType, rfl⟩, ofType, rfl⟩

theorem ofType_chunkData (ofType : fields.type = type) (left : List Byte) :
    (fields.chunkData left).OfType type := by
  refine ⟨ofType, ?_⟩
  split_ifs <;> rfl

theorem ofType_chunkDataAlmostDone (ofType : fields.type = type) (ch : Byte) :
    (fields.chunkDataAlmostDone ch).OfType type := by
  unfold chunkDataAlmostDone
  dsimp only [Handling.OfType]
  split_ifs
  · exact ⟨ofType, rfl⟩
  · exact ⟨⟨ofType, rfl⟩, ofType, rfl⟩

theorem ofType_chunkDataDone (ofType : fields.type = type) (ch : Byte) :
    (fields.chunkDataDone ch).OfType type := by
  unfold chunkDataDone
  dsimp only [Handling.OfType]
  split_ifs
  · exact ⟨ofType, rfl⟩
  · exact ⟨⟨ofType, rfl⟩, ofType, rfl⟩

/-! ### Headers -/

theorem ofType_headerFieldStart (ofType : fields.type = type) (ch : Byte) :
    (fields.headerFieldStart ch).OfType type := by
  unfold headerFieldStart
  split_ifs
  · exact ⟨ofType, rfl⟩
  · exact ofType_headersAlmostDone ofType ch
  · exact ⟨ofType, rfl⟩
  · exact ⟨ofType, rfl⟩

theorem fieldChar_type {read : ParserFields} {ch c : Byte}
    (char : fields.fieldChar ch c = some read) : read.type = fields.type := by
  unfold fieldChar at char
  split at char
  case h_10 | h_11 | h_12 | h_13 =>
    split_ifs at char <;> cases char <;> rfl
  all_goals cases char <;> rfl

theorem fieldLoop_type {limit fuel : Nat} {text stop : List Byte} {read : ParserFields}
    (looped : fieldLoop limit fuel fields text = some (read, stop)) :
    read.type = fields.type := by
  induction fuel generalizing fields text with
  | zero =>
      cases looped
      rfl
  | succ fuel continued =>
      cases text with
      | nil =>
          cases looped
          rfl
      | cons ch rest =>
          rw [fieldLoop] at looped
          split_ifs at looped
          · cases looped
            rfl
          · exact continued looped
          · cases char : fields.fieldChar ch (token ch) with
            | none =>
                rw [char] at looped
                cases looped
            | some next =>
                rw [char] at looped
                exact (continued looped).trans (fieldChar_type char)

theorem ofType_headerField (ofType : fields.type = type) (limit : Nat) (text : List Byte) :
    (fields.headerField limit text).OfType type := by
  unfold headerField
  cases looped : fieldLoop limit text.length fields text with
  | none => exact ⟨ofType, rfl⟩
  | some reached =>
      obtain ⟨read, stop⟩ := reached
      replace ofType := (fieldLoop_type looped).trans ofType
      cases stop with
      | nil => exact ⟨⟨ofType, rfl⟩, ofType, rfl⟩
      | cons ch rest =>
          refine ⟨⟨ofType, rfl⟩, ?_⟩
          split_ifs
          · exact ⟨⟨ofType, rfl⟩, ofType, rfl⟩
          · exact ⟨ofType, rfl⟩

theorem ofType_headerValueStart (ofType : fields.type = type) (ch : Byte) :
    (fields.headerValueStart ch).OfType type := by
  unfold headerValueStart
  dsimp only [Handling.OfType]
  split
  case h_3 => split_ifs <;> exact ⟨ofType, rfl⟩
  all_goals exact ⟨ofType, rfl⟩

theorem ofType_headerValueDiscardWs (ofType : fields.type = type) (ch : Byte) :
    (fields.headerValueDiscardWs ch).OfType type := by
  unfold headerValueDiscardWs
  split_ifs
  · exact ⟨ofType, rfl⟩
  · exact ⟨ofType, rfl⟩
  · exact ⟨ofType, rfl⟩
  · exact ofType_headerValueStart ofType ch

theorem headerRead_type (fields : ParserFields) : fields.headerRead.type = fields.type := by
  unfold headerRead
  split <;> rfl

theorem ofType_headerValueLws (ofType : fields.type = type) (ch : Byte) :
    (fields.headerValueLws ch).OfType type := by
  unfold headerValueLws
  split_ifs
  · apply ofType_headerValueStart
    exact ofType
  · exact ofType_headerValueStart ofType ch
  · exact ofType_headerFieldStart ((headerRead_type fields).trans ofType) ch

theorem ofType_headerAlmostDone (ofType : fields.type = type) (ch : Byte) :
    (fields.headerAlmostDone ch).OfType type := by
  unfold headerAlmostDone
  split_ifs <;> exact ⟨ofType, rfl⟩

theorem ofType_headerValueDiscardLws (ofType : fields.type = type) (ch : Byte) :
    (fields.headerValueDiscardLws ch).OfType type := by
  unfold headerValueDiscardLws
  split_ifs
  · exact ⟨ofType, rfl⟩
  · exact ⟨ofType, rfl⟩
  · replace ofType := (headerRead_type fields).trans ofType
    exact ⟨⟨ofType, rfl⟩, ofType_headerFieldStart ofType ch⟩

/-- What becomes of a character of a value leaves the type. -/
def ValueChar.OfType (type : ParserType) : ValueChar → Prop
  | .passes _ fields => fields.type = type
  | .fails fields => fields.type = type
  | .impossible => True

theorem ofType_contentDigit (ofType : fields.type = type) (ch : Byte) :
    (fields.contentDigit ch).OfType type := by
  unfold contentDigit
  split_ifs <;> exact ofType

theorem ofType_tokenEnd (ofType : fields.type = type) (headerState : HeaderState)
    (flags : ParserFlags) (ch : Byte) :
    (fields.tokenEnd headerState flags ch).OfType type := by
  unfold tokenEnd
  split_ifs <;> exact ofType

theorem ofType_valueChar (ofType : fields.type = type) (headerState : HeaderState) (ch : Byte) :
    (fields.valueChar headerState ch).OfType type := by
  unfold valueChar
  cases headerState
  case connection | transferEncoding => trivial
  case contentLength =>
    dsimp only
    split_ifs
    · exact ofType
    · exact ofType_contentDigit ofType ch
  case contentLengthNum => exact ofType_contentDigit ofType ch
  case contentLengthWs | matchingConnectionTokenStart | matchingConnectionToken =>
    dsimp only
    split_ifs <;> exact ofType
  case connectionKeepAlive | connectionClose | connectionUpgrade =>
    exact ofType_tokenEnd ofType _ _ ch
  all_goals exact ofType

theorem ofType_valueLoop (ofType : fields.type = type) (limit fuel : Nat)
    (headerState : HeaderState) (text : List Byte) :
    (valueLoop limit fuel headerState fields text).fields.type = type := by
  induction fuel generalizing headerState fields text with
  | zero => exact ofType
  | succ fuel continued =>
      cases text with
      | nil => exact ofType
      | cons ch rest =>
          rw [valueLoop]
          split_ifs
          · exact ofType
          · exact ofType
          · exact ofType
          · split
            · exact continued ofType _ _
            · exact ofType
          · have char := ofType_valueChar ofType headerState ch
            cases passed : fields.valueChar headerState ch <;> rw [passed] at char
            case passes => exact continued char _ _
            case fails => exact char
            case impossible => exact ofType

theorem ofType_headerValue (ofType : fields.type = type) (limit : Nat) (text : List Byte) :
    (fields.headerValue limit text).OfType type := by
  have read := ofType_valueLoop ofType limit text.length fields.headerState text
  unfold headerValue valueEnded
  dsimp only
  split
  · exact ⟨⟨read, rfl⟩, ⟨read, rfl⟩, read, rfl⟩
  · refine ⟨⟨read, rfl⟩, ⟨read, rfl⟩, ?_⟩
    apply ofType_headerAlmostDone
    exact read
  · exact ⟨⟨read, rfl⟩, read, rfl⟩
  all_goals exact ⟨read, rfl⟩

end ParserFields

/-- Every state in which the type is known leaves it as it is. -/
theorem ofType_handle (limit : Nat) {state : ParserState} (nread : Nat) {fields : ParserFields}
    (ofType : OfType type state fields) (ch : Byte) (rest : List Byte) :
    (handle limit state nread fields ch rest).OfType type := by
  have same := ofType.type_eq
  cases state <;> unfold handle
  case startReqOrRes | resOrRespH => exact absurd ofType.decided Bool.false_ne_true
  case url state => exact ParserFields.ofType_url same state ch
  case startReq => exact ParserFields.ofType_startReq same ch
  case startRes => exact ParserFields.ofType_startRes same ch
  case resStatusCode => exact ParserFields.ofType_resStatusCode same ch
  case resStatusStart => exact ParserFields.ofType_resStatusStart same ch
  case resStatus => exact ParserFields.ofType_resStatus same ch
  case reqMethod => exact ParserFields.ofType_reqMethod same ch
  case headerFieldStart => exact ParserFields.ofType_headerFieldStart same ch
  case headerField => exact ParserFields.ofType_headerField same limit _
  case headerValueDiscardWs => exact ParserFields.ofType_headerValueDiscardWs same ch
  case headerValueDiscardLws => exact ParserFields.ofType_headerValueDiscardLws same ch
  case headerValue => exact ParserFields.ofType_headerValue same limit _
  case headerValueLws => exact ParserFields.ofType_headerValueLws same ch
  case headerAlmostDone => exact ParserFields.ofType_headerAlmostDone same ch
  case chunkSizeStart => exact ParserFields.ofType_chunkSizeStart same nread ch
  case chunkSize => exact ParserFields.ofType_chunkSize same ch
  case chunkParameters => exact ParserFields.ofType_chunkParameters same ch
  case chunkSizeAlmostDone => exact ParserFields.ofType_chunkSizeAlmostDone same ch
  case headersAlmostDone => exact ParserFields.ofType_headersAlmostDone same ch
  case headersDone => exact ParserFields.ofType_headersDone same ch
  case chunkData => exact ParserFields.ofType_chunkData same _
  case chunkDataAlmostDone => exact ParserFields.ofType_chunkDataAlmostDone same ch
  case chunkDataDone => exact ParserFields.ofType_chunkDataDone same ch
  case bodyIdentity => exact ParserFields.ofType_bodyIdentity same _
  case bodyIdentityEof => exact ⟨same, rfl⟩
  case messageDone => exact ParserFields.ofType_messageDone same
  case resHttpMajor | reqHttpMajor =>
    unfold ParserFields.httpMajorDigit
    split_ifs <;> exact ⟨same, rfl⟩
  case resHttpDot | reqHttpDot =>
    unfold ParserFields.httpDot
    split_ifs <;> exact ⟨same, rfl⟩
  case resHttpMinor | reqHttpMinor =>
    unfold ParserFields.httpMinorDigit
    split_ifs <;> exact ⟨same, rfl⟩
  case resHttpEnd =>
    unfold ParserFields.resHttpEnd
    split_ifs <;> exact ⟨same, rfl⟩
  case resFirstStatusCode =>
    unfold ParserFields.resFirstStatusCode
    split_ifs <;> exact ⟨same, rfl⟩
  case reqHttpStart =>
    unfold ParserFields.reqHttpStart
    split_ifs <;> exact ⟨same, rfl⟩
  case reqHttpEnd =>
    unfold ParserFields.reqHttpEnd
    split_ifs <;> exact ⟨same, rfl⟩
  case reqLineAlmostDone =>
    unfold ParserFields.reqLineAlmostDone
    split_ifs <;> exact ⟨same, rfl⟩
  all_goals exact ofType_strictCheck _ ofType rfl ch

end States

/-! ## Runs -/

/-- A property of the callbacks' own states, which every callback keeps that is told the
type. -/
structure ParserSettings.Told (settings : ParserSettings σ) (type : ParserType)
    (Of : σ → Prop) : Prop where
  notify : ∀ {notice : Notice} {fields : ParserFields} {user : σ},
    Of user → fields.type = type → Of (settings.notify notice fields user).2
  headersComplete : ∀ {fields : ParserFields} {user : σ},
    Of user → fields.type = type → Of (settings.headersComplete fields user).2
  data : ∀ {piece : Piece} {text : List Byte} {user : σ},
    Of user → Of (settings.data piece text user).2

/-- An execution, or a parser, of a type. -/
def Outcome.OfType (type : ParserType) (Of : σ → Prop) : Outcome σ → Prop
  | .running execution => Http.OfType type execution.state execution.fields ∧ Of execution.user
  | .returned _ parser user => Http.OfType type parser.state parser.fields ∧ Of user
  | .aborted => True

theorem ParserFields.answered_type (fields : ParserFields) (code : Int) :
    (fields.answered code).type = fields.type := by
  unfold answered
  dsimp only
  split_ifs <;> rfl

section Runs

variable {settings : ParserSettings σ} {type : ParserType} {Of : σ → Prop} {data : List Byte}

namespace Execution

theorem answered_ofType {execution : Execution σ} (told : Of execution.user) (reply : Reply)
    (error : HttpErrno) (passed : Nat) {state : ParserState} {fields : ParserFields}
    (ofType : OfType type state fields) {go : Execution σ → Outcome σ}
    (continued : (go { execution with state := state, fields := fields }).OfType type Of) :
    (execution.answered reply error passed state fields go).OfType type Of := by
  rw [answered]
  split
  · exact ⟨ofType, told⟩
  · exact continued

theorem callData_ofType (tells : settings.Told type Of) {execution : Execution σ}
    (told : Of execution.user) (piece : Piece) (more passed : Nat) {state : ParserState}
    {fields : ParserFields} (ofType : OfType type state fields) {go : Execution σ → Outcome σ}
    (continued : ∀ execution : Execution σ, OfType type execution.state execution.fields →
      Of execution.user → (go execution).OfType type Of) :
    (execution.callData settings data piece more passed state fields go).OfType type Of := by
  cases marked : execution.mark piece with
  | none =>
      rw [callData_unmarked marked]
      exact continued _ ofType told
  | some start =>
      rw [callData_some marked]
      have next : Of (settings.data piece (execution.marked data start more)
          execution.user).2 :=
        tells.data told
      exact answered_ofType next _ _ _ ofType (continued _ ofType next)

theorem perform_ofType (tells : settings.Told type Of) {handling : Handling}
    (ofType : handling.OfType type) {execution : Execution σ} (told : Of execution.user) :
    (execution.perform settings data handling).OfType type Of := by
  induction handling generalizing execution with
  | next state fields => exact ⟨ofType, told⟩
  | fail errno state fields => exact ⟨ofType, told⟩
  | exit state fields => exact ⟨ofType, told⟩
  | assert holds after continued =>
      cases holds with
      | false => trivial
      | true => exact continued ofType told
  | count amount state fields after continued =>
      rw [perform]
      split
      · exact ⟨ofType.1, told⟩
      · exact continued ofType.2 told
  | resetNread after continued => exact continued ofType told
  | mark piece after continued =>
      rw [perform]
      split
      · exact continued ofType told
      · exact continued ofType told
  | advance amount after continued => exact continued ofType told
  | data piece more passed state fields after continued =>
      apply callData_ofType tells told piece more passed ofType.1
      intro execution _ told
      exact continued ofType.2 told
  | notify notice passed state fields after continued =>
      have next : Of (settings.notify notice fields execution.user).2 :=
        tells.notify told ofType.1.type_eq
      exact answered_ofType next _ _ _ ofType.1 (continued ofType.2 next)
  | headersComplete state fields after continued =>
      have next := tells.headersComplete told ofType.1.type_eq
      have answered : ∀ code, OfType type state (fields.answered code) := fun code =>
        ⟨(fields.answered_type code).trans ofType.1.type_eq, ofType.1.decided⟩
      rw [perform]
      dsimp only [headersAnswered]
      split
      · exact ⟨answered _, next⟩
      · split
        · exact ⟨answered _, next⟩
        · exact continued _ (ofType.2 _ (answered _).type_eq) next

theorem round_ofType (tells : settings.Told type Of) {execution : Execution σ}
    (ofType : OfType type execution.state execution.fields) (told : Of execution.user) :
    (execution.round settings data).OfType type Of := by
  rw [Execution.round]
  cases data.drop execution.p with
  | nil => exact ⟨ofType, told⟩
  | cons ch rest =>
      dsimp only
      split
      · split
        · exact ⟨ofType, told⟩
        · exact perform_ofType tells (ofType_handle _ _ ofType ch rest) told
      · exact perform_ofType tells (ofType_handle _ _ ofType ch rest) told

theorem loop_ofType (tells : settings.Told type Of) (fuel : Nat) {execution : Execution σ}
    (ofType : OfType type execution.state execution.fields) (told : Of execution.user) :
    (execution.loop settings data fuel).OfType type Of := by
  induction fuel generalizing execution with
  | zero => exact ⟨ofType, told⟩
  | succ fuel continued =>
      rw [loop]
      split
      · exact ⟨ofType, told⟩
      · have stepped : (execution.round settings data).OfType type Of :=
          round_ofType tells ofType told
        cases ran : execution.round settings data with
        | running next =>
            rw [ran] at stepped
            exact continued stepped.1 stepped.2
        | returned consumed parser user =>
            rw [ran] at stepped
            exact stepped
        | aborted => trivial

theorem leftover_ofType (tells : settings.Told type Of) {state : ParserState}
    {fields : ParserFields} (ofType : OfType type state fields) (remaining : List Piece)
    {execution : Execution σ} (told : Of execution.user) :
    (execution.leftover settings data state fields remaining).OfType type Of := by
  induction remaining generalizing execution with
  | nil => exact ⟨ofType, told⟩
  | cons piece remaining continued =>
      apply callData_ofType tells told piece 0 0 ofType
      intro execution _ told
      exact continued told

theorem finish_ofType (tells : settings.Told type Of) {execution : Execution σ}
    (ofType : OfType type execution.state execution.fields) (told : Of execution.user) :
    (execution.finish settings data).OfType type Of := by
  rw [finish]
  split
  · exact leftover_ofType tells ofType _ told
  · trivial

end Execution

namespace HttpParser

variable {parser : HttpParser} {user : σ}

theorem executeEof_ofType (tells : settings.Told type Of)
    (ofType : OfType type parser.state parser.fields) (told : Of user) :
    (parser.executeEof settings user).OfType type Of := by
  rw [executeEof]
  split
  case h_1 =>
    have next : Of (settings.notify .messageComplete parser.fields user).2 :=
      tells.notify told ofType.type_eq
    exact Execution.answered_ofType next _ _ _ ⟨ofType.type_eq, rfl⟩ ⟨ofType, next⟩
  all_goals exact ⟨ofType, told⟩

/-- A parser of a type stays one, and tells its callbacks so. -/
theorem execute_ofType (tells : settings.Told type Of)
    (ofType : OfType type parser.state parser.fields) (told : Of user) (data : List Byte) :
    (parser.execute settings data user).OfType type Of := by
  rw [execute]
  split
  · exact ⟨ofType, told⟩
  · split
    · exact executeEof_ofType tells ofType told
    · have looped : ((Execution.start parser user).loop settings data data.length).OfType type
          Of :=
        Execution.loop_ofType tells data.length ofType told
      cases ran : (Execution.start parser user).loop settings data data.length with
      | running next =>
          rw [ran] at looped
          exact Execution.finish_ofType tells looped.1 looped.2
      | returned consumed parser user =>
          rw [ran] at looped
          exact looped
      | aborted => trivial

end HttpParser

end Runs

end ReactiveToolbox.Http
