import ReactiveToolbox.Http.ParserPhases

/-!
# The phases of headers

The loops over fields and values only come to states of headers that they know.  With them
every state of the parser keeps to the phases of a message.
-/

namespace ReactiveToolbox.Http

open ReactiveToolbox.Io

open Handling

section States

variable {left nread stored : Nat} {phase next : MessagePhase} {held : Held}

namespace ParserFields

variable {fields : ParserFields}

theorem fieldStart_ofField (c : Byte) : (fieldStart c).ofField := by
  unfold fieldStart
  split_ifs <;> rfl

theorem conforms_headerFieldStart (some_left : 0 < left) (ch : Byte)
    (behind : phase = .head fields.flags.trailing ∨ phase = .value fields.flags.trailing) :
    (fields.headerFieldStart ch).Conforms left nread stored phase none := by
  unfold headerFieldStart
  split_ifs
  · exact ⟨some_left, behind⟩
  · exact conforms_headersAlmostDone some_left ch behind
  · exact ⟨HttpErrno.noConfusion, HttpErrno.noConfusion⟩
  · exact ⟨some_left, behind.imp_right .inr, fieldStart_ofField _⟩

/-- What a word is compared to leads to one of three states. -/
theorem matchWord_leads {motive : HeaderState → Prop} {matching matched failed : HeaderState}
    (word : List Byte) (index : Nat) (c : Byte) (fails : motive failed)
    (ends : motive matched) (continues : motive matching) :
    motive (matchWord word matching matched failed index c) := by
  unfold matchWord
  split_ifs
  · exact fails
  · exact ends
  · exact continues

theorem matchField_ofField (word : List Byte) {matched : HeaderState} (c : Byte)
    (matches_ : matched.ofField) (reads : fields.headerState.ofField) :
    (fields.matchField word matched c).headerState.ofField :=
  matchWord_leads (motive := fun state => state.ofField = true) word _ c rfl matches_ reads

/-- The states of a field have only states of headers in which a field is read. -/
theorem fieldChar_ofField (reads : fields.headerState.ofField) (ch c : Byte) :
    ∃ read, fields.fieldChar ch c = some read ∧ read.headerState.ofField ∧
      read.flags = fields.flags := by
  unfold fieldChar
  cases state : fields.headerState <;> rw [state] at reads <;> cases reads
  case general => exact ⟨_, rfl, by rw [state]; rfl, rfl⟩
  case c => exact ⟨_, rfl, by dsimp only [withHeaderState]; split_ifs <;> rfl, rfl⟩
  case co => exact ⟨_, rfl, by dsimp only [withHeaderState]; split_ifs <;> rfl, rfl⟩
  case con => exact ⟨_, rfl, by dsimp only [withHeaderState]; split_ifs <;> rfl, rfl⟩
  case connection | contentLength | transferEncoding | upgrade =>
    refine ⟨_, rfl, ?_⟩
    by_cases space : ch ≠ ' '.toUInt8
    · rw [if_pos space]
      exact ⟨rfl, rfl⟩
    · rw [if_neg space, state]
      exact ⟨rfl, rfl⟩
  all_goals exact ⟨_, rfl, matchField_ofField _ c rfl (by rw [state]; rfl), rfl⟩

theorem fieldLoop_ofField (limit fuel : Nat) (reads : fields.headerState.ofField)
    (text : List Byte) :
    ∃ read stop, fieldLoop limit fuel fields text = some (read, stop) ∧
      read.headerState.ofField ∧ read.flags = fields.flags ∧ stop.length ≤ text.length := by
  induction fuel generalizing fields text with
  | zero => exact ⟨fields, text, rfl, reads, rfl, Nat.le_refl _⟩
  | succ fuel continued =>
      cases text with
      | nil => exact ⟨fields, [], rfl, reads, rfl, Nat.le_refl _⟩
      | cons ch rest =>
          rw [fieldLoop]
          split_ifs with stops general
          · exact ⟨fields, ch :: rest, rfl, reads, rfl, Nat.le_refl _⟩
          · obtain ⟨read, stop, looped, still, flags, fewer⟩ :=
              continued reads (rest.drop (fieldRun limit rest))
            rw [List.length_drop] at fewer
            exact ⟨read, stop, looped, still, flags,
              (fewer.trans (Nat.sub_le _ _)).trans (Nat.le_succ _)⟩
          · obtain ⟨next, char, nextReads, same⟩ := fieldChar_ofField reads ch (token ch)
            rw [char]
            obtain ⟨read, stop, looped, still, flags, fewer⟩ := continued nextReads rest
            exact ⟨read, stop, looped, still, flags.trans same, fewer.trans (Nat.le_succ _)⟩

theorem conforms_headerField (limit : Nat) {text : List Byte} (some_text : text ≠ [])
    (behind : phase = .head fields.flags.trailing ∨ phase = .field fields.flags.trailing ∨
      phase = .value fields.flags.trailing)
    (reads : fields.headerState.ofField) (amount : Nat) :
    (fields.headerField limit text).Conforms text.length nread stored phase
      (some (.headerField, amount)) := by
  have some_left := List.length_pos_of_ne_nil some_text
  obtain ⟨read, stop, looped, still, flags, fewer⟩ :=
    fieldLoop_ofField limit text.length reads text
  rw [← flags] at behind
  unfold headerField
  rw [looped]
  cases stop with
  | nil =>
      refine ⟨Nat.sub_le _ _, fun _ => ⟨?_, behind, still⟩⟩
      omega
  | cons ch rest =>
      rw [List.length_cons] at fewer
      refine ⟨Nat.sub_le _ _, fun nread => ?_⟩
      split_ifs
      · have step : ∀ amount, phase.data .headerField amount =
            some (.field read.flags.trailing) := by
          intro amount
          rcases behind with rfl | rfl | rfl
          · exact MessagePhase.data_head _ _
          · rfl
          · rfl
        refine conforms_dataNext ?_ (step _) ?_
        · omega
        · intro _
          rfl
      · exact ⟨HttpErrno.noConfusion, HttpErrno.noConfusion⟩

theorem connectionStart_ofValue (c : Byte) : (connectionStart c).ofValue := by
  unfold connectionStart
  split_ifs <;> rfl

theorem conforms_headerValueStart (some_left : 0 < left) (ch : Byte)
    (behind : phase = .field fields.flags.trailing ∨ phase = .value fields.flags.trailing) :
    (fields.headerValueStart ch).Conforms left nread stored phase none := by
  unfold headerValueStart
  simp only [Conforms, Option.none_or]
  cases state : fields.headerState <;> dsimp only
  case contentLength =>
    split_ifs
    · exact ⟨HttpErrno.noConfusion, HttpErrno.noConfusion⟩
    · exact ⟨HttpErrno.noConfusion, HttpErrno.noConfusion⟩
    · exact ⟨some_left, behind, rfl⟩
  case transferEncoding =>
    refine ⟨some_left, behind, ?_⟩
    dsimp only [withHeaderState]
    split_ifs <;> rfl
  case connection => exact ⟨some_left, behind, connectionStart_ofValue _⟩
  case contentLengthWs | matchingConnectionTokenStart =>
    exact ⟨some_left, behind, rfl⟩
  all_goals exact ⟨some_left, behind, rfl⟩

theorem conforms_headerValueDiscardWs (some_left : 0 < left) (ch : Byte) :
    (fields.headerValueDiscardWs ch).Conforms left nread stored (.field fields.flags.trailing)
      none := by
  unfold headerValueDiscardWs
  split_ifs
  · exact ⟨some_left, rfl⟩
  · exact ⟨some_left, rfl⟩
  · exact ⟨some_left, rfl⟩
  · exact conforms_headerValueStart some_left ch (.inl rfl)

theorem headerRead_trailing : fields.headerRead.flags.trailing = fields.flags.trailing := by
  unfold headerRead
  split <;> rfl

theorem conforms_headerValueLws (some_left : 0 < left) (ch : Byte) :
    (fields.headerValueLws ch).Conforms left nread stored (.value fields.flags.trailing)
      none := by
  unfold headerValueLws
  split_ifs
  · exact conforms_headerValueStart some_left ch (.inr rfl)
  · exact conforms_headerValueStart some_left ch (.inr rfl)
  · apply conforms_headerFieldStart some_left ch
    rw [headerRead_trailing]
    exact .inr rfl

theorem conforms_headerAlmostDone (some_left : 0 < left) (ch : Byte) :
    (fields.headerAlmostDone ch).Conforms left nread stored (.value fields.flags.trailing)
      none := by
  unfold headerAlmostDone
  split_ifs
  · exact ⟨HttpErrno.noConfusion, HttpErrno.noConfusion⟩
  · exact ⟨some_left, rfl⟩

theorem conforms_headerValueDiscardLws (some_left : 0 < left) (ch : Byte) :
    (fields.headerValueDiscardLws ch).Conforms left nread stored
      (.field fields.flags.trailing) none := by
  unfold headerValueDiscardLws
  split_ifs
  · exact ⟨some_left, rfl⟩
  · exact ⟨HttpErrno.noConfusion, HttpErrno.noConfusion⟩
  · have behind : (MessagePhase.value fields.flags.trailing) =
        .head fields.headerRead.flags.trailing ∨
        (MessagePhase.value fields.flags.trailing) = .value fields.headerRead.flags.trailing := by
      rw [headerRead_trailing]
      exact .inr rfl
    have step : (MessagePhase.field fields.flags.trailing).data .headerValue 0 =
        some (.value fields.flags.trailing) := rfl
    exact conforms_data step (Nat.zero_le _) (Nat.zero_le _) behind
      (conforms_headerFieldStart some_left ch behind)

/-! ## Values -/

/-- A character of a value that keeps to the states of headers in which a value is read. -/
def ValueChar.Reads (trailing : Bool) : ValueChar → Prop
  | .passes headerState read => headerState.ofValue ∧ read.flags.trailing = trailing
  | .fails read => read.flags.trailing = trailing
  | .impossible => False

theorem contentDigit_reads (ch : Byte) :
    (fields.contentDigit ch).Reads fields.flags.trailing := by
  unfold contentDigit
  split_ifs
  · exact ⟨rfl, rfl⟩
  · rfl
  · exact ⟨rfl, rfl⟩

theorem matchValue_reads (word : List Byte) {matching matched failed : HeaderState} (c : Byte)
    (matching_ : matching.ofValue) (matched_ : matched.ofValue) (failed_ : failed.ofValue) :
    (fields.matchValue word matching matched failed c).Reads fields.flags.trailing :=
  ⟨matchWord_leads (motive := fun state => state.ofValue = true) word _ c failed_ matched_
    matching_, rfl⟩

theorem tokenEnd_reads {headerState : HeaderState} (value : headerState.ofValue)
    (flags : ParserFlags) (same : flags.trailing = fields.flags.trailing) (ch : Byte) :
    (fields.tokenEnd headerState flags ch).Reads fields.flags.trailing := by
  unfold tokenEnd
  split_ifs
  · exact ⟨rfl, same⟩
  · exact ⟨rfl, rfl⟩
  · exact ⟨value, rfl⟩

theorem valueChar_reads (fields : ParserFields) {headerState : HeaderState}
    (value : headerState.ofValue) (ch : Byte) :
    (fields.valueChar headerState ch).Reads fields.flags.trailing := by
  cases headerState <;> dsimp only [valueChar]
  case connection | transferEncoding => cases value
  case contentLength =>
    split_ifs
    · exact ⟨rfl, rfl⟩
    · exact contentDigit_reads ch
  case contentLengthNum => exact contentDigit_reads ch
  case contentLengthWs =>
    split_ifs
    · exact ⟨rfl, rfl⟩
    · rfl
  case matchingTransferEncodingChunked | matchingConnectionKeepAlive | matchingConnectionClose
    | matchingConnectionUpgrade => exact matchValue_reads _ _ rfl rfl rfl
  case matchingConnectionTokenStart => split_ifs <;> exact ⟨rfl, rfl⟩
  case matchingConnectionToken => split_ifs <;> exact ⟨rfl, rfl⟩
  case transferEncodingChunked => split_ifs <;> exact ⟨rfl, rfl⟩
  case connectionKeepAlive | connectionClose | connectionUpgrade =>
    apply tokenEnd_reads
    · rfl
    · rfl
  all_goals exact ⟨rfl, rfl⟩

theorem valueRun_fewer (lenient : Bool) (limit : Nat) (text : List Byte) :
    (valueRun lenient limit text).2.length ≤ text.length := by
  induction text generalizing limit with
  | nil => cases limit <;> exact Nat.le_refl _
  | cons ch rest continued =>
      cases limit with
      | zero => exact Nat.le_succ _
      | succ limit =>
          rw [valueRun]
          split_ifs
          · exact Nat.le_refl _
          · exact Nat.le_refl _
          · exact (continued limit).trans (Nat.le_succ _)

/-- Where the loop of a value ends. -/
structure ValueLoop.Reads (loop : ValueLoop) (trailing : Bool) (text : List Byte) : Prop where
  possible : loop.ending ≠ .impossible
  value : loop.headerState.ofValue
  same : loop.fields.flags.trailing = trailing
  fewer : loop.left.length ≤ text.length
  some_left : loop.ending = .atCr ∨ loop.ending = .atLf → 0 < loop.left.length

theorem ValueLoop.Reads.more {loop : ValueLoop} {trailing : Bool} {text longer : List Byte}
    (reads : loop.Reads trailing text) (fewer : text.length ≤ longer.length) :
    loop.Reads trailing longer :=
  { reads with fewer := reads.fewer.trans fewer }

theorem valueLoop_reads (fields : ParserFields) (limit fuel : Nat) {headerState : HeaderState}
    (value : headerState.ofValue) (text : List Byte) :
    (valueLoop limit fuel headerState fields text).Reads fields.flags.trailing text := by
  induction fuel generalizing headerState fields text with
  | zero => exact ⟨ValueEnd.noConfusion, value, rfl, Nat.le_refl _, by simp [valueLoop]⟩
  | succ fuel continued =>
      cases text with
      | nil => exact ⟨ValueEnd.noConfusion, value, rfl, Nat.le_refl _, by simp [valueLoop]⟩
      | cons ch rest =>
          rw [valueLoop]
          split_ifs with isCr isLf bad general
          · exact ⟨ValueEnd.noConfusion, value, rfl, Nat.le_refl _, fun _ => Nat.succ_pos _⟩
          · exact ⟨ValueEnd.noConfusion, value, rfl, Nat.le_refl _, fun _ => Nat.succ_pos _⟩
          · exact ⟨ValueEnd.noConfusion, value, rfl, Nat.le_refl _, fun _ => Nat.succ_pos _⟩
          · have fewer := valueRun_fewer fields.lenientHttpHeaders limit (ch :: rest)
            cases run : valueRun fields.lenientHttpHeaders limit (ch :: rest) with
            | mk good next =>
                rw [run] at fewer
                cases good with
                | true => exact (continued fields rfl next).more fewer
                | false => exact ⟨ValueEnd.noConfusion, rfl, rfl, fewer, by simp⟩
          · have reads := valueChar_reads fields value ch
            cases char : fields.valueChar headerState ch with
            | passes next read =>
                rw [char] at reads
                have after := continued read reads.1 rest
                rw [reads.2] at after
                exact after.more (Nat.le_succ _)
            | fails read =>
                rw [char] at reads
                exact ⟨ValueEnd.noConfusion, value, reads, Nat.le_refl _, by simp⟩
            | impossible =>
                rw [char] at reads
                exact reads.elim

theorem conforms_headerValue (limit : Nat) {text : List Byte} (some_text : text ≠ [])
    (behind : phase = .field fields.flags.trailing ∨ phase = .value fields.flags.trailing)
    (value : fields.headerState.ofValue) (amount : Nat) :
    (fields.headerValue limit text).Conforms text.length nread stored phase
      (some (.headerValue, amount)) := by
  have some_left := List.length_pos_of_ne_nil some_text
  have reads := valueLoop_reads fields limit text.length value text
  show (valueEnded (valueLoop limit text.length fields.headerState fields text) _).Conforms _ _ _
    _ _
  generalize valueLoop limit text.length fields.headerState fields text = loop at reads
  have step : ∀ amount, phase.data .headerValue amount =
      some (.value loop.read.flags.trailing) := by
    intro amount
    rw [show loop.read.flags.trailing = fields.flags.trailing from reads.same]
    rcases behind with rfl | rfl
    · rfl
    · rfl
  have fewer := reads.fewer
  unfold valueEnded
  cases ending : loop.ending with
  | atCr =>
      have some_behind := reads.some_left (.inl ending)
      refine ⟨Nat.sub_le _ _, conforms_data (step _) (Nat.zero_le _) ?_ rfl fun _ => ⟨?_, rfl⟩⟩
      · omega
      · omega
  | atLf =>
      have some_behind := reads.some_left (.inr ending)
      refine ⟨Nat.sub_le _ _, fun nread => ?_⟩
      refine conforms_data (step _) (Nat.zero_le _) (Nat.zero_le _) ?_ ?_
      · rfl
      · apply conforms_headerAlmostDone
        omega
  | finish =>
      refine ⟨?_, fun nread => ⟨?_, ?_, reads.value⟩⟩
      · omega
      · omega
      · rw [show loop.read.flags.trailing = fields.flags.trailing from reads.same]
        exact behind
  | badToken => exact ⟨Nat.sub_le _ _, HttpErrno.noConfusion, HttpErrno.noConfusion⟩
  | badLength => exact ⟨Nat.sub_le _ _, HttpErrno.noConfusion, HttpErrno.noConfusion⟩
  | impossible => exact absurd ending reads.possible

end ParserFields

/-! ## The switch -/

/-- The states of the first line of a message. -/
def ParserState.ofStartLine : ParserState → Bool
  | .headerFieldStart | .headerField | .headerValueDiscardWs | .headerValueDiscardWsAlmostDone
  | .headerValueDiscardLws | .headerValue | .headerValueLws | .headerAlmostDone
  | .chunkSizeStart | .chunkSize | .chunkParameters | .chunkSizeAlmostDone
  | .headersAlmostDone | .headersDone | .chunkData | .chunkDataAlmostDone | .chunkDataDone
  | .bodyIdentity | .bodyIdentityEof | .messageDone => false
  | _ => true

theorem ParserState.parsingHeader_of_inBody {state : ParserState} (inBody : state.inBody) :
    state.parsingHeader = false := by
  cases state
  case chunkData | chunkDataAlmostDone | bodyIdentity | bodyIdentityEof => rfl
  all_goals cases inBody

theorem Held.eq_none {held : Held} (unmarked : held.mark = none) : held = none :=
  Option.map_eq_none_iff.mp unmarked

theorem Held.eq_some {held : Held} {piece : Piece} (marked : held.mark = some piece) :
    ∃ amount, held = some (piece, amount) := by
  obtain ⟨⟨found, amount⟩, rfl, rfl⟩ := Option.map_eq_some_iff.mp marked
  exact ⟨amount, rfl⟩

theorem Held.body {held : Held} (body : held.mark = none ∨ held.mark = some .body) :
    held = none ∨ ∃ amount, held = some (.body, amount) :=
  body.imp Held.eq_none Held.eq_some

theorem conforms_url (some_left : 0 < left) (fields : ParserFields) (state : UrlState)
    (ch : Byte) (marked : held.mark = Execution.resumed (.url state)) {before : Nat}
    (located : Located (.url state) before fields held.passed phase) :
    (fields.url state ch).Conforms left nread stored phase held := by
  cases state with
  | dead =>
      obtain rfl := Held.eq_none marked
      obtain rfl : phase = .idle := located
      exact fields.conforms_dead some_left ch
  | reqSpacesBeforeUrl =>
      obtain rfl := Held.eq_none marked
      obtain ⟨rfl, plain⟩ := located
      exact ParserFields.conforms_reqSpacesBeforeUrl some_left ch plain
  | reqSchema | reqSchemaSlash | reqSchemaSlashSlash | reqServerStart =>
      obtain ⟨amount, rfl⟩ := Held.eq_some marked
      obtain ⟨rfl, plain⟩ := located
      exact ParserFields.conforms_urlWithoutSpace some_left _ ch plain amount
  | reqServer | reqServerWithAt | reqPath | reqQueryStringStart | reqQueryString
  | reqFragmentStart | reqFragment =>
      obtain ⟨amount, rfl⟩ := Held.eq_some marked
      obtain ⟨rfl, plain⟩ := located
      exact ParserFields.conforms_urlEnding some_left _ ch plain amount

/-- The states of a body, and of what is behind it. -/
theorem conforms_handle_body (limit : Nat) {state : ParserState} (fields : ParserFields)
    (ch : Byte) (rest : List Byte) {before : Nat} (inBody : state.parsingHeader = false)
    (marked : Marked true state held.mark)
    (located : Located state before fields held.passed phase) :
    (handle limit state nread fields ch rest).Conforms (rest.length + 1) nread stored phase
      held := by
  have some_left : 0 < rest.length + 1 := Nat.succ_pos _
  have some_text : ch :: rest ≠ [] := List.cons_ne_nil ch rest
  cases state
  case bodyIdentity =>
    obtain ⟨rfl, valid⟩ := located
    exact ParserFields.conforms_bodyIdentity some_text (Held.body (marked.body _ rfl)) valid
  case bodyIdentityEof =>
    obtain rfl : phase = .untilEof := located
    exact ParserFields.conforms_bodyIdentityEof some_text
  case chunkData =>
    obtain ⟨rfl, chunked, valid⟩ := located
    exact ParserFields.conforms_chunkData some_text (Held.body (marked.body _ rfl)) chunked valid
  case chunkDataAlmostDone =>
    obtain ⟨rfl, chunked, empty⟩ := located
    exact ParserFields.conforms_chunkDataAlmostDone some_left ch (Held.body (marked.body _ rfl))
      chunked empty
  all_goals
    replace marked := marked.resolve_right fun body => Bool.false_ne_true body.2.1
  case chunkDataDone =>
    obtain rfl := Held.eq_none marked
    obtain ⟨rfl, chunked⟩ := located
    exact ParserFields.conforms_chunkDataDone some_left ch chunked
  case messageDone =>
    obtain rfl := Held.eq_none marked
    exact ParserFields.conforms_messageDone some_left located
  all_goals cases inBody

/-- The states behind the first line, up to the end of the headers or of a chunk's size. -/
theorem conforms_handle_headers (limit : Nat) {state : ParserState} (fields : ParserFields)
    (ch : Byte) (rest : List Byte) {before : Nat} (header : state.parsingHeader = true)
    (behindLine : state.ofStartLine = false) (marked : held.mark = Execution.resumed state)
    (located : Located state before fields held.passed phase)
    (counted : nread = if state.parsingHeader then (before + 1) % 2 ^ 32 else before) :
    (handle limit state nread fields ch rest).Conforms (rest.length + 1) nread stored phase
      held := by
  have some_left : 0 < rest.length + 1 := Nat.succ_pos _
  have some_text : ch :: rest ≠ [] := List.cons_ne_nil ch rest
  cases state
  case headerField =>
    obtain ⟨amount, rfl⟩ := Held.eq_some marked
    exact ParserFields.conforms_headerField limit some_text located.1 located.2 amount
  case headerValue =>
    obtain ⟨amount, rfl⟩ := Held.eq_some marked
    exact ParserFields.conforms_headerValue limit some_text located.1 located.2 amount
  case headerFieldStart =>
    obtain rfl := Held.eq_none marked
    exact ParserFields.conforms_headerFieldStart some_left ch located
  case headersAlmostDone =>
    obtain rfl := Held.eq_none marked
    exact ParserFields.conforms_headersAlmostDone some_left ch located
  case headersDone =>
    obtain rfl := Held.eq_none marked
    obtain ⟨-, rfl⟩ := located
    exact ParserFields.conforms_headersDone some_left ch
  case headerValueDiscardWs =>
    obtain rfl := Held.eq_none marked
    obtain rfl : phase = _ := located
    exact ParserFields.conforms_headerValueDiscardWs some_left ch
  case headerValueDiscardWsAlmostDone =>
    obtain rfl := Held.eq_none marked
    obtain rfl : phase = _ := located
    exact conforms_strictCheck some_left fields lf ch rfl
  case headerValueDiscardLws =>
    obtain rfl := Held.eq_none marked
    obtain rfl : phase = _ := located
    exact ParserFields.conforms_headerValueDiscardLws some_left ch
  case headerValueLws =>
    obtain rfl := Held.eq_none marked
    obtain rfl : phase = _ := located
    exact ParserFields.conforms_headerValueLws some_left ch
  case headerAlmostDone =>
    obtain rfl := Held.eq_none marked
    obtain rfl : phase = _ := located
    exact ParserFields.conforms_headerAlmostDone some_left ch
  case chunkSizeStart =>
    obtain rfl := Held.eq_none marked
    obtain ⟨rfl, chunked, rfl⟩ := located
    obtain rfl : nread = 1 := counted
    exact ParserFields.conforms_chunkSizeStart some_left ch chunked
  case chunkSize =>
    obtain rfl := Held.eq_none marked
    obtain ⟨rfl, chunked, known⟩ := located
    exact ParserFields.conforms_chunkSize some_left ch chunked known
  case chunkParameters =>
    obtain rfl := Held.eq_none marked
    obtain ⟨rfl, chunked, known⟩ := located
    exact ParserFields.conforms_chunkParameters some_left ch chunked known
  case chunkSizeAlmostDone =>
    obtain rfl := Held.eq_none marked
    obtain ⟨rfl, chunked, known⟩ := located
    exact ParserFields.conforms_chunkSizeAlmostDone some_left ch chunked known
  case chunkData | chunkDataAlmostDone | chunkDataDone | bodyIdentity | bodyIdentityEof
    | messageDone => cases header
  all_goals cases behindLine

/-- The states of the first line. -/
theorem conforms_handle_startLine (limit : Nat) {state : ParserState} (fields : ParserFields)
    (ch : Byte) (rest : List Byte) {before : Nat} (ofLine : state.ofStartLine = true)
    (marked : held.mark = Execution.resumed state)
    (located : Located state before fields held.passed phase) :
    (handle limit state nread fields ch rest).Conforms (rest.length + 1) nread stored phase
      held := by
  have some_left : 0 < rest.length + 1 := Nat.succ_pos _
  cases state
  case url state => exact conforms_url some_left fields state ch marked located
  case resStatus =>
    obtain ⟨amount, rfl⟩ := Held.eq_some marked
    obtain ⟨rfl, plain⟩ := located
    exact ParserFields.conforms_resStatus some_left ch plain amount
  case headerFieldStart | headerField | headerValueDiscardWs | headerValueDiscardWsAlmostDone
    | headerValueDiscardLws | headerValue | headerValueLws | headerAlmostDone | chunkSizeStart
    | chunkSize | chunkParameters | chunkSizeAlmostDone | headersAlmostDone | headersDone
    | chunkData | chunkDataAlmostDone | chunkDataDone | bodyIdentity | bodyIdentityEof
    | messageDone => cases ofLine
  all_goals obtain rfl := Held.eq_none marked
  case startReqOrRes =>
    obtain rfl : phase = .idle := located
    exact fields.conforms_startReqOrRes some_left ch
  case startRes =>
    obtain rfl : phase = .idle := located
    exact fields.conforms_startRes some_left ch
  case startReq =>
    obtain rfl : phase = .idle := located
    exact fields.conforms_startReq some_left ch
  all_goals obtain ⟨rfl, plain⟩ := located
  case resOrRespH => exact ParserFields.conforms_resOrRespH some_left ch plain
  case resHttpMajor | reqHttpMajor =>
    exact ParserFields.conforms_httpMajorDigit some_left ch
      fun fields' same => ⟨rfl, by rw [same, plain]⟩
  case resHttpDot | reqHttpDot =>
    exact ParserFields.conforms_httpDot some_left ch ⟨rfl, plain⟩
  case resHttpMinor | reqHttpMinor =>
    exact ParserFields.conforms_httpMinorDigit some_left ch
      fun fields' same => ⟨rfl, by rw [same, plain]⟩
  case resHttpEnd => exact ParserFields.conforms_resHttpEnd some_left ch plain
  case resFirstStatusCode => exact ParserFields.conforms_resFirstStatusCode some_left ch plain
  case resStatusCode => exact ParserFields.conforms_resStatusCode some_left ch plain
  case resStatusStart => exact ParserFields.conforms_resStatusStart some_left ch plain
  case reqMethod => exact ParserFields.conforms_reqMethod some_left ch plain
  case reqHttpStart => exact ParserFields.conforms_reqHttpStart some_left ch plain
  case reqHttpEnd => exact ParserFields.conforms_reqHttpEnd some_left ch plain
  case reqLineAlmostDone => exact ParserFields.conforms_reqLineAlmostDone some_left ch plain
  case resLineAlmostDone =>
    exact conforms_strictCheck some_left fields lf ch (.inl (by rw [plain]))
  all_goals exact conforms_strictCheck some_left fields _ ch ⟨rfl, plain⟩

/-- Every state keeps to the phases. -/
theorem conforms_handle (limit : Nat) (state : ParserState) (fields : ParserFields) (ch : Byte)
    (rest : List Byte) {before : Nat} (marked : Marked true state held.mark)
    (located : Located state before fields held.passed phase)
    (counted : nread = if state.parsingHeader then (before + 1) % 2 ^ 32 else before) :
    (handle limit state nread fields ch rest).Conforms (rest.length + 1) nread stored phase
      held := by
  cases header : state.parsingHeader with
  | false => exact conforms_handle_body limit fields ch rest header marked located
  | true =>
      replace marked := marked.resolve_right fun body => by
        rw [ParserState.parsingHeader_of_inBody body.2.1] at header
        cases header
      cases line : state.ofStartLine with
      | false =>
          exact conforms_handle_headers limit fields ch rest header line marked located counted
      | true => exact conforms_handle_startLine limit fields ch rest line marked located

end States

end ReactiveToolbox.Http
