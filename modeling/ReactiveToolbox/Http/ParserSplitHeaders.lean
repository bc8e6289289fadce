import ReactiveToolbox.Http.ParserScan
import ReactiveToolbox.Http.ParserSplitBodies

/-!
# Headers in pieces

The loops over fields and values count the characters that they have gone over when they
end, and an execution in pieces counts them one by one.  Both find out that there are too
many, if not at the same character.  Where there are not, they end alike.
-/

namespace ReactiveToolbox.Http

open ReactiveToolbox.Io

universe u

variable {σ : Type u} {settings : ParserSettings σ}

namespace Execution

variable {b : Byte} {data : List Byte} {current : Option Piece}

/-- Two executions of which the second has counted the first character of what the first
has not counted yet, in the states and with the fields of their own. -/
structure Uncounted (settings : ParserSettings σ) (b : Byte) (current : Option Piece)
    (whole rest : Execution σ) : Prop where
  p : whole.p = rest.p
  counted : 0 < whole.nread
  nread : rest.nread = whole.nread + 1
  linked : Linked settings b current whole rest

/-- A handling brings its own state and fields to both. -/
theorem perform_aligned (pieces : settings.TakesPieces) {ahead : Bool} (handling : Handling)
    (disciplined : handling.Disciplined ahead current) {whole rest : Execution σ}
    (p : whole.p = rest.p + 1) (nread : whole.nread = rest.nread)
    (linked : Linked settings b current whole rest) :
    Follows settings b (whole.perform settings (b :: data) handling)
      (rest.perform settings data handling) := by
  rw [← perform_with _ rest whole.state whole.fields]
  apply perform_follows pieces _ disciplined
  constructor
  · exact p
  · rfl
  · rfl
  · exact nread
  · exact linked.of_eq rfl rfl rfl rfl

/-! ## Counts -/

theorem perform_count_fails {user : σ} (execution : Execution σ)
    (apart : settings.TextsApart user execution.user) {amount : Nat}
    (overflow : settings.maxHeaderSize < execution.nread + amount)
    (short : execution.nread + amount < 2 ^ 32) (state : ParserState) (fields : ParserFields)
    (after : Handling) :
    (execution.perform settings data (.count amount state fields after)).Fails settings user := by
  rw [perform, Nat.mod_eq_of_lt short, if_pos overflow]
  exact ⟨HttpErrno.not_answered_headerOverflow, apart⟩

theorem perform_count_fits (execution : Execution σ) {amount : Nat}
    (fits : execution.nread + amount ≤ settings.maxHeaderSize)
    (short : execution.nread + amount < 2 ^ 32) (state : ParserState) (fields : ParserFields)
    (after : Handling) :
    execution.perform settings data (.count amount state fields after) =
      Execution.perform settings data after
        { execution with nread := execution.nread + amount } := by
  rw [perform, Nat.mod_eq_of_lt short, if_neg (Nat.not_lt.mpr fits)]

/-- Characters that are counted once they have been gone over, and are not too many. -/
theorem count_follows (pieces : settings.TakesPieces) {after : Handling}
    (disciplined : after.Disciplined true current) {whole rest : Execution σ}
    (uncounted : Uncounted settings b current whole rest) {amount : Nat}
    (fits : rest.nread + amount ≤ settings.maxHeaderSize)
    (short : rest.nread + amount < 2 ^ 32) (state other : ParserState)
    (fields otherFields : ParserFields) :
    Follows settings b
      (whole.perform settings (b :: data)
        (.advance (amount + 1) (.count (amount + 1) state fields after)))
      (rest.perform settings data
        (.advance amount (.count amount other otherFields after))) := by
  have total : whole.nread + (amount + 1) = rest.nread + amount := by
    rw [uncounted.nread, Nat.add_right_comm, Nat.add_assoc]
  let wholeBehind := { whole with p := whole.p + (amount + 1) }
  let restBehind := { rest with p := rest.p + amount }
  show Follows settings b
    (wholeBehind.perform settings (b :: data) (.count (amount + 1) state fields after))
    (restBehind.perform settings data (.count amount other otherFields after))
  rw [perform_count_fits wholeBehind (total ▸ fits) (total ▸ short),
    perform_count_fits restBehind fits short]
  apply perform_aligned pieces _ disciplined
  · show whole.p + (amount + 1) = rest.p + amount + 1
    rw [uncounted.p, Nat.add_assoc]
  · exact total
  · exact uncounted.linked.of_eq rfl rfl rfl rfl

/-- Where a text is called back for before its characters are counted. -/
theorem perform_data_count (pieces : settings.TakesPieces) (execution : Execution σ)
    {amount : Nat} (fits : execution.nread + amount ≤ settings.maxHeaderSize)
    (short : execution.nread + amount < 2 ^ 32) (piece : Piece) (more passed : Nat)
    (state : ParserState) (fields : ParserFields) (after : Handling) :
    execution.perform settings data
        (.data piece more passed state fields (.count amount state fields after)) =
      Execution.perform settings data (.data piece more passed state fields after)
        { execution with nread := execution.nread + amount } := by
  let counted := { execution with nread := execution.nread + amount }
  show execution.callData settings data piece more passed state fields
      (perform settings data (.count amount state fields after)) =
    counted.callData settings data piece more passed state fields (perform settings data after)
  cases marked : execution.mark piece with
  | none =>
      have unmarked : counted.mark piece = none := marked
      rw [callData_unmarked marked, callData_unmarked unmarked]
      apply perform_count_fits
      · exact fits
      · exact short
  | some start =>
      have countedMark : counted.mark piece = some start := marked
      rw [callData_marked pieces marked, callData_marked pieces countedMark]
      apply perform_count_fits
      · exact fits
      · exact short

theorem data_count_fails (pieces : settings.TakesPieces) {user : σ} (execution : Execution σ)
    (apart : settings.TextsApart user execution.user) {amount : Nat}
    (overflow : settings.maxHeaderSize < execution.nread + amount)
    (short : execution.nread + amount < 2 ^ 32) (piece : Piece) (more passed : Nat)
    (state : ParserState) (fields : ParserFields) (after : Handling) :
    (execution.perform settings data
      (.data piece more passed state fields (.count amount state fields after))).Fails settings
        user := by
  rw [perform]
  cases marked : execution.mark piece with
  | none =>
      rw [callData_unmarked marked]
      apply perform_count_fails
      · exact apart
      · exact overflow
      · exact short
  | some start =>
      rw [callData_marked pieces marked]
      apply perform_count_fails
      · exact apart.trans (settings.apart_data _ _ _)
      · exact overflow
      · exact short

end Execution

namespace HttpParser

open Execution

variable {parser : HttpParser} {b : Byte} {data : List Byte} {user : σ}

theorem entered_parsing (execution : Execution σ)
    (parsing : execution.state.parsingHeader = true) (short : execution.nread + 1 < 2 ^ 32) :
    entered execution = { execution with nread := execution.nread + 1 } := by
  rw [entered, if_pos parsing, Nat.mod_eq_of_lt short]

/-- The first round of a state of headers that has not read too many characters before. -/
theorem round_parsing (settings : ParserSettings σ) (parser : HttpParser) (user : σ)
    (parsing : parser.state.parsingHeader = true)
    (short : parser.nread + 1 < 2 ^ 32) (ch : Byte) (left : List Byte) :
    (start parser user).round settings (ch :: left) =
      if settings.maxHeaderSize < parser.nread + 1 then
        { start parser user with nread := parser.nread + 1 }.failed .headerOverflow parser.state
          parser.fields
      else
        { start parser user with nread := parser.nread + 1 }.perform settings (ch :: left)
          (handle settings.maxHeaderSize parser.state (parser.nread + 1) parser.fields ch
            left) := by
  have execution := entered_parsing (start parser user) parsing short
  rw [round_eq settings (ch :: left) (start parser user) rfl, execution]
  have counted : ((start parser user).nread + 1) % 2 ^ 32 = parser.nread + 1 :=
    Nat.mod_eq_of_lt short
  rw [counted]
  have state : (start parser user).state.parsingHeader = true := parsing
  simp only [state, true_and]
  rfl

/-- A state of headers in which characters are passed one after another, and how many of a
text are, with the one that it stops at. -/
structure Passing (settings : ParserSettings σ) (state : ParserState) (piece : Piece)
    (passes : ParserFields → Byte → ParserFields → Prop)
    (passing : ParserFields → List Byte → Nat) : Prop where
  parsing : state.parsingHeader = true
  resumes : resumed state = some piece
  one : ∀ fields b read nread, passes fields b read →
    handle settings.maxHeaderSize state nread fields b [] =
      .advance 0 (.count 0 state read (.next state read))
  nil : ∀ fields, passing fields [] = 0
  goes : ∀ fields b read data, passes fields b read →
    passing fields (b :: data) = passing read data + 1
  stops : ∀ fields b data, (∀ read, ¬passes fields b read) → passing fields (b :: data) = 1

namespace Passing

variable {state : ParserState} {piece : Piece} {passes : ParserFields → Byte → ParserFields → Prop}
  {passing : ParserFields → List Byte → Nat}

theorem pos (counts : Passing settings state piece passes passing) (fields : ParserFields)
    (b : Byte) (data : List Byte) : 0 < passing fields (b :: data) := by
  by_cases passed : ∃ read, passes fields b read
  · obtain ⟨read, passed⟩ := passed
    rw [counts.goes fields b read data passed]
    exact Nat.succ_pos _
  · rw [counts.stops fields b data fun read passes => passed ⟨read, passes⟩]
    exact Nat.one_pos

/-- What the first character leaves behind that is passed. -/
theorem round_one (counts : Passing settings state piece passes passing) (user : σ)
    (same : parser.state = state) {read : ParserFields} (passed : passes parser.fields b read)
    (fits : parser.nread + 1 ≤ settings.maxHeaderSize) (short : parser.nread + 1 < 2 ^ 32) :
    (start parser user).round settings [b] =
      .running { start parser user with
        p := 1
        fields := read
        nread := parser.nread + 1 } := by
  have counted : (parser.nread + 1 + 0) % 2 ^ 32 = parser.nread + 1 := Nat.mod_eq_of_lt short
  rw [round_parsing settings parser user (same ▸ counts.parsing) short, if_neg (Nat.not_lt.mpr fits),
    same, counts.one _ _ _ _ passed]
  simp only [perform, counted, if_neg (Nat.not_lt.mpr fits)]
  subst same
  rfl

/-- One after another, characters that are too many for a header are found to be. -/
theorem overflows (counts : Passing settings state piece passes passing)
    (pieces : settings.TakesPieces) {data : List Byte} (ok : parser.httpErrno = .ok)
    (same : parser.state = state) (few : parser.nread ≤ settings.maxHeaderSize)
    (many : settings.maxHeaderSize < parser.nread + passing parser.fields data)
    (short : parser.nread + data.length < 2 ^ 32) : Overflows settings parser data user := by
  induction data generalizing parser user with
  | nil =>
      rw [counts.nil] at many
      exact absurd few (Nat.not_le.mpr many)
  | cons b data continued =>
      rw [List.length_cons] at short
      have counted : parser.nread + 1 < 2 ^ 32 := by omega
      rcases Nat.lt_or_ge settings.maxHeaderSize (parser.nread + 1) with overflow | fits
      · have ran := round_parsing settings parser user (same ▸ counts.parsing) counted b []
        rw [if_pos overflow] at ran
        apply Overflows.here
        · rw [execute_cons ok, ran]
          rfl
        · rfl
      · obtain ⟨read, passed⟩ : ∃ read, passes parser.fields b read := by
          by_contra stops
          rw [counts.stops parser.fields b data fun read passed => stops ⟨read, passed⟩] at many
          exact absurd fits (Nat.not_le.mpr many)
        have more := counts.goes parser.fields b read data passed
        have ran := counts.round_one user same passed fits counted
        have resumes : resumed parser.state = some piece := same ▸ counts.resumes
        apply Overflows.later
        · exact execute_one pieces ok ran rfl (congrArg (markAt 0) resumes)
        · rfl
        · exact settings.apart_data _ _ _
        · apply continued
          · rfl
          · exact same
          · exact fits
          · show _ < parser.nread + 1 + passing read data
            omega
          · show parser.nread + 1 + data.length < _
            omega

end Passing

/--
A state of headers that counts its characters when it has gone over them: it does with the
first character what an execution on it alone does, and both count the others, or they are
too many.
-/
theorem splits_of_counted (pieces : settings.TakesPieces) (ok : parser.httpErrno = .ok)
    (some_data : data ≠ []) {piece : Piece}
    {passes : ParserFields → Byte → ParserFields → Prop}
    {passing : ParserFields → List Byte → Nat}
    (counts : Passing settings parser.state piece passes passing) {read : ParserFields}
    (passed : passes parser.fields b read)
    (short : parser.nread + data.length + 2 < 2 ^ 32)
    (fails : ∀ whole : Execution σ, 0 < whole.nread →
      settings.maxHeaderSize + 1 < whole.nread + passing parser.fields (b :: data) →
      whole.nread + data.length + 1 < 2 ^ 32 →
      (whole.perform settings (b :: data)
        (handle settings.maxHeaderSize parser.state whole.nread parser.fields b data)).Fails
          settings whole.user)
    (follows : ∀ (whole rest : Execution σ) (ch : Byte) (left : List Byte),
      Uncounted settings b (some piece) whole rest → data = ch :: left →
      whole.nread + passing parser.fields (b :: data) ≤ settings.maxHeaderSize + 1 →
      rest.nread + left.length + 1 < 2 ^ 32 →
      Follows settings b
        (whole.perform settings (b :: data)
          (handle settings.maxHeaderSize parser.state whole.nread parser.fields b data))
        (rest.perform settings data
          (handle settings.maxHeaderSize parser.state rest.nread read ch left))) :
    Splits settings parser b data user := by
  obtain ⟨ch, left, rfl⟩ := List.exists_cons_of_ne_nil some_data
  rw [List.length_cons] at short fails
  have whole := round_parsing settings parser user counts.parsing (by omega) b (ch :: left)
  have first := round_parsing settings parser user counts.parsing (by omega) b []
  rcases Nat.lt_or_ge settings.maxHeaderSize (parser.nread + 1) with overflow | fits
  · rw [if_pos overflow] at whole first
    apply splits_of_still pieces ok some_data
    · rw [whole, first]
    · rw [first]
      exact failed_stays (by simp) _ _
  rw [if_neg (Nat.not_lt.mpr fits)] at whole
  have ran := counts.round_one user rfl passed fits (by omega)
  have mark : markAt 0 (resumed parser.state) = markAt 0 (some piece) :=
    congrArg (markAt 0) counts.resumes
  rcases Nat.lt_or_ge settings.maxHeaderSize
      (parser.nread + passing parser.fields (b :: ch :: left)) with many | few
  · rw [Splits, execute_one pieces ok ran rfl mark]
    refine (if_pos rfl).mpr ⟨rfl, .inr (.inr ⟨?_, ?_⟩)⟩
    · rw [execute_cons ok, whole]
      apply Outcome.Fails.andThen
      apply fails { start parser user with nread := parser.nread + 1 }
      · exact Nat.succ_pos _
      · show _ < parser.nread + 1 + _
        omega
      · show parser.nread + 1 + (left.length + 1) + 1 < _
        omega
    · apply counts.overflows pieces ok rfl (Nat.le_of_succ_le fits) many
      rw [List.length_cons, List.length_cons]
      omega
  · apply splits_of_ahead pieces ok some_data ran rfl mark
    rw [whole]
    let next : HttpParser :=
      { state := parser.state, fields := read, nread := parser.nread + 1, httpErrno := .ok }
    let told := (settings.data piece [b] user).2
    have rest := round_parsing settings next told counts.parsing (by simp [next]; omega) ch
      left
    have more : parser.nread + 1 + 1 ≤ settings.maxHeaderSize := by
      have some_more := counts.pos read ch left
      rw [counts.goes _ _ _ _ passed] at few
      omega
    rw [if_neg (Nat.not_lt.mpr more)] at rest
    refine Eq.mpr (congrArg (Follows settings b _) rest) ?_
    apply follows { start parser user with nread := parser.nread + 1 }
      { start next told with nread := next.nread + 1 } ch left
    · constructor
      · rfl
      · exact Nat.succ_pos _
      · rfl
      · exact .begun mark mark rfl
    · rfl
    · show parser.nread + 1 + _ ≤ _
      omega
    · show parser.nread + 1 + 1 + left.length + 1 < _
      omega

/-! ## Fields -/

/-- What follows the loop of a field at a character that ends it. -/
theorem headerField_goes {fields read : ParserFields} (goes : token b ≠ 0)
    (char : fields.fieldChar b (token b) = some read) (limit : Nat) (data : List Byte) :
    fields.headerField limit (b :: data) =
      match ParserFields.fieldScan read data with
      | none => .assert false (.next .headerField fields)
      | some (fields, []) =>
          .advance data.length
            (.count data.length .headerField fields (.next .headerField fields))
      | some (fields, ch :: rest) =>
          .advance (data.length - rest.length)
            (.count (data.length - rest.length) .headerField fields
              (if ch = ':'.toUInt8 then .dataNext .headerField .headerValueDiscardWs fields
                else .fail .invalidHeaderToken .headerField fields)) := by
  rw [ParserFields.headerField, ParserFields.fieldLoop_eq _ _ _ _ (Nat.le_refl _),
    ParserFields.fieldScan, if_neg goes, char]
  dsimp only
  rcases ParserFields.fieldScan read data with _ | ⟨ended, _ | ⟨ch, rest⟩⟩
  · rfl
  · rfl
  · simp only [List.length_cons, Nat.add_sub_add_right]

/-- A character that ends a field is none of the characters behind it. -/
theorem headerField_stops {fields : ParserFields}
    (stops : token b = 0 ∨ fields.fieldChar b (token b) = none) (limit : Nat) (data : List Byte) :
    fields.headerField limit (b :: data) = fields.headerField limit [b] ∧
      (fields.headerField limit [b]).Disciplined false (some .headerField) := by
  rw [ParserFields.headerField, ParserFields.headerField,
    ParserFields.fieldLoop_eq _ _ _ _ (Nat.le_refl _),
    ParserFields.fieldLoop_eq _ _ _ _ (Nat.le_refl _), ParserFields.fieldScan,
    ParserFields.fieldScan]
  split_ifs with ends
  · constructor
    · simp only [List.length_cons, List.length_nil, Nat.sub_self]
    · refine ⟨.inr rfl, ?_⟩
      dsimp only [Handling.Disciplined]
      split_ifs
      · exact disciplined_dataNext _ false _ (.inl rfl)
      · exact HttpErrno.not_answered_invalidHeaderToken
  · rw [stops.resolve_left ends]
    exact ⟨rfl, .inl rfl⟩

/-- The loop of a field counts every character that it passes. -/
theorem passing_headerField (settings : ParserSettings σ) :
    Passing settings .headerField .headerField
      (fun fields b read => token b ≠ 0 ∧ fields.fieldChar b (token b) = some read)
      ParserFields.fieldPassing where
  parsing := rfl
  resumes := rfl
  one fields b read nread passed := headerField_goes passed.1 passed.2 _ []
  nil _ := rfl
  goes fields b read data passed := by
    rw [ParserFields.fieldPassing, if_neg passed.1, passed.2]
  stops fields b data stops := by
    rw [ParserFields.fieldPassing]
    split_ifs with ends
    · rfl
    · cases char : fields.fieldChar b (token b) with
      | none => rfl
      | some read => exact absurd ⟨ends, char⟩ (stops read)

theorem headerField_fails {fields read : ParserFields} (goes : token b ≠ 0)
    (char : fields.fieldChar b (token b) = some read) (whole : Execution σ)
    (overflow : settings.maxHeaderSize < whole.nread + ParserFields.fieldPassing read data)
    (short : whole.nread + data.length < 2 ^ 32) :
    (whole.perform settings (b :: data)
      (fields.headerField settings.maxHeaderSize (b :: data))).Fails settings whole.user := by
  rw [headerField_goes goes char]
  cases scanned : ParserFields.fieldScan read data with
  | none => trivial
  | some ended =>
      obtain ⟨fields, _ | ⟨ch, rest⟩⟩ := ended
      · rw [ParserFields.fieldScan_passing scanned] at overflow
        apply perform_count_fails { whole with p := whole.p + data.length }
        · exact .refl _
        · exact overflow
        · exact short
      · rw [ParserFields.fieldScan_passing scanned] at overflow
        apply perform_count_fails { whole with p := whole.p + (data.length - rest.length) }
        · exact .refl _
        · exact overflow
        · show whole.nread + _ < _
          omega

theorem headerField_follows (pieces : settings.TakesPieces) {fields read : ParserFields}
    (goes : token b ≠ 0) (char : fields.fieldChar b (token b) = some read)
    (whole rest : Execution σ) (ch : Byte) (left : List Byte)
    (uncounted : Uncounted settings b (some .headerField) whole rest)
    (fits : whole.nread + ParserFields.fieldPassing read (ch :: left) ≤ settings.maxHeaderSize)
    (short : rest.nread + left.length < 2 ^ 32) :
    Follows settings b
      (whole.perform settings (b :: ch :: left)
        (fields.headerField settings.maxHeaderSize (b :: ch :: left)))
      (rest.perform settings (ch :: left)
        (read.headerField settings.maxHeaderSize (ch :: left))) := by
  have nread := uncounted.nread
  rw [headerField_goes goes char, ParserFields.headerField,
    ParserFields.fieldLoop_eq _ _ _ _ (Nat.le_refl _)]
  cases scanned : ParserFields.fieldScan read (ch :: left) with
  | none => exact .aborted
  | some ended =>
      rw [ParserFields.fieldScan_passing scanned] at fits
      obtain ⟨ended, _ | ⟨stop, behind⟩⟩ := ended
      · rw [List.length_cons, List.length_nil] at fits
        apply count_follows pieces _ uncounted
        · omega
        · exact short
        · exact .inl rfl
      · have few := ParserFields.fieldScan_length scanned
        simp only [List.length_cons, Nat.add_sub_cancel] at few fits ⊢
        have amount : left.length + 1 - behind.length =
            left.length + 1 - (behind.length + 1) + 1 := by
          omega
        rw [amount] at fits ⊢
        apply count_follows pieces _ uncounted
        · omega
        · omega
        · split_ifs
          · exact disciplined_dataNext _ true _ (.inl rfl)
          · exact HttpErrno.not_answered_invalidHeaderToken

theorem splits_headerField (pieces : settings.TakesPieces) (ok : parser.httpErrno = .ok)
    (some_data : data ≠ []) (state : parser.state = .headerField)
    (short : parser.nread + data.length + 2 < 2 ^ 32) : Splits settings parser b data user := by
  by_cases stops : token b = 0 ∨ parser.fields.fieldChar b (token b) = none
  · apply splits_of_handle pieces ok some_data
    · intro nread
      rw [state]
      exact (headerField_stops stops _ data).1
    · intro nread
      rw [state]
      exact (headerField_stops stops _ []).2
  · obtain ⟨goes, fits⟩ := not_or.mp stops
    obtain ⟨read, char⟩ := Option.ne_none_iff_exists'.mp fits
    have counts := passing_headerField settings
    have passing := counts.goes parser.fields b read data ⟨goes, char⟩
    apply splits_of_counted pieces ok some_data (state ▸ counts) ⟨goes, char⟩ short
    · intro whole _ many fewer
      rw [state]
      exact headerField_fails goes char whole (by omega) (Nat.lt_of_succ_lt fewer)
    · rintro whole rest ch left uncounted rfl few fewer
      rw [state]
      exact headerField_follows pieces goes char whole rest ch left uncounted (by omega)
        (Nat.lt_of_succ_lt fewer)

/-! ## Values -/

/-- A character that the loop of a value passes. -/
structure ValuePasses (fields : ParserFields) (b : Byte) (next : HeaderState)
    (read : ParserFields) : Prop where
  notCr : b ≠ cr
  notLf : b ≠ lf
  good : ¬(!fields.lenientHttpHeaders && !isHeaderChar b)
  char : fields.valueChar fields.headerState b = .passes next read

section Values

open ParserFields

variable {fields read : ParserFields} {next : HeaderState}

theorem ValuePasses.scan (passes : ValuePasses fields b next read) (data : List Byte) :
    valueScan fields.headerState fields (b :: data) = valueScan next read data := by
  rw [valueScan, if_neg passes.notCr, if_neg passes.notLf, if_neg passes.good, passes.char]

/-- The loop over one character that it passes. -/
theorem ValuePasses.loop (passes : ValuePasses fields b next read) (limit : Nat) :
    valueLoop limit 1 fields.headerState fields [b] = ⟨.finish, next, read, []⟩ := by
  have char := passes.char
  rw [valueLoop, if_neg passes.notCr, if_neg passes.notLf, if_neg passes.good]
  split_ifs with general
  · rw [general, valueChar_general] at char
    obtain ⟨rfl, rfl⟩ := ValueChar.passes.inj char
    cases limit with
    | zero => rfl
    | succ limit =>
        rw [valueRun, if_neg (not_or.mpr ⟨passes.notCr, passes.notLf⟩), if_neg passes.good]
        cases limit <;> rfl
  · rw [char]
    rfl

theorem ValuePasses.one (passes : ValuePasses fields b next read) (limit : Nat) :
    fields.headerValue limit [b] =
      .advance 0 (.count 0 .headerValue (read.withHeaderState next)
        (.next .headerValue (read.withHeaderState next))) := by
  rw [headerValue, List.length_singleton, passes.loop]
  rfl

/-- A character that the loop of a value does not pass is none of the characters behind it. -/
theorem headerValue_stops (stops : ∀ next read, ¬ValuePasses fields b next read) (limit : Nat)
    (data : List Byte) :
    fields.headerValue limit (b :: data) = fields.headerValue limit [b] ∧
      (fields.headerValue limit [b]).Disciplined false (some .headerValue) := by
  have still : ∃ loop : List Byte → ValueLoop,
      (∀ data, valueLoop limit (data.length + 1) fields.headerState fields (b :: data) =
        loop data) ∧
      (∀ data, (loop data).left = b :: data) ∧
      ∀ data, valueEnded (loop data) 0 = valueEnded (loop []) 0 := by
    by_cases isCr : b = cr
    · exact ⟨fun data => ⟨.atCr, fields.headerState, fields, b :: data⟩,
        fun data => by rw [valueLoop, if_pos isCr], fun _ => rfl, fun _ => rfl⟩
    by_cases isLf : b = lf
    · exact ⟨fun data => ⟨.atLf, fields.headerState, fields, b :: data⟩,
        fun data => by rw [valueLoop, if_neg isCr, if_pos isLf], fun _ => rfl, fun _ => rfl⟩
    by_cases bad : (!fields.lenientHttpHeaders && !isHeaderChar b) = true
    · exact ⟨fun data => ⟨.badToken, fields.headerState, fields, b :: data⟩,
        fun data => by rw [valueLoop, if_neg isCr, if_neg isLf, if_pos bad], fun _ => rfl,
        fun _ => rfl⟩
    have special : fields.headerState ≠ .general := by
      intro general
      apply stops .general fields
      exact ⟨isCr, isLf, bad, by rw [general, valueChar_general]⟩
    cases char : fields.valueChar fields.headerState b with
    | passes next read => exact absurd ⟨isCr, isLf, bad, char⟩ (stops next read)
    | fails read =>
        exact ⟨fun data => ⟨.badLength, fields.headerState, read, b :: data⟩,
          fun data => by
            rw [valueLoop, if_neg isCr, if_neg isLf, if_neg bad, if_neg special, char],
          fun _ => rfl, fun _ => rfl⟩
    | impossible =>
        exact ⟨fun data => ⟨.impossible, fields.headerState, fields, b :: data⟩,
          fun data => by
            rw [valueLoop, if_neg isCr, if_neg isLf, if_neg bad, if_neg special, char],
          fun _ => rfl, fun _ => rfl⟩
  obtain ⟨loop, looped, left, same⟩ := still
  have handled : ∀ data, fields.headerValue limit (b :: data) = valueEnded (loop data) 0 := by
    intro data
    rw [headerValue, List.length_cons, looped, left, List.length_cons, Nat.sub_self]
  rw [handled, handled]
  exact ⟨same data, disciplined_valueEnded false _ (.inr rfl)⟩

/-- The loop of a value fails where it has passed too many characters. -/
theorem valueEnded_fails (pieces : settings.TakesPieces) (loop : ValueLoop) {passed : Nat}
    (whole : Execution σ) (overflow : settings.maxHeaderSize < whole.nread + passed)
    (finished : loop.ending = .finish → settings.maxHeaderSize < whole.nread + (passed - 1))
    (short : whole.nread + passed < 2 ^ 32) :
    (whole.perform settings data (valueEnded loop passed)).Fails settings whole.user := by
  unfold valueEnded
  cases ending : loop.ending with
  | atCr =>
      exact data_count_fails pieces { whole with p := whole.p + passed } (.refl _) overflow short ..
  | atLf =>
      exact perform_count_fails { whole with p := whole.p + passed } (.refl _) overflow short ..
  | finish =>
      apply perform_count_fails { whole with p := whole.p + (passed - 1) }
      · exact .refl _
      · exact finished ending
      · show whole.nread + (passed - 1) < _
        omega
  | badToken => exact ⟨HttpErrno.not_answered_invalidHeaderToken, .refl _⟩
  | badLength => exact ⟨HttpErrno.not_answered_invalidContentLength, .refl _⟩
  | impossible => trivial

/-- The loop of a value that goes over one character more, which are not too many. -/
theorem valueEnded_follows (pieces : settings.TakesPieces) {whole rest : Execution σ}
    (uncounted : Uncounted settings b (some .headerValue) whole rest)
    {wholeLoop restLoop : ValueLoop} (ending : restLoop.ending = wholeLoop.ending)
    (same : restLoop.read = wholeLoop.read) {passed : Nat}
    (finished : wholeLoop.ending = .finish → 0 < passed)
    (fits : rest.nread + passed ≤ settings.maxHeaderSize + 1)
    (all : wholeLoop.ending ≠ .finish → rest.nread + passed ≤ settings.maxHeaderSize)
    (short : rest.nread + passed < 2 ^ 32) :
    Follows settings b
      (whole.perform settings (b :: data) (valueEnded wholeLoop (passed + 1)))
      (rest.perform settings data (valueEnded restLoop passed)) := by
  have total : whole.nread + (passed + 1) = rest.nread + passed := by
    rw [uncounted.nread, Nat.add_right_comm, Nat.add_assoc]
  have behind : whole.p + (passed + 1) = rest.p + passed + 1 := by
    rw [uncounted.p, Nat.add_assoc]
  unfold valueEnded
  rw [ending, same]
  cases ended : wholeLoop.ending with
  | atCr =>
      have fits := all (by rw [ended]; exact ValueEnd.noConfusion)
      let wholeBehind := { whole with p := whole.p + (passed + 1) }
      let restBehind := { rest with p := rest.p + passed }
      let after (amount : Nat) : Handling :=
        .data .headerValue 0 1 .headerAlmostDone wholeLoop.read
          (.count amount .headerAlmostDone wholeLoop.read
            (.next .headerAlmostDone wholeLoop.read))
      show Follows settings b (wholeBehind.perform settings (b :: data) (after (passed + 1)))
        (restBehind.perform settings data (after passed))
      rw [perform_data_count pieces wholeBehind (total ▸ fits) (total ▸ short),
        perform_data_count pieces restBehind fits short]
      apply perform_aligned pieces _ (disciplined_dataNext _ true .headerValue (.inl rfl))
      · exact behind
      · exact total
      · exact uncounted.linked.of_eq rfl rfl rfl rfl
  | atLf =>
      apply count_follows pieces _ uncounted (all (by rw [ended]; exact ValueEnd.noConfusion)) short
      exact ⟨.inl rfl, ParserFields.disciplined_headerAlmostDone _ lf true⟩
  | finish =>
      have some_passed := finished ended
      obtain ⟨passed, rfl⟩ := Nat.exists_eq_succ_of_ne_zero some_passed.ne'
      apply count_follows pieces _ uncounted
      · exact Nat.le_of_succ_le_succ fits
      · exact (Nat.le_succ _).trans_lt short
      · exact .inl rfl
  | badToken =>
      apply failed_follows
      · exact behind
      · exact uncounted.linked.apart
      · exact HttpErrno.not_answered_invalidHeaderToken
  | badLength =>
      apply failed_follows
      · exact behind
      · exact uncounted.linked.apart
      · exact HttpErrno.not_answered_invalidContentLength
  | impossible => exact .aborted

/-- The loop of a value ends behind the character that it passes. -/
theorem ValuePasses.ended (passes : ValuePasses fields b next read) (limit : Nat)
    (data : List Byte) :
    let loop := valueLoop limit (data.length + 1) fields.headerState fields (b :: data)
    let scan := valueScan next read data
    loop = scan ∨
      limit + loop.left.length ≤ data.length ∧ limit + scan.left.length ≤ data.length + 1 := by
  have spec := (valueLoop_spec limit (data.length + 1) fields.headerState fields (b :: data)
    (Nat.le_refl _)).2
  rw [passes.scan] at spec
  exact spec.imp_right fun beyond => ⟨Nat.le_of_lt_succ beyond.1, beyond.2⟩

/-- The loop of a value counts every character that it passes. -/
theorem passing_headerValue (settings : ParserSettings σ) :
    Passing settings .headerValue .headerValue
      (fun fields b stored => ∃ next read, ValuePasses fields b next read ∧
        stored = read.withHeaderState next)
      valuePassing where
  parsing := rfl
  resumes := rfl
  one fields b stored nread passed := by
    obtain ⟨next, read, passes, rfl⟩ := passed
    exact passes.one _
  nil _ := rfl
  goes fields b stored data passed := by
    obtain ⟨next, read, passes, rfl⟩ := passed
    have behind := valueScan_length next read data
    have same := (valueScan_withHeaderState next next read data).2.1
    have state : (read.withHeaderState next).headerState = next := rfl
    rw [valuePassing, valuePassing, passes.scan, state, same, List.length_cons]
    omega
  stops fields b data stops := by
    have left : (valueScan fields.headerState fields (b :: data)).left = b :: data := by
      rw [valueScan]
      split_ifs with isCr isLf bad
      · rfl
      · rfl
      · rfl
      · cases char : fields.valueChar fields.headerState b with
        | passes next read => exact absurd ⟨next, read, ⟨isCr, isLf, bad, char⟩, rfl⟩ (stops _)
        | fails read => rfl
        | impossible => rfl
    rw [valuePassing, left, Nat.sub_self, List.length_cons]
    exact Nat.min_eq_right (Nat.le_add_left 1 _)

theorem headerValue_fails (pieces : settings.TakesPieces)
    (passes : ValuePasses fields b next read) (whole : Execution σ)
    (counted : 0 < whole.nread)
    (overflow : settings.maxHeaderSize + 1 < whole.nread + valuePassing fields (b :: data))
    (short : whole.nread + data.length + 1 < 2 ^ 32) :
    (whole.perform settings (b :: data)
      (fields.headerValue settings.maxHeaderSize (b :: data))).Fails settings whole.user := by
  rw [valuePassing, passes.scan, List.length_cons] at overflow
  have behind := valueScan_length next read data
  rw [headerValue, List.length_cons]
  rcases passes.ended settings.maxHeaderSize data with same | ⟨beyond, -⟩
  · rw [same]
    apply valueEnded_fails pieces
    · omega
    · intro finish
      rw [valueScan_finish _ _ _ finish, List.length_nil] at overflow ⊢
      omega
    · omega
  · apply valueEnded_fails pieces
    · omega
    · intro finish
      omega
    · omega

/-- The loops over all that is left and over the rest of it end alike where they do not go
beyond the limit. -/
theorem headerValue_follows (pieces : settings.TakesPieces)
    (passes : ValuePasses fields b next read) (whole rest : Execution σ) (ch : Byte)
    (left : List Byte) (uncounted : Uncounted settings b (some .headerValue) whole rest)
    (few : whole.nread + valuePassing fields (b :: ch :: left) ≤ settings.maxHeaderSize + 1)
    (short : rest.nread + left.length + 1 < 2 ^ 32) :
    Follows settings b
      (whole.perform settings (b :: ch :: left)
        (fields.headerValue settings.maxHeaderSize (b :: ch :: left)))
      (rest.perform settings (ch :: left)
        ((read.withHeaderState next).headerValue settings.maxHeaderSize (ch :: left))) := by
  have wholeEnd := passes.ended settings.maxHeaderSize (ch :: left)
  have restEnd := (valueLoop_spec settings.maxHeaderSize (ch :: left).length next
    (read.withHeaderState next) (ch :: left) (Nat.le_refl _)).2
  have stored := valueScan_withHeaderState next next read (ch :: left)
  have scanned := valueScan_length next read (ch :: left)
  have finish := valueScan_finish next read (ch :: left)
  have unfinish := valueScan_unfinished next read (ch :: left)
  have state : (read.withHeaderState next).headerState = next := rfl
  have counted := uncounted.counted
  have nread := uncounted.nread
  rw [valuePassing, passes.scan] at few
  rw [headerValue, headerValue, state, List.length_cons]
  revert wholeEnd restEnd stored scanned finish unfinish few
  generalize valueLoop _ _ fields.headerState fields _ = wholeLoop
  generalize valueLoop _ _ next (read.withHeaderState next) _ = restLoop
  generalize valueScan next (read.withHeaderState next) _ = restScan
  generalize valueScan next read _ = scan
  rintro few wholeEnd restEnd ⟨ending, leftSame, readSame⟩ scanned finish unfinish
  rw [leftSame] at restEnd
  simp only [List.length_cons] at wholeEnd restEnd scanned few ⊢
  obtain rfl : wholeLoop = scan := wholeEnd.resolve_right fun beyond => by omega
  obtain rfl : restLoop = restScan := restEnd.resolve_right fun beyond => by omega
  rw [leftSame, Nat.sub_add_comm scanned]
  apply valueEnded_follows pieces uncounted ending readSame
  · intro finished
    rw [finish finished, List.length_nil]
    exact Nat.succ_pos _
  · omega
  · intro unfinished
    have some_left := unfinish unfinished
    omega
  · omega

end Values

theorem splits_headerValue (pieces : settings.TakesPieces) (ok : parser.httpErrno = .ok)
    (some_data : data ≠ []) (state : parser.state = .headerValue)
    (short : parser.nread + data.length + 2 < 2 ^ 32) : Splits settings parser b data user := by
  by_cases passes : ∃ next read, ValuePasses parser.fields b next read
  · obtain ⟨next, read, passes⟩ := passes
    apply splits_of_counted pieces ok some_data (state ▸ passing_headerValue settings)
      ⟨next, read, passes, rfl⟩ short
    · intro whole counted many fewer
      rw [state]
      exact headerValue_fails pieces passes whole counted many fewer
    · rintro whole rest ch left uncounted rfl few fewer
      rw [state]
      exact headerValue_follows pieces passes whole rest ch left uncounted few fewer
  · have stops : ∀ next read, ¬ValuePasses parser.fields b next read :=
      fun next read char => passes ⟨next, read, char⟩
    apply splits_of_handle pieces ok some_data
    · intro nread
      rw [state]
      exact (headerValue_stops stops _ data).1
    · intro nread
      rw [state]
      exact (headerValue_stops stops _ []).2

/-! ## Every state -/

/-- The parser does with the first character what it does with it alone, and then with the
rest what it does when it is started on them. -/
theorem splits (pieces : settings.TakesPieces) (ok : parser.httpErrno = .ok)
    (some_data : data ≠ []) (short : parser.nread + data.length + 2 < 2 ^ 32) :
    Splits settings parser b data user := by
  by_cases near : parser.state.looksAhead = false
  · exact splits_near pieces ok some_data near
  · cases state : parser.state
    case headerField => exact splits_headerField pieces ok some_data state short
    case headerValue => exact splits_headerValue pieces ok some_data state short
    case bodyIdentity => exact splits_bodyIdentity pieces ok some_data state
    case bodyIdentityEof => exact splits_bodyIdentityEof pieces ok some_data state
    case chunkData => exact splits_chunkData pieces ok some_data state
    all_goals
      rw [state] at near
      exact absurd rfl near

end HttpParser

end ReactiveToolbox.Http
