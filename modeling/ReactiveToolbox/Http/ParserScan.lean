import ReactiveToolbox.Http.HttpParserExecute

/-!
# The loops over headers, one character after another

The loops of `s_header_field` and `s_header_value` go over many characters at once where
nothing depends on them.  Here are the same loops with one character at a time.  The one
over fields agrees with it always; the one over values as long as it does not reach the
limit, behind which it steps over a character that it has not looked at.
-/

namespace ReactiveToolbox.Http

open ReactiveToolbox.Io

namespace ParserFields

/-! ## Fields -/

/-- The loop of `s_header_field`, one character at a time. -/
def fieldScan : ParserFields → List Byte → Option (ParserFields × List Byte)
  | fields, [] => some (fields, [])
  | fields, ch :: rest =>
      if token ch = 0 then some (fields, ch :: rest)
      else
        match fields.fieldChar ch (token ch) with
        | none => none
        | some fields => fieldScan fields rest

variable {fields : ParserFields}

theorem fieldChar_general (general : fields.headerState = .general) (ch c : Byte) :
    fields.fieldChar ch c = some fields := by
  rw [fieldChar, general]

/-- The general state goes over tokens without a change. -/
theorem fieldScan_run (general : fields.headerState = .general) (rest : List Byte)
    (amount : Nat) :
    fieldScan fields
        (rest.drop ((rest.take amount).takeWhile fun ch => token ch ≠ 0).length) =
      fieldScan fields rest := by
  induction rest generalizing amount with
  | nil => simp
  | cons ch rest continued =>
      cases amount with
      | zero => rfl
      | succ amount =>
          by_cases stops : token ch = 0
          · simp [stops]
          · rw [List.take_succ_cons, List.takeWhile_cons_of_pos (by simpa using stops),
              List.length_cons, List.drop_succ_cons, continued amount, fieldScan, if_neg stops,
              fieldChar_general general]

/-- The loop of `s_header_field` is the one over single characters. -/
theorem fieldLoop_eq (limit fuel : Nat) (fields : ParserFields) (left : List Byte)
    (enough : left.length ≤ fuel) :
    fieldLoop limit fuel fields left = fieldScan fields left := by
  induction fuel generalizing fields left with
  | zero =>
      obtain rfl := List.length_eq_zero_iff.mp (Nat.le_zero.mp enough)
      rfl
  | succ fuel continued =>
      cases left with
      | nil => rfl
      | cons ch rest =>
          have short : rest.length ≤ fuel := Nat.le_of_succ_le_succ enough
          rw [fieldLoop, fieldScan]
          split
          · rfl
          · split
            · rename_i general
              rw [continued _ _ ((List.length_drop.trans_le (Nat.sub_le ..)).trans short), fieldRun,
                fieldScan_run general, fieldChar_general general]
            · cases fields.fieldChar ch (token ch) with
              | none => rfl
              | some fields => exact continued fields rest short

/-- What is left is no more than there was. -/
theorem fieldScan_length {left : List Byte} {read : ParserFields} {stop : List Byte}
    (scanned : fieldScan fields left = some (read, stop)) : stop.length ≤ left.length := by
  induction left generalizing fields with
  | nil =>
      obtain ⟨-, rfl⟩ := Prod.mk.inj (Option.some.inj scanned)
      exact Nat.le_refl 0
  | cons ch rest continued =>
      rw [fieldScan] at scanned
      split at scanned
      · obtain ⟨-, rfl⟩ := Prod.mk.inj (Option.some.inj scanned)
        exact Nat.le_refl _
      · split at scanned
        · cases scanned
        · exact (continued scanned).trans (Nat.le_succ _)

/-- How many characters of a field the loop passes, with the one that it stops at. -/
def fieldPassing : ParserFields → List Byte → Nat
  | _, [] => 0
  | fields, ch :: rest =>
      if token ch = 0 then 1
      else
        match fields.fieldChar ch (token ch) with
        | none => 1
        | some read => fieldPassing read rest + 1

/-- The loop has passed what is not left. -/
theorem fieldScan_passing {left : List Byte} {read : ParserFields} {stop : List Byte}
    (scanned : fieldScan fields left = some (read, stop)) :
    fieldPassing fields left = left.length - (stop.length - 1) := by
  induction left generalizing fields with
  | nil =>
      obtain ⟨-, rfl⟩ := Prod.mk.inj (Option.some.inj scanned)
      rfl
  | cons ch rest continued =>
      rw [fieldScan] at scanned
      rw [fieldPassing, List.length_cons]
      split_ifs at scanned ⊢
      · obtain ⟨-, rfl⟩ := Prod.mk.inj (Option.some.inj scanned)
        rw [List.length_cons]
        omega
      · cases char : fields.fieldChar ch (token ch) with
        | none =>
            rw [char] at scanned
            cases scanned
        | some next =>
            rw [char] at scanned
            have few := fieldScan_length scanned
            dsimp only
            rw [continued scanned]
            omega

/-! ## Values -/

/-- The loop of `s_header_value`, one character at a time. -/
def valueScan : HeaderState → ParserFields → List Byte → ValueLoop
  | headerState, fields, [] => ⟨.finish, headerState, fields, []⟩
  | headerState, fields, ch :: rest =>
      if ch = cr then ⟨.atCr, headerState, fields, ch :: rest⟩
      else if ch = lf then ⟨.atLf, headerState, fields, ch :: rest⟩
      else if !fields.lenientHttpHeaders && !isHeaderChar ch then
        ⟨.badToken, headerState, fields, ch :: rest⟩
      else
        match fields.valueChar headerState ch with
        | .passes headerState fields => valueScan headerState fields rest
        | .fails fields => ⟨.badLength, headerState, fields, ch :: rest⟩
        | .impossible => ⟨.impossible, headerState, fields, ch :: rest⟩

theorem valueChar_general (fields : ParserFields) (ch : Byte) :
    fields.valueChar .general ch = .passes .general fields :=
  rfl

/-- The loop is at the end only where nothing is left. -/
theorem valueScan_finish (headerState : HeaderState) (fields : ParserFields)
    (left : List Byte) (finish : (valueScan headerState fields left).ending = .finish) :
    (valueScan headerState fields left).left = [] := by
  induction left generalizing headerState fields with
  | nil => rfl
  | cons ch rest continued =>
      rw [valueScan] at finish ⊢
      split_ifs at finish ⊢
      cases char : fields.valueChar headerState ch with
      | passes next read =>
          rw [char] at finish
          exact continued next read finish
      | fails read =>
          rw [char] at finish
          cases finish
      | impossible =>
          rw [char] at finish
          cases finish

/-- Elsewhere it stops at a character. -/
theorem valueScan_unfinished (headerState : HeaderState) (fields : ParserFields)
    (left : List Byte) (unfinished : (valueScan headerState fields left).ending ≠ .finish) :
    0 < (valueScan headerState fields left).left.length := by
  induction left generalizing headerState fields with
  | nil => exact absurd rfl unfinished
  | cons ch rest continued =>
      rw [valueScan] at unfinished ⊢
      split_ifs at unfinished ⊢
      · exact Nat.succ_pos _
      · exact Nat.succ_pos _
      · exact Nat.succ_pos _
      · cases char : fields.valueChar headerState ch with
        | passes next read =>
            rw [char] at unfinished
            exact continued next read unfinished
        | fails read => exact Nat.succ_pos _
        | impossible => exact Nat.succ_pos _

theorem valueScan_length (headerState : HeaderState) (fields : ParserFields)
    (left : List Byte) : (valueScan headerState fields left).left.length ≤ left.length := by
  induction left generalizing headerState fields with
  | nil => exact Nat.le_refl 0
  | cons ch rest continued =>
      rw [valueScan]
      split
      · exact Nat.le_refl _
      · split
        · exact Nat.le_refl _
        · split
          · exact Nat.le_refl _
          · split
            · exact (continued _ _).trans (Nat.le_succ _)
            · exact Nat.le_refl _
            · exact Nat.le_refl _

/-- How many characters of a value the loop passes, with the one that it stops at. -/
def valuePassing (fields : ParserFields) (left : List Byte) : Nat :=
  min left.length
    (left.length - (valueScan fields.headerState fields left).left.length + 1)

/--
The general state of a value either goes on where single characters would bring it, or has
gone over as many as the limit says and one more, of which the single characters would
have gone over as many as the limit says.
-/
theorem valueRun_spec (limit : Nat) (fields : ParserFields) (left : List Byte) :
    let run := valueRun fields.lenientHttpHeaders limit left
    run.2.length ≤ left.length ∧
      (valueScan .general fields left =
          (if run.1 then valueScan .general fields run.2
            else ⟨.badToken, .general, fields, run.2⟩) ∨
        run.1 = true ∧ limit + run.2.length + 1 = left.length ∧
          (valueScan .general fields left).left.length + limit ≤ left.length) := by
  induction left generalizing limit with
  | nil =>
      have passed : valueRun fields.lenientHttpHeaders limit [] = (true, []) := by
        cases limit <;> rfl
      rw [passed]
      exact ⟨Nat.le_refl 0, .inl rfl⟩
  | cons ch rest continued =>
      cases limit with
      | zero =>
          refine ⟨Nat.le_succ _, .inr ⟨rfl, congrArg (· + 1) (Nat.zero_add _), ?_⟩⟩
          exact valueScan_length .general fields (ch :: rest)
      | succ limit =>
          rw [valueRun]
          split
          · exact ⟨Nat.le_refl _, .inl rfl⟩
          · rename_i stops
            rw [not_or] at stops
            split
            · rename_i bad
              refine ⟨Nat.le_refl _, .inl ?_⟩
              rw [valueScan, if_neg stops.1, if_neg stops.2, if_pos bad]
              rfl
            · rename_i good
              have scanned : valueScan .general fields (ch :: rest) =
                  valueScan .general fields rest := by
                rw [valueScan, if_neg stops.1, if_neg stops.2, if_neg good, valueChar_general]
              obtain ⟨shorter, same | ⟨ok, passed, most⟩⟩ := continued limit
              · exact ⟨shorter.trans (Nat.le_succ _), .inl (scanned.trans same)⟩
              · refine ⟨shorter.trans (Nat.le_succ _), .inr ⟨ok, ?_, ?_⟩⟩
                · rw [List.length_cons, ← passed]
                  omega
                · rw [scanned, List.length_cons]
                  omega

/-- A character that is one of a value is gone over. -/
theorem valueRun_length {ch : Byte} (stops : ¬(ch = cr ∨ ch = lf))
    (good : ¬(!fields.lenientHttpHeaders && !isHeaderChar ch)) (limit : Nat)
    (rest : List Byte) :
    (valueRun fields.lenientHttpHeaders limit (ch :: rest)).2.length ≤ rest.length := by
  cases limit with
  | zero => exact Nat.le_refl _
  | succ limit =>
      rw [valueRun, if_neg stops, if_neg good]
      exact (valueRun_spec limit fields rest).1

/-- The loop of `s_header_value` is the one over single characters, or both reach the limit. -/
theorem valueLoop_spec (limit fuel : Nat) (headerState : HeaderState) (fields : ParserFields)
    (left : List Byte) (enough : left.length ≤ fuel) :
    let loop := valueLoop limit fuel headerState fields left
    let scan := valueScan headerState fields left
    loop.left.length ≤ left.length ∧
      (loop = scan ∨
        limit + loop.left.length < left.length ∧ limit + scan.left.length ≤ left.length) := by
  induction fuel generalizing headerState fields left with
  | zero =>
      obtain rfl := List.length_eq_zero_iff.mp (Nat.le_zero.mp enough)
      exact ⟨Nat.le_refl 0, .inl rfl⟩
  | succ fuel continued =>
      cases left with
      | nil => exact ⟨Nat.le_refl 0, .inl rfl⟩
      | cons ch rest =>
          have short : rest.length ≤ fuel := Nat.le_of_succ_le_succ enough
          rw [valueLoop]
          split
          · rename_i stops
            exact ⟨Nat.le_refl _, .inl (by rw [valueScan, if_pos stops])⟩
          · rename_i notCr
            split
            · rename_i stops
              exact ⟨Nat.le_refl _, .inl (by rw [valueScan, if_neg notCr, if_pos stops])⟩
            · rename_i notLf
              split
              · rename_i bad
                refine ⟨Nat.le_refl _, .inl ?_⟩
                rw [valueScan, if_neg notCr, if_neg notLf, if_pos bad]
              · rename_i good
                have scanned : valueScan headerState fields (ch :: rest) =
                    match fields.valueChar headerState ch with
                    | .passes headerState fields => valueScan headerState fields rest
                    | .fails fields => ⟨.badLength, headerState, fields, ch :: rest⟩
                    | .impossible => ⟨.impossible, headerState, fields, ch :: rest⟩ := by
                  rw [valueScan, if_neg notCr, if_neg notLf, if_neg good]
                split
                · rename_i general
                  subst general
                  have run := valueRun_spec limit fields (ch :: rest)
                  have short := (valueRun_length (not_or.mpr ⟨notCr, notLf⟩) good limit rest).trans
                    short
                  revert run short
                  generalize valueRun fields.lenientHttpHeaders limit (ch :: rest) = run
                  obtain ⟨ok, next⟩ := run
                  rintro ⟨shorter, same | ⟨rfl, passed, most⟩⟩ short
                  · cases ok with
                    | false => exact ⟨shorter, .inl same.symm⟩
                    | true =>
                        obtain ⟨least, equal | ⟨fewer, scanned⟩⟩ :=
                          continued .general fields next short
                        · exact ⟨least.trans shorter, .inl (equal.trans same.symm)⟩
                        · refine ⟨least.trans shorter, .inr ⟨fewer.trans_le shorter, ?_⟩⟩
                          rw [same]
                          exact scanned.trans shorter
                  · obtain ⟨least, -⟩ := continued .general fields next short
                    dsimp only at passed least ⊢
                    refine ⟨least.trans shorter, .inr ⟨?_, ?_⟩⟩
                    · omega
                    · omega
                · dsimp only
                  rw [scanned]
                  cases fields.valueChar headerState ch with
                  | passes headerState fields =>
                      obtain ⟨shorter, same | ⟨most, least⟩⟩ :=
                        continued headerState fields rest short
                      · exact ⟨shorter.trans (Nat.le_succ _), .inl same⟩
                      · refine ⟨shorter.trans (Nat.le_succ _), .inr ⟨?_, ?_⟩⟩
                        · exact most.trans (Nat.lt_succ_self _)
                        · exact least.trans (Nat.le_succ _)
                  | fails fields => exact ⟨Nat.le_refl _, .inl rfl⟩
                  | impossible => exact ⟨Nat.le_refl _, .inl rfl⟩

/-- Another state of headers stored in the fields of a value that goes on. -/
def ValueChar.stored (other : HeaderState) : ValueChar → ValueChar
  | .passes next read => .passes next (read.withHeaderState other)
  | .fails read => .fails read
  | .impossible => .impossible

theorem contentDigit_withHeaderState (other : HeaderState) (ch : Byte) :
    (fields.withHeaderState other).contentDigit ch =
      (fields.contentDigit ch).stored other := by
  simp only [contentDigit, apply_ite (ValueChar.stored other)]
  rfl

theorem tokenEnd_withHeaderState (headerState other : HeaderState) (flags : ParserFlags)
    (ch : Byte) :
    (fields.withHeaderState other).tokenEnd headerState flags ch =
      (fields.tokenEnd headerState flags ch).stored other := by
  simp only [tokenEnd, apply_ite (ValueChar.stored other)]
  rfl

/-- The state of headers that is stored in the fields says nothing in the loop. -/
theorem valueChar_withHeaderState (headerState other : HeaderState) (ch : Byte) :
    (fields.withHeaderState other).valueChar headerState ch =
      (fields.valueChar headerState ch).stored other := by
  cases headerState <;>
    simp only [valueChar, contentDigit_withHeaderState, apply_ite (ValueChar.stored other)] <;>
    first
    | rfl
    | exact tokenEnd_withHeaderState _ other _ ch

theorem valueScan_withHeaderState (headerState other : HeaderState) (fields : ParserFields)
    (left : List Byte) :
    let scan := valueScan headerState fields left
    let scanned := valueScan headerState (fields.withHeaderState other) left
    scanned.ending = scan.ending ∧ scanned.left = scan.left ∧ scanned.read = scan.read := by
  induction left generalizing headerState fields with
  | nil => exact ⟨rfl, rfl, rfl⟩
  | cons ch rest continued =>
      have lenient : (fields.withHeaderState other).lenientHttpHeaders =
          fields.lenientHttpHeaders :=
        rfl
      rw [valueScan, valueScan, valueChar_withHeaderState, lenient]
      split_ifs
      · exact ⟨rfl, rfl, rfl⟩
      · exact ⟨rfl, rfl, rfl⟩
      · exact ⟨rfl, rfl, rfl⟩
      · cases fields.valueChar headerState ch with
        | passes next read => exact continued next read
        | fails read => exact ⟨rfl, rfl, rfl⟩
        | impossible => exact ⟨rfl, rfl, rfl⟩

end ParserFields

end ReactiveToolbox.Http
