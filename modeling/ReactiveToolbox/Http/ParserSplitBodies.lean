import ReactiveToolbox.Http.ParserSplit

/-!
# Bodies in pieces

A state that takes as much of a body as there is takes with the first character what an
execution on it alone takes, and from the others what the execution on the rest takes.
-/

namespace ReactiveToolbox.Http

open ReactiveToolbox.Io

universe u

variable {σ : Type u} {settings : ParserSettings σ}

namespace HttpParser

open Execution

variable {parser : HttpParser} {b : Byte} {data : List Byte} {user : σ}

/-- What is read of a body that has more than one character left. -/
theorem toRead_cons {fields : ParserFields} (more : 2 ≤ fields.contentLength.toNat) :
    fields.toRead (b :: data) = (fields.consumed 1).toRead data + 1 := by
  rw [ParserFields.toRead, ParserFields.toRead, ParserFields.consumed_one (Nat.le_of_succ_le more),
    List.length_cons]
  omega

theorem perform_takeBody {execution : Execution σ} (p : execution.p = 0)
    (mark : execution.mark = markAt 0 none) (fields : ParserFields) (left : List Byte)
    (after : ParserFields → Handling) :
    execution.perform settings data (fields.takeBody left after) =
      Execution.perform settings data (after (fields.consumed (fields.toRead left)))
        { execution with p := fields.toRead left - 1, mark := markAt 0 (some .body) } := by
  have marked : execution.setMark .body (some execution.p) =
      { execution with mark := markAt 0 (some .body) } := by
    rw [setMark, mark, p, update_markAt_none]
  rw [ParserFields.takeBody, perform, if_pos (by rw [mark, markAt_none]), marked, perform]
  simp only [p, Nat.zero_add]

/-- The rounds of a state that takes as much of a body as there is. -/
structure TakesBody (settings : ParserSettings σ) (state : ParserState)
    (guard : ParserFields → Prop) (after : ParserFields → Handling) : Prop where
  handled : ∀ (execution : Execution σ) (data : List Byte) (ch : Byte) (rest : List Byte),
    execution.state = state → data.drop execution.p = ch :: rest →
      guard execution.fields ∧
          execution.round settings data =
            execution.perform settings data (execution.fields.takeBody (ch :: rest) after) ∨
        ¬guard execution.fields ∧ execution.round settings data = .aborted
  disciplined : ∀ fields, (after fields).Disciplined true (some .body)
  some_left : ∀ fields, guard fields → 1 ≤ fields.contentLength.toNat
  guard_consumed : ∀ fields, guard fields → 2 ≤ fields.contentLength.toNat →
    guard (fields.consumed 1)
  continues : ∀ fields, fields.contentLength ≠ 0 → after fields = .next state fields
  resumes : resumed state = none

/-- What is read of a body, and what is read of it in the rest. -/
theorem takeBody_follows (pieces : settings.TakesPieces) {after : ParserFields → Handling}
    (disciplined : ∀ fields, (after fields).Disciplined true (some .body))
    {fields : ParserFields} (more : 2 ≤ fields.contentLength.toNat)
    (whole rest : Execution σ) (wholeP : whole.p = 0) (wholeMark : whole.mark = markAt 0 none)
    (restP : rest.p = 0) (restMark : rest.mark = markAt 0 none)
    (nread : whole.nread = rest.nread)
    (told : rest.user = (settings.data .body [b] whole.user).2) {ch : Byte} {left : List Byte} :
    Follows settings b
      (whole.perform settings (b :: ch :: left) (fields.takeBody (b :: ch :: left) after))
      (rest.perform settings (ch :: left)
        ((fields.consumed 1).takeBody (ch :: left) after)) := by
  rw [perform_takeBody wholeP wholeMark, perform_takeBody restP restMark, toRead_cons more,
    ParserFields.consumed_consumed, Nat.add_comm 1]
  have some_read : 1 ≤ (fields.consumed 1).toRead (ch :: left) := by
    rw [ParserFields.toRead, ParserFields.consumed_one (Nat.le_of_succ_le more), List.length_cons]
    omega
  rw [← perform_with _ { rest with
    p := (fields.consumed 1).toRead (ch :: left) - 1
    mark := markAt 0 (some .body) } whole.state whole.fields]
  apply perform_follows pieces _ (disciplined _)
  constructor
  · show (fields.consumed 1).toRead (ch :: left) + 1 - 1 = _
    rw [Nat.add_sub_cancel, Nat.sub_add_cancel some_read]
  · rfl
  · rfl
  · exact nread
  · exact .begun rfl rfl told

theorem splits_of_takeBody (pieces : settings.TakesPieces) (ok : parser.httpErrno = .ok)
    (some_data : data ≠ []) {guard : ParserFields → Prop} {after : ParserFields → Handling}
    (takes : TakesBody settings parser.state guard after)
    (more : parser.fields.contentLength.toNat ≠ 1) : Splits settings parser b data user := by
  have mark : (start parser user).mark = markAt 0 none := by
    show markAt 0 (resumed parser.state) = _
    rw [takes.resumes]
  rcases takes.handled (start parser user) [b] b [] rfl rfl with ⟨holds, one⟩ | ⟨fails, one⟩
  · have whole := ((takes.handled (start parser user) (b :: data) b data rfl rfl).resolve_right
      fun aborts => aborts.1 holds).2
    have most : 2 ≤ parser.fields.contentLength.toNat :=
      Nat.lt_of_le_of_ne (takes.some_left _ holds) more.symm
    have left : (parser.fields.consumed 1).contentLength ≠ 0 := by
      intro none_left
      have length := ParserFields.consumed_one (Nat.le_of_succ_le most)
      rw [none_left] at length
      simp at length
      omega
    have single : parser.fields.toRead [b] = 1 := by
      rw [ParserFields.toRead, List.length_singleton]
      omega
    have ran : (start parser user).round settings [b] =
        .running { start parser user with
          p := 1
          fields := parser.fields.consumed 1
          mark := markAt 0 (some .body) } := by
      rw [one, perform_takeBody rfl mark]
      show Execution.perform settings [b]
          (after (parser.fields.consumed (parser.fields.toRead [b])))
          { start parser user with
            p := parser.fields.toRead [b] - 1
            mark := markAt 0 (some .body) } = _
      rw [single, takes.continues _ left]
      rfl
    apply splits_of_ahead pieces ok some_data ran rfl rfl
    obtain ⟨ch, rest, rfl⟩ := List.exists_cons_of_ne_nil some_data
    let next := start (HttpParser.mk parser.state (parser.fields.consumed 1) parser.nread .ok)
      (settings.data .body [b] user).2
    have nextMark : next.mark = markAt 0 none := congrArg (markAt 0) takes.resumes
    have continued := ((takes.handled next (ch :: rest) ch rest rfl rfl).resolve_right
      fun aborts => aborts.1 (takes.guard_consumed _ holds most)).2
    rw [whole]
    refine Eq.mpr (congrArg (Follows settings b _) continued) ?_
    exact takeBody_follows pieces takes.disciplined most (start parser user) next rfl mark rfl
      nextMark rfl rfl
  · have whole := ((takes.handled (start parser user) (b :: data) b data rfl rfl).resolve_left
      fun handled => fails handled.1).2
    apply splits_of_still pieces ok some_data
    · rw [whole, one]
    · rw [one]
      trivial

theorem takesBody_bodyIdentity (settings : ParserSettings σ) :
    TakesBody settings .bodyIdentity (fun fields => BodyLength fields.contentLength)
      fun fields =>
        if fields.contentLength = 0 then .data .body 1 0 .messageDone fields fields.messageDone
        else .next .bodyIdentity fields where
  handled := by
    intro execution data ch rest state dropped
    rw [round_eq _ _ execution dropped, entered, state]
    simp only [ParserState.parsingHeader, Bool.false_eq_true, false_and, if_false, handle,
      ParserFields.bodyIdentity, perform, BodyLength, decide_eq_true_eq]
    by_cases valid : execution.fields.contentLength ≠ 0 ∧ execution.fields.contentLength ≠ ullongMax
    · exact .inl ⟨valid, if_pos valid⟩
    · exact .inr ⟨valid, if_neg valid⟩
  disciplined fields := fields.disciplined_bodyRead
  some_left _ valid := valid.some_left
  guard_consumed _ _ more := .consumed Nat.one_pos more
  continues _ left := if_neg left
  resumes := rfl

theorem takesBody_chunkData (settings : ParserSettings σ) :
    TakesBody settings .chunkData
      (fun fields => fields.flags.chunked ∧ BodyLength fields.contentLength)
      fun fields =>
        .next (if fields.contentLength = 0 then .chunkDataAlmostDone else .chunkData) fields where
  handled := by
    intro execution data ch rest state dropped
    rw [round_eq _ _ execution dropped, entered, state]
    simp only [ParserState.parsingHeader, Bool.false_eq_true, false_and, if_false, handle,
      ParserFields.chunkData, perform, BodyLength, decide_eq_true_eq]
    by_cases chunked : execution.fields.flags.chunked = true
    · by_cases valid :
          execution.fields.contentLength ≠ 0 ∧ execution.fields.contentLength ≠ ullongMax
      · exact .inl ⟨⟨chunked, valid⟩, by rw [if_pos chunked, if_pos valid]⟩
      · exact .inr ⟨fun holds => valid holds.2, by rw [if_pos chunked, if_neg valid]⟩
    · exact .inr ⟨fun holds => chunked holds.1, if_neg chunked⟩
  disciplined fields := fields.disciplined_chunkRead
  some_left _ holds := holds.2.some_left
  guard_consumed _ holds more := ⟨holds.1, .consumed Nat.one_pos more⟩
  continues _ left := by rw [if_neg left]
  resumes := rfl

/-- What is read of a body that has one character left. -/
theorem toRead_one {fields : ParserFields} (one : fields.contentLength.toNat = 1) :
    fields.toRead (b :: data) = 1 := by
  rw [ParserFields.toRead, one, List.length_cons]
  omega

theorem splits_bodyIdentity (pieces : settings.TakesPieces) (ok : parser.httpErrno = .ok)
    (some_data : data ≠ []) (state : parser.state = .bodyIdentity) :
    Splits settings parser b data user := by
  by_cases one : parser.fields.contentLength.toNat = 1
  · apply splits_of_handle pieces ok some_data
    · intro nread
      rw [state]
      simp only [handle, ParserFields.bodyIdentity, ParserFields.takeBody, toRead_one one]
    · intro nread
      rw [state]
      refine ⟨.inl rfl, .inr ?_, ?_⟩
      · rw [toRead_one one]
      · dsimp only
        rw [if_pos]
        · exact ⟨.inr (Nat.le_refl 1), ParserFields.disciplined_messageDone _ _⟩
        · apply UInt64.toNat_inj.mp
          rw [toRead_one one, ParserFields.consumed_one (Nat.le_of_eq one.symm), one]
          rfl
  · exact splits_of_takeBody pieces ok some_data (state ▸ takesBody_bodyIdentity settings) one

/-- Behind the last character of a chunk the text of it has been called back for, or is. -/
theorem chunkDataAlmostDone_follows (pieces : settings.TakesPieces) (whole rest : Execution σ)
    (wholeP : whole.p = 1) (wholeMark : whole.mark = markAt 0 (some .body)) (restP : rest.p = 0)
    (restMark : rest.mark = markAt 0 none) (wholeState : whole.state = .chunkDataAlmostDone)
    (restState : rest.state = .chunkDataAlmostDone) (fields : whole.fields = rest.fields)
    (nread : whole.nread = rest.nread)
    (told : rest.user = (settings.data .body [b] whole.user).2) {ch : Byte} {left : List Byte} :
    Follows settings b (whole.round settings (b :: ch :: left))
      (rest.round settings (ch :: left)) := by
  have wholeLeft : (b :: ch :: left).drop whole.p = ch :: left := by rw [wholeP]; rfl
  have restLeft : (ch :: left).drop rest.p = ch :: left := by rw [restP]; rfl
  rw [round_eq _ _ whole wholeLeft, round_eq _ _ rest restLeft, entered, entered, wholeState,
    restState, fields]
  simp only [ParserState.parsingHeader, Bool.false_eq_true, false_and, if_false, handle,
    ParserFields.chunkDataAlmostDone, perform]
  split_ifs
  · show Follows settings b (whole.failed .strict .chunkDataAlmostDone rest.fields)
      (rest.failed .strict .chunkDataAlmostDone rest.fields)
    apply failed_follows
    · exact wholeP.trans (congrArg (· + 1) restP.symm)
    · exact told ▸ settings.apart_data _ _ _
    · exact HttpErrno.not_answered_strict
  · have text : whole.marked (b :: ch :: left) 0 0 = [b] := by
      rw [marked, wholeP]
      rfl
    simp only [Handling.dataNext, perform]
    rw [callData_marked pieces (by rw [wholeMark, markAt_self]), text,
      callData_unmarked (by rw [restMark, markAt_none])]
    refine ⟨none, ?_, .inl rfl⟩
    constructor
    · exact congrArg (· + 1) (wholeP.trans (congrArg (· + 1) restP.symm))
    · rfl
    · rfl
    · exact nread
    · refine .later 0 ?_ restMark told.symm
      rw [setMark, wholeMark]
      exact update_markAt_some _ _
  · exact .aborted
  · exact .aborted

theorem splits_chunkData (pieces : settings.TakesPieces) (ok : parser.httpErrno = .ok)
    (some_data : data ≠ []) (state : parser.state = .chunkData) :
    Splits settings parser b data user := by
  have takes := takesBody_chunkData settings
  by_cases one : parser.fields.contentLength.toNat = 1
  · have zero : (parser.fields.consumed 1).contentLength = 0 := by
      apply UInt64.toNat_inj.mp
      rw [ParserFields.consumed_one (Nat.le_of_eq one.symm), one]
      rfl
    have mark : (start parser user).mark = markAt 0 none := by
      show markAt 0 (resumed parser.state) = _
      rw [state, takes.resumes]
    have ran : ∀ data : List Byte,
        parser.fields.flags.chunked ∧ BodyLength parser.fields.contentLength →
          (start parser user).round settings (b :: data) =
            .running { start parser user with
              p := 1
              state := .chunkDataAlmostDone
              fields := parser.fields.consumed 1
              mark := markAt 0 (some .body) } := by
      intro data holds
      have handled := (takes.handled (start parser user) (b :: data) b data state rfl).resolve_right
        fun aborts => aborts.1 holds
      rw [handled.2, perform_takeBody rfl mark]
      show Execution.perform settings (b :: data)
          (.next (if (parser.fields.consumed (parser.fields.toRead (b :: data))).contentLength = 0
              then .chunkDataAlmostDone else .chunkData)
            (parser.fields.consumed (parser.fields.toRead (b :: data))))
          { start parser user with
            p := parser.fields.toRead (b :: data) - 1
            mark := markAt 0 (some .body) } = _
      rw [toRead_one one, if_pos zero]
      rfl
    by_cases holds : parser.fields.flags.chunked ∧ BodyLength parser.fields.contentLength
    · apply splits_of_handed pieces ok some_data (ran data holds) (ran [] holds) rfl rfl
      obtain ⟨ch, rest, rfl⟩ := List.exists_cons_of_ne_nil some_data
      let one := { start parser user with
        p := 1
        state := .chunkDataAlmostDone
        fields := parser.fields.consumed 1
        mark := markAt 0 (some .body) }
      let next := start one.parser (settings.data .body [b] user).2
      exact chunkDataAlmostDone_follows pieces one next rfl rfl rfl rfl rfl rfl rfl rfl rfl
    · have aborts : ∀ data : List Byte,
          (start parser user).round settings (b :: data) = .aborted := fun data =>
        ((takes.handled (start parser user) (b :: data) b data state rfl).resolve_left
          fun handled => holds handled.1).2
      apply splits_of_still pieces ok some_data
      · rw [aborts, aborts]
      · rw [aborts]
        trivial
  · exact splits_of_takeBody pieces ok some_data (state ▸ takes) one

/-- A body that ends with the data is taken as it comes. -/
theorem round_bodyIdentityEof (execution : Execution σ) {ch : Byte} {rest : List Byte}
    (state : execution.state = .bodyIdentityEof) (p : execution.p = 0)
    (mark : execution.mark = markAt 0 none) :
    execution.round settings (ch :: rest) =
      .running { execution with p := rest.length + 1, mark := markAt 0 (some .body) } := by
  have dropped : (ch :: rest).drop execution.p = ch :: rest := by rw [p]; rfl
  have marked : execution.setMark .body (some execution.p) =
      { execution with mark := markAt 0 (some .body) } := by
    rw [setMark, mark, p, update_markAt_none]
  rw [round_eq _ _ execution dropped, entered, state]
  simp only [ParserState.parsingHeader, Bool.false_eq_true, false_and, if_false, handle,
    ParserFields.bodyIdentityEof, perform]
  rw [if_pos (by rw [mark, markAt_none]), marked]
  simp only [p, ← state, List.length_cons, Nat.add_sub_cancel, Nat.zero_add]

theorem splits_bodyIdentityEof (pieces : settings.TakesPieces) (ok : parser.httpErrno = .ok)
    (some_data : data ≠ []) (state : parser.state = .bodyIdentityEof) :
    Splits settings parser b data user := by
  have mark : (start parser user).mark = markAt 0 none := by
    show markAt 0 (resumed parser.state) = _
    rw [state]
    rfl
  apply splits_of_ahead pieces ok some_data
    (round_bodyIdentityEof (start parser user) state rfl mark) rfl rfl
  obtain ⟨ch, rest, rfl⟩ := List.exists_cons_of_ne_nil some_data
  let next := start (HttpParser.mk parser.state parser.fields parser.nread .ok)
    (settings.data .body [b] user).2
  have continued : next.round settings (ch :: rest) = _ :=
    round_bodyIdentityEof next state rfl mark
  rw [round_bodyIdentityEof (start parser user) state rfl mark]
  refine Eq.mpr (congrArg (Follows settings b _) continued) ?_
  refine ⟨some .body, ?_, .inr ⟨rfl, ?_, rfl⟩⟩
  · constructor
    · rfl
    · rfl
    · rfl
    · rfl
    · exact .begun rfl rfl rfl
  · show parser.state.inBody = true
    rw [state]
    rfl

end HttpParser

end ReactiveToolbox.Http
