import ReactiveToolbox.Http.ParserScan
import ReactiveToolbox.Http.ParserShift

/-!
# Data in pieces

Whatever the callbacks do with texts, as long as they do not mind that a text comes in
pieces: it is the same to give the parser its data at once and to give them in pieces.  The
argument goes over the first character.  An execution on all the data does with it what an
execution on it alone does, and then goes on as one that is started on the rest.
-/

namespace ReactiveToolbox.Http

open ReactiveToolbox.Io

universe u

variable {σ : Type u} {settings : ParserSettings σ}

namespace Execution

variable {b : Byte} {data : List Byte} {execution : Execution σ} {current : Option Piece}

/-! ## The first character -/

/-- What a handling that stays at the first character comes to. -/
def Stays : Outcome σ → Prop
  | .running execution =>
      execution.p = 1 ∧ execution.mark = markAt 0 (resumed execution.state)
  | .returned consumed parser _ => parser.httpErrno = .ok → consumed = 1
  | .aborted => True

theorem failed_stays {errno : HttpErrno} (error : errno ≠ .ok) (state : ParserState)
    (fields : ParserFields) : Stays (execution.failed errno state fields) :=
  fun ok => absurd ok error

/-- A handling that stays at the first character does not look at the others. -/
theorem perform_still (pieces : settings.TakesPieces) (handling : Handling)
    (disciplined : handling.Disciplined false current) (p : execution.p = 0)
    (mark : execution.mark = markAt 0 current) :
    execution.perform settings (b :: data) handling = execution.perform settings [b] handling ∧
      Stays (execution.perform settings [b] handling) := by
  induction handling generalizing current execution with
  | next state fields =>
      refine ⟨rfl, congrArg (· + 1) p, ?_⟩
      obtain rfl : current = resumed state := 
        disciplined.resolve_right fun body => Bool.false_ne_true body.1
      exact mark
  | fail errno state fields =>
      have error : errno ≠ .ok := fun ok => disciplined (ok ▸ .ok)
      exact ⟨rfl, failed_stays error state fields⟩
  | exit state fields => exact ⟨rfl, fun _ => congrArg (· + 1) p⟩
  | assert holds after continued =>
      cases holds with
      | false => exact ⟨rfl, trivial⟩
      | true => exact continued disciplined p mark
  | count amount state fields after continued =>
      rw [perform, perform]
      split
      · exact ⟨rfl, failed_stays (by simp) state fields⟩
      · exact continued disciplined p mark
  | resetNread after continued => exact continued disciplined p mark
  | mark piece after continued =>
      obtain ⟨suits, disciplined⟩ := disciplined
      rcases suits with rfl | rfl
      · rw [perform, perform, if_pos (by rw [mark, markAt_none])]
        refine continued disciplined p ?_
        rw [setMark, mark, p]
        exact update_markAt_none _ _ _
      · rw [perform, perform, if_neg (by rw [mark, markAt_self]; exact Option.some_ne_none _)]
        exact continued disciplined p mark
  | advance amount after continued =>
      obtain ⟨still, disciplined⟩ := disciplined
      obtain rfl : amount = 0 := still.resolve_left Bool.false_ne_true
      exact continued disciplined p mark
  | data piece more passed state fields after continued =>
      obtain ⟨few, disciplined⟩ := disciplined
      have few : more ≤ 1 := few.resolve_left Bool.false_ne_true
      rw [perform, perform]
      by_cases marked : current = some piece
      · subst marked
        rw [if_pos rfl] at disciplined
        have marked : execution.mark piece = some 0 := by rw [mark, markAt_self]
        have text : execution.marked (b :: data) 0 more = execution.marked [b] 0 more := by
          rw [Execution.marked, Execution.marked, p]
          rcases Nat.le_one_iff_eq_zero_or_eq_one.mp few with rfl | rfl
          · rfl
          · rfl
        rw [callData_marked pieces marked, callData_marked pieces marked, text]
        refine continued disciplined p ?_
        rw [setMark, mark]
        exact update_markAt_some _ _
      · rw [if_neg marked] at disciplined
        have unmarked : execution.mark piece = none := by rw [mark, markAt_ne marked]
        rw [callData_unmarked unmarked, callData_unmarked unmarked]
        exact continued disciplined p mark
  | notify notice passed state fields after continued =>
      obtain ⟨rfl, disciplined⟩ := disciplined
      rw [perform, perform]
      dsimp only [answered]
      split_ifs with stops
      · exact ⟨rfl, fun ok => absurd ok stops⟩
      · exact ⟨rfl, fun ok => absurd ok stops⟩
      · exact continued disciplined p mark
  | headersComplete state fields after continued =>
      obtain ⟨rfl, disciplined⟩ := disciplined
      rw [perform, perform]
      dsimp only [headersAnswered]
      split
      · exact ⟨rfl, failed_stays (by simp) _ _⟩
      · split
        · exact ⟨rfl, failed_stays (by simp) _ _⟩
        · exact continued _ (disciplined _) p mark

/-- A handling brings its own state and fields. -/
theorem perform_with (handling : Handling) (execution : Execution σ) (state : ParserState)
    (fields : ParserFields) :
    Execution.perform settings data handling
        { execution with state := state, fields := fields } =
      execution.perform settings data handling := by
  induction handling generalizing execution with
  | next state fields => rfl
  | fail errno state fields => rfl
  | exit state fields => rfl
  | assert holds after continued => rw [perform, perform, continued]
  | count amount state fields after continued =>
      rw [perform, perform]
      dsimp only
      split
      · rfl
      · exact continued { execution with nread := (execution.nread + amount) % 2 ^ 32 }
  | resetNread after continued => exact continued { execution with nread := 0, stored := 0 }
  | mark piece after continued =>
      rw [perform, perform]
      dsimp only
      split
      · exact continued (execution.setMark piece (some execution.p))
      · exact continued execution
  | advance amount after continued =>
      exact continued { execution with p := execution.p + amount }
  | data piece more passed state fields after continued => rfl
  | notify notice passed state fields after continued => rfl
  | headersComplete state fields after continued => rfl

/-! ## How far a loop gets -/

/-- A handling that goes on gets further. -/
theorem perform_progress (handling : Handling) {after : Execution σ}
    (ran : execution.perform settings data handling = .running after) :
    execution.p < after.p := by
  induction handling generalizing execution with
  | next state fields =>
      obtain rfl := Outcome.running.inj ran
      exact Nat.lt_succ_self _
  | fail errno state fields => cases ran
  | exit state fields => cases ran
  | assert holds after continued =>
      cases holds with
      | false => cases ran
      | true => exact (continued ran :)
  | count amount state fields after continued =>
      rw [perform] at ran
      split at ran
      · cases ran
      · exact (continued ran :)
  | resetNread after continued => exact (continued ran :)
  | mark piece after continued =>
      rw [perform] at ran
      split at ran
      · exact (continued ran :)
      · exact (continued ran :)
  | advance amount after continued => exact (Nat.le_add_right _ _).trans_lt (continued ran :)
  | data piece more passed state fields after continued =>
      rw [perform, callData] at ran
      split at ran
      · exact (continued ran :)
      · dsimp only [answered] at ran
        split at ran
        · cases ran
        · exact (continued ran :)
  | notify notice passed state fields after continued =>
      rw [perform] at ran
      dsimp only [answered] at ran
      split at ran
      · cases ran
      · exact (continued ran :)
  | headersComplete state fields after continued =>
      rw [perform] at ran
      dsimp only [headersAnswered] at ran
      split at ran
      · cases ran
      · split at ran
        · cases ran
        · exact (continued _ ran :)

theorem round_progress {after : Execution σ} (ran : execution.round settings data = .running after)
    (left : execution.p < data.length) : execution.p < after.p := by
  rw [round] at ran
  split at ran
  · rename_i none_left
    exact absurd (List.drop_eq_nil_iff.mp none_left) (Nat.not_le.mpr left)
  · dsimp only at ran
    split at ran
    · split at ran
      · cases ran
      · exact (perform_progress _ ran :)
    · exact (perform_progress _ ran :)

/-- More rounds than there are characters change nothing. -/
theorem loop_fuel {fuel more : Nat} (enough : data.length - execution.p ≤ fuel)
    (moreEnough : data.length - execution.p ≤ more) :
    execution.loop settings data fuel = execution.loop settings data more := by
  have at_end : ∀ (execution : Execution σ) (rounds : Nat), data.length ≤ execution.p →
      execution.loop settings data rounds = .running execution := by
    intro execution rounds passed
    induction rounds with
    | zero => rfl
    | succ rounds continued =>
        rw [loop, round, List.drop_eq_nil_of_le passed]
        split
        · rfl
        · exact continued
  induction fuel generalizing execution more with
  | zero =>
      have passed := Nat.sub_eq_zero_iff_le.mp (Nat.le_zero.mp enough)
      rw [at_end _ _ passed, at_end _ _ passed]
  | succ fuel continued =>
      rcases Nat.lt_or_ge execution.p data.length with left | passed
      · cases more with
        | zero =>
            have passed := Nat.sub_eq_zero_iff_le.mp (Nat.le_zero.mp moreEnough)
            exact absurd passed (Nat.not_le.mpr left)
        | succ more =>
            rw [loop, loop, if_neg left.ne, if_neg left.ne]
            cases ran : execution.round settings data with
            | running next =>
                have further := round_progress ran left
                exact continued (by omega) (by omega)
            | returned consumed parser user => rfl
            | aborted => rfl
      · rw [at_end _ _ passed, at_end _ _ passed]

/-- One round of a loop that has more than enough. -/
theorem loop_round (execution : Execution σ) {fuel : Nat}
    (enough : data.length - execution.p ≤ fuel)
    (left : execution.p < data.length) :
    execution.loop settings data fuel =
      (execution.round settings data).andThen fun next => next.loop settings data fuel := by
  rw [loop_fuel enough (enough.trans (Nat.le_succ fuel)), loop, if_neg left.ne]

/-! ## The end of the data -/

/-- The parser that an execution leaves behind. -/
def parser (execution : Execution σ) : HttpParser where
  state := execution.state
  fields := execution.fields
  nread := execution.nread
  httpErrno := .ok

theorem leftover_unmarked (mark : execution.mark = markAt 0 none) (state : ParserState)
    (fields : ParserFields) (remaining : List Piece) :
    execution.leftover settings data state fields remaining =
      .returned data.length { execution.parser with state := state, fields := fields }
        execution.user := by
  induction remaining generalizing execution with
  | nil => rfl
  | cons piece remaining continued =>
      rw [leftover, callData_unmarked (by rw [mark, markAt_none])]
      exact continued mark

/-- At the end there is a callback for the text that is marked. -/
theorem leftover_marked (pieces : settings.TakesPieces) {piece : Piece}
    (p : execution.p = data.length) (mark : execution.mark = markAt 0 (some piece))
    (remaining : List Piece) (listed : piece ∈ remaining) :
    execution.leftover settings data execution.state execution.fields remaining =
      .returned data.length execution.parser (settings.data piece data execution.user).2 := by
  induction remaining with
  | nil => exact absurd listed List.not_mem_nil
  | cons other remaining continued =>
      rw [leftover]
      by_cases same : piece = other
      · subst same
        have text : execution.marked data 0 0 = data := by
          rw [marked, p]
          exact List.take_length
        rw [callData_marked pieces (by rw [mark, markAt_self]), text]
        apply leftover_unmarked
        rw [setMark, mark]
        exact update_markAt_some _ _
      · rw [callData_unmarked (by rw [mark, markAt_ne fun equal => same (Option.some.inj equal)])]
        exact continued ((List.mem_cons.mp listed).resolve_left same)

/-- The callbacks' state after the text that is marked. -/
def flushed (settings : ParserSettings σ) (text : List Byte) (user : σ) : Option Piece → σ
  | none => user
  | some piece => (settings.data piece text user).2

theorem finish_eq (pieces : settings.TakesPieces) (p : execution.p = data.length)
    (mark : execution.mark = markAt 0 current) :
    execution.finish settings data =
      .returned data.length execution.parser
        (flushed settings data execution.user current) := by
  rw [finish, mark, if_pos (markAt_count _ _)]
  cases current with
  | none => exact leftover_unmarked mark _ _ _
  | some piece =>
      apply leftover_marked pieces p mark
      cases piece <;> simp [Execution.pieces]

end Execution

/-! ## One character and the rest -/

theorem Outcome.andThen_assoc (outcome : Outcome σ) (first second : Execution σ → Outcome σ) :
    (outcome.andThen first).andThen second =
      outcome.andThen fun execution => (first execution).andThen second := by
  cases outcome <;> rfl

/-- An execution that the parser has ended itself with an error; of what its callbacks have been
told since `user`, only texts may have changed their state. -/
def Outcome.Fails (settings : ParserSettings σ) (user : σ) : Outcome σ → Prop
  | .running _ => False
  | .returned _ parser told => ¬parser.httpErrno.Answered ∧ settings.TextsApart user told
  | .aborted => True

theorem Outcome.Fails.andThen {user : σ} {outcome : Outcome σ}
    (fails : outcome.Fails settings user) (go : Execution σ → Outcome σ) :
    (outcome.andThen go).Fails settings user := by
  cases outcome with
  | running execution => exact fails.elim
  | returned consumed parser told => exact fails
  | aborted => trivial

namespace HttpParser

open Execution

variable {parser : HttpParser} {b : Byte} {data : List Byte} {user : σ}

theorem execute_eq (ok : parser.httpErrno = .ok) (some_data : data ≠ []) :
    parser.execute settings data user =
      ((start parser user).loop settings data data.length).andThen
        (finish settings data) := by
  rw [execute, if_neg (not_not_intro ok),
    if_neg fun none => some_data (List.length_eq_zero_iff.mp none)]

theorem execute_cons (ok : parser.httpErrno = .ok) :
    parser.execute settings (b :: data) user =
      ((start parser user).round settings (b :: data)).andThen fun next =>
        (next.loop settings (b :: data) data.length).andThen (finish settings (b :: data)) := by
  have some_left : (start parser user).p ≠ (b :: data).length := (Nat.succ_ne_zero _).symm
  rw [execute_eq ok (List.cons_ne_nil b data), List.length_cons, loop, if_neg some_left,
    Outcome.andThen_assoc]

/-- Given one after another, the characters become too many for a header. -/
inductive Overflows (settings : ParserSettings σ) : HttpParser → List Byte → σ → Prop where
  | here {parser next : HttpParser} {b : Byte} {data : List Byte} {user : σ} {consumed : Nat}
      (ran : parser.execute settings [b] user = .returned consumed next user)
      (overflow : next.httpErrno = .headerOverflow) : Overflows settings parser (b :: data) user
  | later {parser next : HttpParser} {b : Byte} {data : List Byte} {user told : σ}
      (ran : parser.execute settings [b] user = .returned 1 next told)
      (ok : next.httpErrno = .ok) (apart : settings.TextsApart user told)
      (overflows : Overflows settings next data told) :
      Overflows settings parser (b :: data) user

/--
An execution on all the data stops where the one on their first character stops.  Otherwise it
ends with the first character, or as an execution on the rest does, or it fails with a header
that is too large.
-/
def Splits (settings : ParserSettings σ) (parser : HttpParser) (b : Byte) (data : List Byte)
    (user : σ) : Prop :=
  match parser.execute settings [b] user with
  | .returned consumed next left =>
      if next.httpErrno = .ok then
        consumed = 1 ∧
          (parser.execute settings (b :: data) user = .returned 1 next left ∨
            Follows settings b (parser.execute settings (b :: data) user)
              (next.execute settings data left) ∨
            (parser.execute settings (b :: data) user).Fails settings user ∧
              Overflows settings parser (b :: data) user)
      else parser.execute settings (b :: data) user = .returned consumed next left
  | outcome => parser.execute settings (b :: data) user = outcome

/-- What an execution on the first character leaves behind when its round goes on. -/
theorem execute_one (pieces : settings.TakesPieces) (ok : parser.httpErrno = .ok)
    {one : Execution σ} {current : Option Piece}
    (ran : (start parser user).round settings [b] = .running one) (p : one.p = 1)
    (mark : one.mark = markAt 0 current) :
    parser.execute settings [b] user =
      .returned 1 one.parser (flushed settings [b] one.user current) := by
  rw [execute_cons ok, ran]
  exact finish_eq pieces p mark

/-- The round goes on in the same way for all the data, which are then as far as their rest. -/
theorem splits_of_round (pieces : settings.TakesPieces) (ok : parser.httpErrno = .ok)
    (some_data : data ≠ [])
    {one : Execution σ} {current : Option Piece}
    (ran : (start parser user).round settings [b] = .running one) (p : one.p = 1)
    (mark : one.mark = markAt 0 current)
    (follows : Follows settings b
      (((start parser user).round settings (b :: data)).andThen fun next =>
        next.loop settings (b :: data) data.length)
      ((start one.parser (flushed settings [b] one.user current)).loop settings data
        data.length)) :
    Splits settings parser b data user := by
  rw [Splits, execute_one pieces ok ran p mark]
  refine (if_pos rfl).mpr ⟨rfl, .inr (.inl ?_)⟩
  rw [execute_cons ok, ← Outcome.andThen_assoc, execute_eq rfl some_data]
  apply follows.andThen
  intro next whole rest shifted suits
  exact finish_follows pieces shifted

/-- The execution behind the first character, and the one that resumes on the rest. -/
theorem shifted_resumed {one : Execution σ} {current : Option Piece} (p : one.p = 1)
    (mark : one.mark = markAt 0 current) (resumes : resumed one.state = current) :
    Shifted settings b current one
      (start one.parser (flushed settings [b] one.user current)) where
  p := p
  state := rfl
  fields := rfl
  nread := rfl
  linked := by
    have restMark : markAt 0 (resumed one.state) = markAt 0 current := by rw [resumes]
    cases current with
    | none => exact .later 0 mark restMark rfl
    | some piece => exact .begun mark restMark rfl

/-- The first character is handled without a look at the others. -/
theorem splits_of_still (pieces : settings.TakesPieces) (ok : parser.httpErrno = .ok)
    (some_data : data ≠ [])
    (same : (start parser user).round settings (b :: data) =
      (start parser user).round settings [b])
    (stays : Stays ((start parser user).round settings [b])) :
    Splits settings parser b data user := by
  cases ran : (start parser user).round settings [b] with
  | running one =>
      rw [ran] at stays
      obtain ⟨p, mark⟩ := stays
      apply splits_of_round pieces ok some_data ran p mark
      rw [same, ran]
      exact loop_follows pieces _ (shifted_resumed p mark rfl) (.inl rfl)
  | returned consumed next left =>
      rw [ran] at stays
      rw [Splits, execute_cons ok, execute_cons ok, same, ran]
      dsimp only [Outcome.andThen]
      split_ifs with ended
      · obtain rfl := stays ended
        exact ⟨rfl, .inl rfl⟩
      · rfl
  | aborted =>
      rw [Splits, execute_cons ok, execute_cons ok, same, ran]
      rfl

/-- The round over all the data does what the first round over their rest does. -/
theorem splits_of_ahead (pieces : settings.TakesPieces) (ok : parser.httpErrno = .ok)
    (some_data : data ≠ []) {one : Execution σ} {current : Option Piece}
    (ran : (start parser user).round settings [b] = .running one) (p : one.p = 1)
    (mark : one.mark = markAt 0 current)
    (follows : Follows settings b ((start parser user).round settings (b :: data))
      ((start one.parser (flushed settings [b] one.user current)).round settings data)) :
    Splits settings parser b data user := by
  apply splits_of_round pieces ok some_data ran p mark
  have left : 0 < data.length := List.length_pos_of_ne_nil some_data
  rw [loop_round (start _ _) (Nat.sub_le _ _) left]
  apply follows.andThen
  intro next whole rest shifted suits
  exact loop_follows pieces _ shifted suits

/-- The second round over all the data does what the first one over their rest does. -/
theorem splits_of_handed (pieces : settings.TakesPieces) (ok : parser.httpErrno = .ok)
    (some_data : data ≠ []) {one : Execution σ} {current : Option Piece}
    (same : (start parser user).round settings (b :: data) = .running one)
    (ran : (start parser user).round settings [b] = .running one) (p : one.p = 1)
    (mark : one.mark = markAt 0 current)
    (follows : Follows settings b (one.round settings (b :: data))
      ((start one.parser (flushed settings [b] one.user current)).round settings data)) :
    Splits settings parser b data user := by
  apply splits_of_round pieces ok some_data ran p mark
  have left : 0 < data.length := List.length_pos_of_ne_nil some_data
  rw [same, Outcome.andThen, loop_round (start _ _) (Nat.sub_le _ _) left,
    loop_round one (by rw [p]; exact Nat.le_refl _) (by rw [p]; exact Nat.succ_lt_succ left)]
  apply follows.andThen
  intro next whole rest shifted suits
  exact loop_follows pieces _ shifted suits

/-! ## The first round -/

/-- The variables after `COUNT_HEADER_SIZE(1)`. -/
def entered (execution : Execution σ) : Execution σ :=
  if execution.state.parsingHeader then
    { execution with nread := (execution.nread + 1) % 2 ^ 32 }
  else execution

theorem entered_p (execution : Execution σ) : (entered execution).p = execution.p := by
  unfold entered
  split <;> rfl

theorem entered_mark (execution : Execution σ) : (entered execution).mark = execution.mark := by
  unfold entered
  split <;> rfl

theorem round_eq (settings : ParserSettings σ) (data : List Byte) (execution : Execution σ)
    {ch : Byte} {rest : List Byte}
    (dropped : data.drop execution.p = ch :: rest) :
    execution.round settings data =
      if execution.state.parsingHeader ∧
          (execution.nread + 1) % 2 ^ 32 > settings.maxHeaderSize then
        (entered execution).failed .headerOverflow execution.state execution.fields
      else
        (entered execution).perform settings data
          (handle settings.maxHeaderSize execution.state (entered execution).nread
            execution.fields ch rest) := by
  rw [Execution.round, dropped]
  cases parsing : execution.state.parsingHeader with
  | false => simp [entered, parsing]
  | true => simp [entered, parsing]

/-- A handling of the first character that is none of the others. -/
theorem splits_of_handle (pieces : settings.TakesPieces) (ok : parser.httpErrno = .ok)
    (some_data : data ≠ [])
    (same : ∀ nread, handle settings.maxHeaderSize parser.state nread parser.fields b data =
      handle settings.maxHeaderSize parser.state nread parser.fields b [])
    (disciplined : ∀ nread,
      (handle settings.maxHeaderSize parser.state nread parser.fields b []).Disciplined false
        (resumed parser.state)) :
    Splits settings parser b data user := by
  have still := @perform_still _ settings b data (entered (start parser user)) _ pieces _
    (disciplined (entered (start parser user)).nread) (entered_p _) (entered_mark _)
  have whole := round_eq settings (b :: data) (start parser user) rfl
  have one := round_eq settings [b] (start parser user) rfl
  apply splits_of_still pieces ok some_data
  · rw [whole, one]
    split_ifs
    · rfl
    · have handled := same (entered (start parser user)).nread
      exact (congrArg ((entered (start parser user)).perform settings (b :: data) ·)
        handled).trans still.1
  · rw [one]
    split_ifs
    · exact failed_stays (by simp) _ _
    · exact still.2

/-- The states that look at one character. -/
theorem splits_near (pieces : settings.TakesPieces) (ok : parser.httpErrno = .ok)
    (some_data : data ≠ []) (near : parser.state.looksAhead = false) :
    Splits settings parser b data user := by
  apply splits_of_handle pieces ok some_data
  · intro nread
    cases state : parser.state <;> rw [state] at near <;> first | rfl | cases near
  · intro nread
    rw [← near]
    exact disciplined_handle _ _ _ _ _ _ (.inl rfl)

end HttpParser

end ReactiveToolbox.Http
