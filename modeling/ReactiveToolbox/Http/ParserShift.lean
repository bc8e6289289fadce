import Mathlib.Logic.Relation
import ReactiveToolbox.Http.ParserMarks

/-!
# The HTTP parser on the rest of its data

An execution that has got beyond the first character of its data is compared with one that
has been started on the rest.  Both do the same from there on, but for a text that was
begun with the first character: the second execution finds that it has been called back
for already.
-/

namespace ReactiveToolbox.Http

open ReactiveToolbox.Io

universe u

variable {σ : Type u}

/-- Callbacks that do not mind whether a text comes in pieces. -/
structure ParserSettings.TakesPieces (settings : ParserSettings σ) : Prop where
  content : ∀ piece text user, (settings.data piece text user).1 = .success
  append : ∀ piece first second user, first ≠ [] →
    (settings.data piece (first ++ second) user).2 =
      (settings.data piece second (settings.data piece first user).2).2

/-- States of the callbacks that differ by what they have been told of texts only. -/
def ParserSettings.TextsApart (settings : ParserSettings σ) : σ → σ → Prop :=
  Relation.EqvGen fun user next => ∃ piece text, next = (settings.data piece text user).2

namespace ParserSettings

variable {settings : ParserSettings σ}

theorem apart_data (settings : ParserSettings σ) (piece : Piece) (text : List Byte) (user : σ) :
    settings.TextsApart user (settings.data piece text user).2 :=
  .rel _ _ ⟨piece, text, rfl⟩

theorem TextsApart.symm {user next : σ} (apart : settings.TextsApart user next) :
    settings.TextsApart next user :=
  Relation.EqvGen.symm _ _ apart

theorem TextsApart.trans {user next last : σ} (apart : settings.TextsApart user next)
    (further : settings.TextsApart next last) : settings.TextsApart user last :=
  Relation.EqvGen.trans _ _ _ apart further

end ParserSettings

/-- Parsers in the same state and with the same error.  What is stored of a header where its
text turns out to be wrong is of no use any more. -/
structure HttpParser.Alike (parser other : HttpParser) : Prop where
  state : parser.state = other.state
  httpErrno : parser.httpErrno = other.httpErrno
  fields : parser.httpErrno.Answered → parser.fields = other.fields

theorem HttpParser.Alike.refl (parser : HttpParser) : parser.Alike parser :=
  ⟨rfl, rfl, fun _ => rfl⟩

namespace Execution

/-! ## Marks -/

@[simp]
theorem markAt_none (position : Nat) (piece : Piece) : markAt position none piece = none :=
  rfl

@[simp]
theorem markAt_self (position : Nat) (piece : Piece) :
    markAt position (some piece) piece = some position :=
  if_pos rfl

theorem markAt_ne {position : Nat} {current : Option Piece} {piece : Piece}
    (other : current ≠ some piece) : markAt position current piece = none :=
  if_neg other

/-- Where nothing is marked, the position says nothing. -/
theorem markAt_none_eq (position other : Nat) : markAt position none = markAt other none :=
  rfl

theorem update_markAt_none (position other : Nat) (piece : Piece) :
    Function.update (markAt position none) piece (some other) = markAt other (some piece) := by
  ext1 found
  by_cases same : found = piece
  · subst same
    simp
  · rw [Function.update_of_ne same, markAt_ne fun equal => same (Option.some.inj equal).symm]
    rfl

theorem update_markAt_some (position : Nat) (piece : Piece) :
    Function.update (markAt position (some piece)) piece none = markAt position none := by
  ext1 found
  by_cases same : found = piece
  · subst same
    simp
  · rw [Function.update_of_ne same, markAt_ne fun equal => same (Option.some.inj equal).symm]
    rfl

/-! ## Two executions -/

variable (settings : ParserSettings σ) (b : Byte)

/-- The marks and the callbacks' states of an execution behind `b` and of one on the rest. -/
inductive Linked : Option Piece → Execution σ → Execution σ → Prop where
  /-- What is marked begins in the rest. -/
  | later {current : Option Piece} {whole rest : Execution σ} (position : Nat)
      (wholeMark : whole.mark = markAt (position + 1) current)
      (restMark : rest.mark = markAt position current)
      (user : whole.user = rest.user) : Linked current whole rest
  /-- What is marked began with `b`. -/
  | begun {piece : Piece} {whole rest : Execution σ}
      (wholeMark : whole.mark = markAt 0 (some piece))
      (restMark : rest.mark = markAt 0 (some piece))
      (user : rest.user = (settings.data piece [b] whole.user).2) :
      Linked (some piece) whole rest

/-- An execution behind `b` and one on the rest that are equally far. -/
structure Shifted (current : Option Piece) (whole rest : Execution σ) : Prop where
  p : whole.p = rest.p + 1
  state : whole.state = rest.state
  fields : whole.fields = rest.fields
  nread : whole.nread = rest.nread
  linked : Linked settings b current whole rest

/-- Two executions that end at the same character with the same error, if with any.  Where it
is not a callback that has stopped them, a text may have been begun. -/
inductive Ends : Outcome σ → Outcome σ → Prop where
  | returned {consumed : Nat} {parser other : HttpParser} {user told : σ}
      (alike : parser.Alike other) (nread : parser.httpErrno = .ok → parser.nread = other.nread)
      (apart : settings.TextsApart user told) (answered : parser.httpErrno.Answered → user = told) :
      Ends (.returned (consumed + 1) parser user) (.returned consumed other told)
  | aborted : Ends .aborted .aborted

/-- Two executions that go on equally far, or end alike. -/
def Follows : Outcome σ → Outcome σ → Prop
  | .running whole, .running rest =>
      ∃ current, Shifted settings b current whole rest ∧ Marked true whole.state current
  | whole, rest => Ends settings whole rest

variable {settings b} {current : Option Piece} {whole rest : Execution σ}

namespace Linked

theorem user_eq (linked : Linked settings b none whole rest) : whole.user = rest.user := by
  cases linked with
  | later position wholeMark restMark user => exact user

theorem apart (linked : Linked settings b current whole rest) :
    settings.TextsApart whole.user rest.user := by
  cases linked with
  | later position wholeMark restMark user => exact user ▸ .refl _
  | begun wholeMark restMark user => exact user ▸ settings.apart_data _ _ _

/-- What is not marked in one is not in the other. -/
theorem unmarked (linked : Linked settings b current whole rest) {piece : Piece}
    (other : current ≠ some piece) : whole.mark piece = none ∧ rest.mark piece = none := by
  cases linked with
  | later position wholeMark restMark user =>
      rw [wholeMark, restMark]
      exact ⟨markAt_ne other, markAt_ne other⟩
  | begun wholeMark restMark user =>
      rw [wholeMark, restMark]
      exact ⟨markAt_ne other, markAt_ne other⟩

theorem marked {piece : Piece} (linked : Linked settings b (some piece) whole rest) :
    whole.mark piece ≠ none ∧ rest.mark piece ≠ none := by
  cases linked with
  | later position wholeMark restMark user =>
      rw [wholeMark, restMark, markAt_self, markAt_self]
      exact ⟨nofun, nofun⟩
  | begun wholeMark restMark user =>
      rw [wholeMark, restMark, markAt_self]
      exact ⟨nofun, nofun⟩

/-- The marks and the callbacks' states are all that is linked. -/
theorem of_eq (linked : Linked settings b current whole rest) {whole' rest' : Execution σ}
    (wholeMark : whole'.mark = whole.mark) (restMark : rest'.mark = rest.mark)
    (wholeUser : whole'.user = whole.user) (restUser : rest'.user = rest.user) :
    Linked settings b current whole' rest' := by
  cases linked with
  | later position whole_eq rest_eq user =>
      exact .later position (wholeMark.trans whole_eq) (restMark.trans rest_eq)
        (wholeUser.trans (user.trans restUser.symm))
  | begun whole_eq rest_eq user =>
      exact .begun (wholeMark.trans whole_eq) (restMark.trans rest_eq)
        (by rw [restUser, wholeUser, user])

end Linked

namespace Shifted

theorem setP (shifted : Shifted settings b current whole rest) (amount : Nat) :
    Shifted settings b current { whole with p := whole.p + amount }
      { rest with p := rest.p + amount } where
  p := by
    show whole.p + amount = rest.p + amount + 1
    rw [shifted.p, Nat.add_right_comm]
  state := shifted.state
  fields := shifted.fields
  nread := shifted.nread
  linked := shifted.linked.of_eq rfl rfl rfl rfl

theorem setState (shifted : Shifted settings b current whole rest) (state : ParserState)
    (fields : ParserFields) :
    Shifted settings b current { whole with state := state, fields := fields }
      { rest with state := state, fields := fields } where
  p := shifted.p
  state := rfl
  fields := rfl
  nread := shifted.nread
  linked := shifted.linked.of_eq rfl rfl rfl rfl

theorem setNread (shifted : Shifted settings b current whole rest) (nread stored other : Nat) :
    Shifted settings b current { whole with nread := nread, stored := stored }
      { rest with nread := nread, stored := other } where
  p := shifted.p
  state := shifted.state
  fields := shifted.fields
  nread := rfl
  linked := shifted.linked.of_eq rfl rfl rfl rfl

/-- A callback with the same effect on both. -/
theorem setUser (shifted : Shifted settings b none whole rest) (user : σ) :
    Shifted settings b none { whole with user := user } { rest with user := user } where
  p := shifted.p
  state := shifted.state
  fields := shifted.fields
  nread := shifted.nread
  linked := by
    cases shifted.linked with
    | later position wholeMark restMark _ => exact .later position wholeMark restMark rfl

/-- A mark that is set now begins in the rest. -/
theorem setMark (shifted : Shifted settings b none whole rest) (piece : Piece) :
    Shifted settings b (some piece) (whole.setMark piece (some whole.p))
      (rest.setMark piece (some rest.p)) where
  p := shifted.p
  state := shifted.state
  fields := shifted.fields
  nread := shifted.nread
  linked := by
    cases shifted.linked with
    | later position wholeMark restMark user =>
        refine .later rest.p ?_ ?_ user
        · rw [← shifted.p, Execution.setMark, wholeMark]
          exact update_markAt_none _ _ _
        · rw [Execution.setMark, restMark]
          exact update_markAt_none _ _ _

end Shifted

/-! ## Callbacks -/

variable {data : List Byte}

theorem callData_unmarked {piece : Piece} (unmarked : whole.mark piece = none)
    (more passed : Nat) (state : ParserState) (fields : ParserFields)
    (go : Execution σ → Outcome σ) :
    whole.callData settings data piece more passed state fields go =
      go { whole with state := state, fields := fields } := by
  rw [callData, unmarked]

theorem callData_marked (pieces : settings.TakesPieces) {piece : Piece} {start : Nat}
    (marked : whole.mark piece = some start) (more passed : Nat) (state : ParserState)
    (fields : ParserFields) (go : Execution σ → Outcome σ) :
    whole.callData settings data piece more passed state fields go =
      go ({ whole with
        state := state
        fields := fields
        user := (settings.data piece (whole.marked data start more) whole.user).2 }.setMark
          piece none) := by
  rw [callData, marked]
  have content := pieces.content piece (whole.marked data start more) whole.user
  simp only [answered, content]
  rfl

/-- The text of a mark is the same in the rest. -/
theorem marked_later (shifted : Shifted settings b current whole rest) (start more : Nat) :
    whole.marked (b :: data) (start + 1) more = rest.marked data start more := by
  rw [marked, marked, shifted.p, List.drop_succ_cons]
  congr 1
  rw [Nat.add_right_comm, Nat.add_sub_add_right]

/-- A text that began with `b` goes on in the rest. -/
theorem marked_begun (shifted : Shifted settings b current whole rest) (more : Nat) :
    whole.marked (b :: data) 0 more = [b] ++ rest.marked data 0 more := by
  rw [marked, marked, shifted.p, List.drop_zero, List.drop_zero, Nat.add_right_comm]
  rfl

/-- After a callback for a text, no more of it is marked, and both have been called back for
the same. -/
theorem Shifted.called (pieces : settings.TakesPieces) {piece : Piece}
    (shifted : Shifted settings b (some piece) whole rest) (more passed : Nat)
    (state : ParserState) (fields : ParserFields) {goWhole goRest : Execution σ → Outcome σ}
    (go : ∀ whole rest, Shifted settings b none whole rest →
      Follows settings b (goWhole whole) (goRest rest)) :
    Follows settings b
      (whole.callData settings (b :: data) piece more passed state fields goWhole)
      (rest.callData settings data piece more passed state fields goRest) := by
  cases shifted.linked with
  | later position wholeMark restMark user =>
      rw [callData_marked pieces (by rw [wholeMark, markAt_self]),
        callData_marked pieces (by rw [restMark, markAt_self])]
      apply go
      constructor
      · exact shifted.p
      · rfl
      · rfl
      · exact shifted.nread
      · refine .later 0 ?_ ?_ ?_
        · rw [Execution.setMark, wholeMark]
          exact update_markAt_some _ _
        · rw [Execution.setMark, restMark]
          exact update_markAt_some _ _
        · dsimp only [Execution.setMark]
          rw [marked_later shifted, user]
  | begun wholeMark restMark user =>
      rw [callData_marked pieces (by rw [wholeMark, markAt_self]),
        callData_marked pieces (by rw [restMark, markAt_self])]
      apply go
      constructor
      · exact shifted.p
      · rfl
      · rfl
      · exact shifted.nread
      · refine .later 0 ?_ ?_ ?_
        · rw [Execution.setMark, wholeMark]
          exact update_markAt_some _ _
        · rw [Execution.setMark, restMark]
          exact update_markAt_some _ _
        · dsimp only [Execution.setMark]
          rw [marked_begun shifted, pieces.append _ _ _ _ (List.cons_ne_nil b []), user]

/-- A callback for a text is one in both, or in neither. -/
theorem callData_follows (pieces : settings.TakesPieces)
    (shifted : Shifted settings b current whole rest) (piece : Piece) (more passed : Nat)
    (state : ParserState) (fields : ParserFields) {goWhole goRest : Execution σ → Outcome σ}
    (go : ∀ whole rest,
      Shifted settings b (if current = some piece then none else current) whole rest →
        Follows settings b (goWhole whole) (goRest rest)) :
    Follows settings b
      (whole.callData settings (b :: data) piece more passed state fields goWhole)
      (rest.callData settings data piece more passed state fields goRest) := by
  by_cases marked : current = some piece
  · subst marked
    rw [if_pos rfl] at go
    exact shifted.called pieces more passed state fields go
  · rw [if_neg marked] at go
    have unmarked := shifted.linked.unmarked marked
    rw [callData_unmarked unmarked.1, callData_unmarked unmarked.2]
    exact go _ _ (shifted.setState state fields)

theorem failed_follows (p : whole.p = rest.p + 1)
    (apart : settings.TextsApart whole.user rest.user) {errno : HttpErrno}
    (error : ¬errno.Answered) (state : ParserState) (fields other : ParserFields) :
    Follows settings b (whole.failed errno state fields) (rest.failed errno state other) := by
  rw [failed, failed, p]
  refine .returned ⟨rfl, rfl, fun answered => absurd answered error⟩ ?_ apart ?_
  · rintro rfl
    exact absurd .ok error
  · exact fun answered => absurd answered error

/-- A callback has stopped both. -/
theorem stopped_follows (shifted : Shifted settings b none whole rest) (errno : HttpErrno)
    (state : ParserState) (fields : ParserFields) :
    Follows settings b (whole.failed errno state fields) (rest.failed errno state fields) := by
  rw [failed, failed, shifted.p, shifted.linked.user_eq]
  exact .returned ⟨rfl, rfl, fun _ => rfl⟩ (fun _ => shifted.nread) (.refl _) fun _ => rfl

/-- What goes on alike after two outcomes that are alike. -/
theorem Follows.andThen {wholeOutcome restOutcome : Outcome σ}
    (follows : Follows settings b wholeOutcome restOutcome)
    {goWhole goRest : Execution σ → Outcome σ}
    (go : ∀ current whole rest, Shifted settings b current whole rest →
      Marked true whole.state current → Follows settings b (goWhole whole) (goRest rest)) :
    Follows settings b (wholeOutcome.andThen goWhole) (restOutcome.andThen goRest) := by
  cases wholeOutcome with
  | running whole =>
      cases restOutcome with
      | running rest =>
          obtain ⟨current, shifted, suits⟩ := follows
          exact go current whole rest shifted suits
      | returned consumed parser user => cases follows
      | aborted => cases follows
  | returned consumed parser user =>
      cases restOutcome with
      | running rest => cases follows
      | returned consumed parser user => exact follows
      | aborted => cases follows
  | aborted =>
      cases restOutcome with
      | running rest => cases follows
      | returned consumed parser user => cases follows
      | aborted => exact .aborted

/-- A callback without text has the same answer in both. -/
theorem answered_follows (shifted : Shifted settings b none whole rest) (reply : Reply)
    (error : HttpErrno) (passed : Nat) (state : ParserState) (fields : ParserFields)
    {goWhole goRest : Execution σ → Outcome σ}
    (go : ∀ whole rest, Shifted settings b none whole rest →
      Follows settings b (goWhole whole) (goRest rest)) :
    Follows settings b (whole.answered reply error passed state fields goWhole)
      (rest.answered reply error passed state fields goRest) := by
  have user := shifted.linked.user_eq
  have passing : whole.p + passed = rest.p + passed + 1 := by
    rw [shifted.p, Nat.add_right_comm]
  unfold answered
  split_ifs with stops
  · rw [passing, user]
    exact .returned ⟨rfl, rfl, fun _ => rfl⟩ (fun ok => absurd ok stops) (.refl _) fun _ => rfl
  · rw [passing, user]
    exact .returned ⟨rfl, rfl, fun _ => rfl⟩ (fun ok => absurd ok stops) (.refl _) fun _ => rfl
  · exact go _ _ (shifted.setState state fields)

theorem headersAnswered_follows (shifted : Shifted settings b none whole rest) (reply : Reply)
    (state : ParserState) (fields : ParserFields)
    {goWhole goRest : Execution σ → ParserFields → Outcome σ}
    (go : ∀ whole rest fields, Shifted settings b none whole rest →
      Follows settings b (goWhole whole fields) (goRest rest fields)) :
    Follows settings b (whole.headersAnswered reply state fields goWhole)
      (rest.headersAnswered reply state fields goRest) := by
  dsimp only [headersAnswered]
  split
  · exact stopped_follows shifted _ _ _
  · split
    · exact stopped_follows shifted _ _ _
    · exact go _ _ _ (shifted.setState _ _)

/-! ## Handlings, rounds and loops -/

/-- A handling that keeps to the marks does the same behind `b` as in the rest. -/
theorem perform_follows (pieces : settings.TakesPieces) {ahead : Bool} (handling : Handling)
    (disciplined : handling.Disciplined ahead current)
    (shifted : Shifted settings b current whole rest) :
    Follows settings b (whole.perform settings (b :: data) handling)
      (rest.perform settings data handling) := by
  induction handling generalizing current whole rest with
  | next state fields =>
      refine ⟨current, (shifted.setP 1).setState state fields, ?_⟩
      exact disciplined.imp_right fun body => ⟨rfl, body.2⟩
  | fail errno state fields => exact failed_follows shifted.p shifted.linked.apart disciplined _ _ _
  | exit state fields =>
      obtain rfl : current = none := disciplined
      rw [perform, perform, shifted.p, shifted.linked.user_eq]
      exact .returned ⟨rfl, rfl, fun _ => rfl⟩ (fun _ => shifted.nread) (.refl _) fun _ => rfl
  | assert holds after continued =>
      cases holds with
      | false => exact .aborted
      | true => exact continued disciplined shifted
  | count amount state fields after continued =>
      rw [perform, perform, shifted.nread]
      split
      · apply failed_follows
        · exact shifted.p
        · exact shifted.linked.apart
        · exact HttpErrno.not_answered_headerOverflow
      · exact continued disciplined (shifted.setNread _ _ _)
  | resetNread after continued => exact continued disciplined (shifted.setNread 0 0 0)
  | mark piece after continued =>
      obtain ⟨suits, disciplined⟩ := disciplined
      rcases suits with rfl | rfl
      · have unmarked : whole.mark piece = none ∧ rest.mark piece = none :=
          shifted.linked.unmarked nofun
        rw [perform, perform, if_pos unmarked.1, if_pos unmarked.2]
        exact continued disciplined (shifted.setMark piece)
      · have marked := shifted.linked.marked
        rw [perform, perform, if_neg marked.1, if_neg marked.2]
        exact continued disciplined shifted
  | advance amount after continued => exact continued disciplined.2 (shifted.setP amount)
  | data piece more passed state fields after continued =>
      exact callData_follows pieces shifted piece more passed state fields
        fun whole rest shifted => continued disciplined.2 shifted
  | notify notice passed state fields after continued =>
      obtain ⟨rfl, disciplined⟩ := disciplined
      rw [perform, perform, shifted.linked.user_eq]
      exact answered_follows (shifted.setUser _) _ _ passed state fields
        fun whole rest shifted => continued disciplined shifted
  | headersComplete state fields after continued =>
      obtain ⟨rfl, disciplined⟩ := disciplined
      rw [perform, perform, shifted.linked.user_eq]
      exact headersAnswered_follows (shifted.setUser _) _ state fields
        fun whole rest fields shifted => continued fields (disciplined fields) shifted

theorem switch_follows (pieces : settings.TakesPieces)
    (shifted : Shifted settings b current whole rest) (suits : Marked true whole.state current)
    (ch : Byte) (left : List Byte) :
    Follows settings b
      (whole.perform settings (b :: data)
        (handle settings.maxHeaderSize whole.state whole.nread whole.fields ch left))
      (rest.perform settings data
        (handle settings.maxHeaderSize rest.state rest.nread rest.fields ch left)) := by
  rw [← shifted.state, ← shifted.nread, ← shifted.fields]
  exact perform_follows pieces _ (disciplined_handle _ _ _ _ _ _ suits) shifted

theorem round_follows (pieces : settings.TakesPieces)
    (shifted : Shifted settings b current whole rest)
    (suits : Marked true whole.state current) :
    Follows settings b (whole.round settings (b :: data)) (rest.round settings data) := by
  have dropped : (b :: data).drop whole.p = data.drop rest.p := by
    rw [shifted.p, List.drop_succ_cons]
  have parsing : whole.state.parsingHeader = rest.state.parsingHeader := by
    rw [shifted.state]
  have counted : (whole.nread + 1) % 2 ^ 32 = (rest.nread + 1) % 2 ^ 32 := by
    rw [shifted.nread]
  rw [round, round, dropped]
  cases data.drop rest.p with
  | nil => exact ⟨current, shifted, suits⟩
  | cons ch left =>
      dsimp only
      rw [parsing, counted]
      split_ifs
      · rw [shifted.state]
        apply failed_follows
        · exact shifted.p
        · exact shifted.linked.apart
        · exact HttpErrno.not_answered_headerOverflow
      · exact switch_follows pieces
          (shifted.setNread ((rest.nread + 1) % 2 ^ 32) whole.stored rest.stored) suits ch left
      · exact switch_follows pieces shifted suits ch left

theorem loop_follows (pieces : settings.TakesPieces) (fuel : Nat)
    (shifted : Shifted settings b current whole rest)
    (suits : Marked true whole.state current) :
    Follows settings b (whole.loop settings (b :: data) fuel)
      (rest.loop settings data fuel) := by
  induction fuel generalizing current whole rest with
  | zero => exact ⟨current, shifted, suits⟩
  | succ fuel continued =>
      rw [loop, loop, shifted.p, List.length_cons]
      simp only [Nat.add_right_cancel_iff]
      split
      · exact ⟨current, shifted, suits⟩
      · apply (round_follows pieces shifted suits).andThen
        intro next whole rest shifted suits
        exact continued shifted suits

theorem leftover_follows (pieces : settings.TakesPieces) (state : ParserState)
    (fields : ParserFields) (remaining : List Piece)
    (listed : ∀ piece, current = some piece → piece ∈ remaining)
    (shifted : Shifted settings b current whole rest) :
    Follows settings b (whole.leftover settings (b :: data) state fields remaining)
      (rest.leftover settings data state fields remaining) := by
  induction remaining generalizing current whole rest with
  | nil =>
      cases current with
      | none =>
          rw [leftover, leftover, List.length_cons, shifted.linked.user_eq]
          exact .returned ⟨rfl, rfl, fun _ => rfl⟩ (fun _ => shifted.nread) (.refl _) fun _ => rfl
      | some piece => exact absurd (listed piece rfl) List.not_mem_nil
  | cons piece remaining continued =>
      apply callData_follows pieces shifted
      intro whole rest shifted
      refine continued ?_ shifted
      intro other marked
      split_ifs at marked with same
      exact (List.mem_cons.mp (listed other marked)).resolve_left
        fun equal => same (equal ▸ marked)

/-- There is one mark at most. -/
theorem markAt_count (position : Nat) (current : Option Piece) :
    (pieces.filter fun piece => (markAt position current piece).isSome).length ≤ 1 := by
  cases current with
  | none => simp [pieces]
  | some piece => cases piece <;> simp [pieces, markAt]

theorem finish_follows (pieces : settings.TakesPieces)
    (shifted : Shifted settings b current whole rest) :
    Follows settings b (whole.finish settings (b :: data)) (rest.finish settings data) := by
  have counts : ∃ position other, whole.mark = markAt position current ∧
      rest.mark = markAt other current := by
    cases shifted.linked with
    | later position wholeMark restMark user => exact ⟨_, _, wholeMark, restMark⟩
    | begun wholeMark restMark user => exact ⟨_, _, wholeMark, restMark⟩
  obtain ⟨position, other, wholeMark, restMark⟩ := counts
  rw [finish, finish, wholeMark, restMark, if_pos (markAt_count _ _),
    if_pos (markAt_count _ _), shifted.state, shifted.fields]
  apply leftover_follows pieces _ _ _ _ shifted
  intro piece marked
  cases piece <;> simp [Execution.pieces]

end Execution

end ReactiveToolbox.Http
