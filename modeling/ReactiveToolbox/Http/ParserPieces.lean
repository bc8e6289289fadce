import ReactiveToolbox.Http.ParserFraming
import ReactiveToolbox.Http.ParserSplitHeaders

/-!
# However the data are cut

A connection gives its parser what it has read, again and again until all of it is
consumed.  It makes no difference how what it reads is cut: the parser ends in the same
fields, with the same headers and bodies called back for, or it is stopped at the same
character by the same error or pause.  Only a header that is too large is found out sooner
or later.
-/

namespace ReactiveToolbox.Http

open ReactiveToolbox.Io

universe u

variable {σ : Type u} {settings : ParserSettings σ}

/-! ## The limit -/

/-- An execution that has neither counted nor stored more than the limit. -/
def Execution.Few (limit : Nat) (execution : Execution σ) : Prop :=
  execution.nread ≤ limit ∧ execution.stored ≤ limit

/-- A parser that may go on and has not counted more than the limit. -/
def HttpParser.Within (limit : Nat) (parser : HttpParser) : Prop :=
  parser.httpErrno = .ok ∨ parser.httpErrno = .paused → parser.nread ≤ limit

/-- What goes on, or may, has not counted more than the limit. -/
def Outcome.Within (limit : Nat) : Outcome σ → Prop
  | .running execution => execution.Few limit
  | .returned _ parser _ => parser.Within limit
  | .aborted => True

theorem Outcome.Within.andThen {limit : Nat} {outcome : Outcome σ} (within : outcome.Within limit)
    {go : Execution σ → Outcome σ}
    (continued : ∀ execution, execution.Few limit → (go execution).Within limit) :
    (outcome.andThen go).Within limit := by
  cases outcome with
  | running execution => exact continued execution within
  | returned consumed parser user => exact within
  | aborted => trivial

namespace Execution

variable {data : List Byte} {limit : Nat} {execution : Execution σ}

theorem overflow_within (nread : Nat) (state : ParserState) (fields : ParserFields) :
    ({ execution with nread := nread }.failed .headerOverflow state fields).Within limit := by
  rintro (ok | paused)
  · cases ok
  · cases paused

theorem answered_within (few : execution.Few limit) (reply : Reply) (error : HttpErrno)
    (passed : Nat) (state : ParserState) (fields : ParserFields) {go : Execution σ → Outcome σ}
    (continued : ∀ execution, execution.Few limit → (go execution).Within limit) :
    (execution.answered reply error passed state fields go).Within limit := by
  rw [answered]
  split
  · intro _
    dsimp only
    split
    · exact few.1
    · exact few.2
  · exact continued _ few

theorem callData_within (few : execution.Few limit) (piece : Piece) (more passed : Nat)
    (state : ParserState) (fields : ParserFields) {go : Execution σ → Outcome σ}
    (continued : ∀ execution, execution.Few limit → (go execution).Within limit) :
    (execution.callData settings data piece more passed state fields go).Within limit := by
  rw [callData]
  split
  · exact continued _ few
  · dsimp only
    apply answered_within
    · exact few
    · intro execution few
      exact continued _ few

theorem perform_within (handling : Handling)
    (few : execution.Few settings.maxHeaderSize) :
    (execution.perform settings data handling).Within settings.maxHeaderSize := by
  induction handling generalizing execution with
  | next state fields => exact few
  | fail errno state fields => exact fun _ => few.1
  | exit state fields => exact fun _ => few.1
  | assert holds after continued =>
      cases holds with
      | false => trivial
      | true => exact continued few
  | count amount state fields after continued =>
      rw [perform]
      split
      · exact overflow_within _ _ _
      · rename_i fits
        exact continued ⟨Nat.not_lt.mp fits, few.2⟩
  | resetNread after continued => exact continued ⟨Nat.zero_le _, Nat.zero_le _⟩
  | mark piece after continued =>
      apply continued
      split
      · exact few
      · exact few
  | advance amount after continued => exact continued few
  | data piece more passed state fields after continued =>
      exact callData_within few _ _ _ _ _ fun execution few => continued few
  | notify notice passed state fields after continued =>
      apply answered_within
      · exact few
      · exact fun execution few => continued few
  | headersComplete state fields after continued =>
      rw [perform]
      dsimp only [headersAnswered]
      split
      · exact fun _ => few.1
      · split
        · exact fun _ => few.1
        · exact continued _ few

theorem round_within (few : execution.Few settings.maxHeaderSize) :
    (execution.round settings data).Within settings.maxHeaderSize := by
  rw [round]
  split
  · exact few
  · dsimp only
    split
    · split
      · exact overflow_within _ _ _
      · rename_i fits
        exact perform_within _ ⟨Nat.not_lt.mp fits, few.2⟩
    · exact perform_within _ few

theorem loop_within (fuel : Nat) (few : execution.Few settings.maxHeaderSize) :
    (execution.loop settings data fuel).Within settings.maxHeaderSize := by
  induction fuel generalizing execution with
  | zero => exact few
  | succ fuel continued =>
      rw [loop]
      split
      · exact few
      · exact (round_within few).andThen fun execution few => continued few

theorem leftover_within (few : execution.Few limit) (state : ParserState)
    (fields : ParserFields) (remaining : List Piece) :
    (execution.leftover settings data state fields remaining).Within limit := by
  induction remaining generalizing execution with
  | nil => exact fun _ => few.1
  | cons piece remaining continued =>
      exact callData_within few _ _ _ _ _ fun execution few => continued few

theorem finish_within (few : execution.Few limit) :
    (execution.finish settings data).Within limit := by
  rw [finish]
  split
  · exact leftover_within few _ _ _
  · trivial

end Execution

namespace HttpParser

variable {parser next : HttpParser} {data : List Byte} {user left : σ} {consumed : Nat}

/-- A parser that may go on has counted no more than the limit, whatever it is given. -/
theorem execute_within (within : parser.Within settings.maxHeaderSize) (data : List Byte)
    (user : σ) : (parser.execute settings data user).Within settings.maxHeaderSize := by
  rw [execute]
  split
  · exact within
  · rename_i ok
    have few : (Execution.start parser user).Few settings.maxHeaderSize :=
      ⟨within (.inl (not_not.mp ok)), within (.inl (not_not.mp ok))⟩
    split
    · rw [executeEof]
      split
      · apply Execution.answered_within
        · exact few
        · exact fun _ _ => within
      · exact within
      · exact within
      · exact within
      · exact within
      · rintro (ok | paused)
        · cases ok
        · cases paused
    · exact (Execution.loop_within _ few).andThen fun _ few => Execution.finish_within few

/-- The parsers of a run that may go on have counted no more than the limit. -/
theorem Reached.within {type : ParserType} {initial : σ}
    (reached : Reached settings type initial parser user) :
    parser.Within settings.maxHeaderSize := by
  induction reached with
  | init => exact fun _ => Nat.zero_le _
  | @execute parser next user left data consumed reached ran within =>
      have within := execute_within within data user
      rw [ran] at within
      exact within
  | @pause parser next user paused reached ran within =>
      rw [HttpParser.pause] at ran
      split at ran
      · rename_i goes
        obtain rfl := Option.some.inj ran
        exact fun _ => within goes
      · cases ran

end HttpParser

/-! ## All of the data -/

/-- What becomes of data that a parser is given. -/
inductive Parsed (σ : Type u) where
  /-- All of them are consumed. -/
  | whole (parser : HttpParser) (user : σ)
  /-- An error or a pause has stopped the parser in front of what is left. -/
  | stopped (parser : HttpParser) (unread : List Byte) (user : σ)
  | aborted
  deriving DecidableEq

namespace Parsed

/-- What a parser comes to that goes on with more data. -/
def andThen (parsed : Parsed σ) (more : List Byte) (go : HttpParser → σ → Parsed σ) : Parsed σ :=
  match parsed with
  | .whole parser user => go parser user
  | .stopped parser unread user => .stopped parser (unread ++ more) user
  | .aborted => .aborted

theorem andThen_assoc (parsed : Parsed σ) (more further : List Byte)
    (first second : HttpParser → σ → Parsed σ) :
    (parsed.andThen more first).andThen further second =
      parsed.andThen (more ++ further) fun parser user =>
        (first parser user).andThen further second := by
  cases parsed with
  | whole parser user => rfl
  | stopped parser unread user =>
      exact congrArg (Parsed.stopped parser · user) (List.append_assoc _ _ _)
  | aborted => rfl

/-- Data that come to the same: all of them are consumed, or the parser is stopped at the same
character by the same error or pause.  It may only be in the middle of a text if no callback has
stopped it. -/
inductive Alike (settings : ParserSettings σ) : Parsed σ → Parsed σ → Prop where
  | whole (parser : HttpParser) (user : σ) :
      Alike settings (.whole parser user) (.whole parser user)
  | stopped {parser other : HttpParser} {unread : List Byte} {user told : σ}
      (alike : parser.Alike other) (apart : settings.TextsApart user told)
      (answered : parser.httpErrno.Answered → user = told) :
      Alike settings (.stopped parser unread user) (.stopped other unread told)

theorem Alike.refl_stopped (settings : ParserSettings σ) (parser : HttpParser)
    (unread : List Byte) (user : σ) :
    Alike settings (.stopped parser unread user) (.stopped parser unread user) :=
  .stopped (.refl parser) (.refl user) fun _ => rfl

/-- The parser has found an error itself, with callbacks behind it whose state differs from
`user` by texts only. -/
def StopsApart (settings : ParserSettings σ) (user : σ) : Parsed σ → Prop
  | .stopped parser _ told => ¬parser.httpErrno.Answered ∧ settings.TextsApart told user
  | _ => False

/-- Data that come to what they come to one character after another, but for a header that is
then found to be too large. -/
def Conforms (settings : ParserSettings σ) (parsed bytewise : Parsed σ) : Prop :=
  parsed.Alike settings bytewise ∨
    ∃ parser unread user, bytewise = .stopped parser unread user ∧
      parser.httpErrno = .headerOverflow ∧ parsed.StopsApart settings user

variable {first second third : Parsed σ}

theorem Alike.symm (alike : first.Alike settings second) : second.Alike settings first := by
  cases alike with
  | whole parser user => exact .whole parser user
  | stopped same apart answered =>
      refine .stopped ⟨same.state.symm, same.httpErrno.symm, ?_⟩ apart.symm ?_
      · exact fun error => (same.fields (same.httpErrno ▸ error)).symm
      · exact fun error => (answered (same.httpErrno ▸ error)).symm

theorem Alike.trans (alike : first.Alike settings second)
    (further : second.Alike settings third) : first.Alike settings third := by
  cases alike with
  | whole parser user => exact further
  | stopped same apart answered =>
      cases further with
      | stopped other more again =>
          refine .stopped ⟨same.state.trans other.state, same.httpErrno.trans other.httpErrno, ?_⟩
            (apart.trans more) ?_
          · exact fun error => (same.fields error).trans (other.fields (same.httpErrno ▸ error))
          · exact fun error => (answered error).trans (again (same.httpErrno ▸ error))

theorem Alike.conforms (alike : first.Alike settings second)
    (further : second.Conforms settings third) : first.Conforms settings third := by
  rcases further with same | ⟨parser, unread, user, ended, overflow, stops⟩
  · exact .inl (alike.trans same)
  · refine .inr ⟨parser, unread, user, ended, overflow, ?_⟩
    cases alike with
    | whole parser user => exact stops.elim
    | stopped same apart answered =>
        exact ⟨same.httpErrno ▸ stops.1, apart.trans stops.2⟩

theorem Alike.stopsApart {parser : HttpParser} {unread : List Byte} {user : σ}
    (alike : first.Alike settings (.stopped parser unread user))
    (error : ¬parser.httpErrno.Answered) : first.StopsApart settings user := by
  cases alike with
  | stopped same apart answered => exact ⟨same.httpErrno ▸ error, apart⟩

theorem Alike.andThen (alike : first.Alike settings second) (more : List Byte)
    {go : HttpParser → σ → Parsed σ} {goes : HttpParser → σ → Parsed σ}
    (goesOn : ∀ parser user, first = .whole parser user →
      (go parser user).Conforms settings (goes parser user)) :
    (first.andThen more go).Conforms settings (second.andThen more goes) := by
  cases alike with
  | whole parser user => exact goesOn parser user rfl
  | stopped same apart answered => exact .inl (.stopped same apart answered)

theorem Conforms.andThen (conforms : first.Conforms settings second) (more : List Byte)
    {go : HttpParser → σ → Parsed σ} {goes : HttpParser → σ → Parsed σ}
    (goesOn : ∀ parser user, first = .whole parser user →
      (go parser user).Conforms settings (goes parser user)) :
    (first.andThen more go).Conforms settings (second.andThen more goes) := by
  rcases conforms with alike | ⟨parser, unread, user, rfl, overflow, stops⟩
  · exact alike.andThen more goesOn
  · refine .inr ⟨parser, unread ++ more, user, rfl, overflow, ?_⟩
    cases first with
    | stopped parser unread user => exact stops
    | whole parser user => exact stops.elim
    | aborted => exact stops.elim

end Parsed

namespace HttpParser

/-- The parser on data of which it is given again what it has not consumed. -/
def parseSome (settings : ParserSettings σ) : Nat → HttpParser → List Byte → σ → Parsed σ
  | _, parser, [], user => .whole parser user
  | 0, _, _ :: _, _ => .aborted
  | fuel + 1, parser, ch :: rest, user =>
      match parser.execute settings (ch :: rest) user with
      | .returned consumed next user =>
          if next.httpErrno = .ok then
            parseSome settings fuel next ((ch :: rest).drop consumed) user
          else .stopped next ((ch :: rest).drop consumed) user
      | _ => .aborted

/-- The parser on data until all of them are consumed, unless it is stopped. -/
def parse (settings : ParserSettings σ) (parser : HttpParser) (data : List Byte) (user : σ) :
    Parsed σ :=
  parseSome settings data.length parser data user

/-- The parser on data that come in pieces. -/
def parsePieces (settings : ParserSettings σ) :
    HttpParser → List (List Byte) → σ → Parsed σ
  | parser, [], user => .whole parser user
  | parser, piece :: rest, user =>
      (parser.parse settings piece user).andThen rest.flatten fun next user =>
        next.parsePieces settings rest user

/-- The parser on one character after another. -/
def parseBytes (settings : ParserSettings σ) (parser : HttpParser) (data : List Byte) (user : σ) :
    Parsed σ :=
  parser.parsePieces settings (data.map fun b => [b]) user

variable {type : ParserType} {initial : σ} {parser next : HttpParser} {data : List Byte}
  {user left : σ} {consumed : Nat} {b : Byte} {more : List Byte}

@[simp]
theorem parse_nil (parser : HttpParser) (user : σ) :
    parser.parse settings [] user = .whole parser user :=
  rfl

theorem flatten_singletons (data : List Byte) : (data.map fun b => [b]).flatten = data := by
  induction data with
  | nil => rfl
  | cons b data continued => rw [List.map_cons, List.flatten_cons, continued, List.singleton_append]

theorem parseBytes_cons (parser : HttpParser) (b : Byte) (data : List Byte) (user : σ) :
    parser.parseBytes settings (b :: data) user =
      (parser.parse settings [b] user).andThen data fun next user =>
        next.parseBytes settings data user := by
  rw [parseBytes, List.map_cons, parsePieces, flatten_singletons]
  rfl

theorem parseBytes_append (parser : HttpParser) (first second : List Byte) (user : σ) :
    parser.parseBytes settings (first ++ second) user =
      (parser.parseBytes settings first user).andThen second fun next user =>
        next.parseBytes settings second user := by
  induction first generalizing parser user with
  | nil => rfl
  | cons b first continued =>
      rw [List.cons_append, parseBytes_cons, parseBytes_cons, Parsed.andThen_assoc]
      simp only [continued]

/-! ## Parsers of a run -/

/-- The parsers of a run that data can be given to. -/
structure Takes (settings : ParserSettings σ) (type : ParserType) (initial : σ)
    (parser : HttpParser) (data : List Byte) (user : σ) : Prop where
  reached : Reached settings type initial parser user
  ok : parser.httpErrno = .ok
  short : settings.maxHeaderSize + data.length + 2 < 2 ^ 32

namespace Takes

theorem few (takes : Takes settings type initial parser data user) :
    parser.nread ≤ settings.maxHeaderSize :=
  takes.reached.within (.inl takes.ok)

/-- No assertion fails, and no more is consumed than there is. -/
theorem returns (takes : Takes settings type initial parser data user) {some_data : List Byte}
    (nonempty : some_data ≠ []) :
    ∃ consumed next left, parser.execute settings some_data user = .returned consumed next left ∧
      consumed ≤ some_data.length := by
  obtain ⟨consumed, next, left, ran, few⟩ := takes.reached.execute_returns some_data
  exact ⟨consumed, next, left, ran, few.resolve_right fun none => nonempty none.1⟩

theorem of_length (takes : Takes settings type initial parser data user) {fewer : List Byte}
    (shorter : fewer.length ≤ data.length) : Takes settings type initial parser fewer user where
  reached := takes.reached
  ok := takes.ok
  short := by
    have short := takes.short
    omega

/-- What an execution leaves behind takes what it has not consumed. -/
theorem rest (takes : Takes settings type initial parser data user) {some_data : List Byte}
    (ran : parser.execute settings some_data user = .returned consumed next left)
    (ok : next.httpErrno = .ok) {fewer : List Byte} (shorter : fewer.length ≤ data.length) :
    Takes settings type initial next fewer left where
  reached := .execute takes.reached ran
  ok := ok
  short := by
    have short := takes.short
    omega

theorem splits (pieces : settings.TakesPieces)
    (takes : Takes settings type initial parser (b :: data) user) (some_data : data ≠ []) :
    Splits settings parser b data user := by
  apply HttpParser.splits pieces takes.ok some_data
  have few := takes.few
  have short := takes.short
  rw [List.length_cons] at short
  omega

/-- One character is consumed. -/
theorem one_consumed (pieces : settings.TakesPieces)
    (takes : Takes settings type initial parser (b :: data) user)
    (ran : parser.execute settings [b] user = .returned consumed next left)
    (ok : next.httpErrno = .ok) : consumed = 1 := by
  have splits : Splits settings parser b [0] user := by
    apply HttpParser.splits pieces takes.ok (List.cons_ne_nil _ _)
    have few := takes.few
    have short := takes.short
    rw [List.length_cons] at short
    rw [List.length_singleton]
    omega
  rw [Splits, ran] at splits
  dsimp only at splits
  rw [if_pos ok] at splits
  exact splits.1

/-- The parser consumes something. -/
theorem consumes (pieces : settings.TakesPieces)
    (takes : Takes settings type initial parser (b :: data) user)
    (ran : parser.execute settings (b :: data) user = .returned consumed next left)
    (ok : next.httpErrno = .ok) : 0 < consumed := by
  by_cases some_data : data = []
  · subst some_data
    rw [takes.one_consumed pieces ran ok]
    exact Nat.one_pos
  · have splits := takes.splits pieces some_data
    obtain ⟨amount, one, told, first, -⟩ := takes.returns (List.cons_ne_nil b [])
    rw [Splits, first] at splits
    dsimp only at splits
    split_ifs at splits with continues
    · obtain ⟨-, same | follows | ⟨fails, -⟩⟩ := splits
      · obtain ⟨rfl, -⟩ := Outcome.returned.inj (ran.symm.trans same)
        exact Nat.one_pos
      · rw [ran] at follows
        cases ended : one.execute settings data told with
        | running execution =>
            rw [ended] at follows
            cases follows
        | returned amount other behind =>
            rw [ended] at follows
            cases follows
            exact Nat.succ_pos _
        | aborted =>
            rw [ended] at follows
            cases follows
      · rw [ran] at fails
        exact (fails.1 (ok ▸ .ok)).elim
    · obtain ⟨-, rfl, -⟩ := Outcome.returned.inj (ran.symm.trans splits)
      exact absurd ok continues

/-- More rounds than there are characters change nothing. -/
theorem parseSome_fuel (pieces : settings.TakesPieces) {fuel more : Nat}
    (takes : Takes settings type initial parser data user) (enough : data.length ≤ fuel)
    (moreEnough : data.length ≤ more) :
    parseSome settings fuel parser data user = parseSome settings more parser data user := by
  induction fuel generalizing more parser data user with
  | zero =>
      obtain rfl := List.length_eq_zero_iff.mp (Nat.le_zero.mp enough)
      cases more <;> rfl
  | succ fuel continued =>
      cases data with
      | nil => cases more <;> rfl
      | cons ch rest =>
          cases more with
          | zero => exact absurd moreEnough (Nat.not_succ_le_zero _)
          | succ more =>
              obtain ⟨consumed, next, left, ran, few⟩ := takes.returns (List.cons_ne_nil ch rest)
              rw [parseSome, parseSome, ran]
              dsimp only
              split_ifs with ok
              · have progress := takes.consumes pieces ran ok
                have fewer : ((ch :: rest).drop consumed).length ≤ rest.length := by
                  rw [List.length_drop, List.length_cons]
                  omega
                rw [List.length_cons] at enough moreEnough
                apply continued
                · exact takes.rest ran ok (fewer.trans (Nat.le_succ _))
                · omega
                · omega
              · rfl

/-- The parser on some data, of which it consumes some. -/
theorem parse_step (pieces : settings.TakesPieces)
    (takes : Takes settings type initial parser (b :: data) user)
    (ran : parser.execute settings (b :: data) user = .returned consumed next left) :
    parser.parse settings (b :: data) user =
      if next.httpErrno = .ok then next.parse settings ((b :: data).drop consumed) left
      else .stopped next ((b :: data).drop consumed) left := by
  rw [parse, List.length_cons, parseSome, ran]
  dsimp only
  split_ifs with ok
  · have progress := takes.consumes pieces ran ok
    have fewer : ((b :: data).drop consumed).length ≤ data.length := by
      rw [List.length_drop, List.length_cons]
      omega
    apply (takes.rest ran ok (fewer.trans (Nat.le_succ _))).parseSome_fuel pieces fewer
    exact Nat.le_refl _
  · rfl

/-- What all of the data are consumed by takes more. -/
theorem parse_whole (takes : Takes settings type initial parser (data ++ more) user)
    (ended : parser.parse settings data user = .whole next left) :
    Takes settings type initial next more left := by
  have whole : ∀ (fuel : Nat) (parser : HttpParser) (data : List Byte) (user : σ),
      Takes settings type initial parser (data ++ more) user →
      parseSome settings fuel parser data user = .whole next left →
      Takes settings type initial next more left := by
    intro fuel
    induction fuel with
    | zero =>
        intro parser data user takes ended
        cases data with
        | nil =>
            obtain ⟨rfl, rfl⟩ := Parsed.whole.inj ended
            exact takes
        | cons ch rest => cases ended
    | succ fuel continued =>
        intro parser data user takes ended
        cases data with
        | nil =>
            obtain ⟨rfl, rfl⟩ := Parsed.whole.inj ended
            exact takes
        | cons ch rest =>
            obtain ⟨consumed, next, left, ran, -⟩ := takes.returns (List.cons_ne_nil ch rest)
            rw [parseSome, ran] at ended
            dsimp only at ended
            split_ifs at ended with ok
            apply continued _ _ _ (takes.rest ran ok _) ended
            rw [List.length_append, List.length_append, List.length_drop]
            omega
  exact whole _ _ _ _ takes ended

/-- Characters that are too many for a header are found to be, one after another. -/
theorem overflow_bytes (overflows : Overflows settings parser data user) :
    ∃ next unread left, parser.parseBytes settings data user = .stopped next unread left ∧
      next.httpErrno = .headerOverflow ∧ settings.TextsApart left user := by
  induction overflows with
  | @here parser next b data user consumed ran overflow =>
      have error : next.httpErrno ≠ .ok := by
        rw [overflow]
        exact HttpErrno.noConfusion
      refine ⟨next, [b].drop consumed ++ data, user, ?_, overflow, .refl _⟩
      rw [parseBytes_cons, parse, List.length_singleton, parseSome, ran]
      dsimp only
      rw [if_neg error]
      rfl
  | @later parser next b data user told ran ok apart overflows continued =>
      obtain ⟨last, unread, left, ended, overflow, more⟩ := continued
      refine ⟨last, unread, left, ?_, overflow, more.trans apart.symm⟩
      rw [parseBytes_cons, parse, List.length_singleton, parseSome, ran]
      dsimp only
      rw [if_pos ok]
      exact ended

theorem parse_one (pieces : settings.TakesPieces)
    (takes : Takes settings type initial parser (b :: data) user)
    (ran : parser.execute settings [b] user = .returned consumed next left) :
    parser.parse settings [b] user =
      if next.httpErrno = .ok then .whole next left
      else .stopped next ([b].drop consumed) left := by
  have single : [b].length ≤ (b :: data).length := Nat.succ_le_succ (Nat.zero_le _)
  rw [(takes.of_length single).parse_step pieces ran]
  split_ifs with ok
  · obtain rfl := takes.one_consumed pieces ran ok
    rfl
  · rfl

/-- Where the whole data and their rest end alike, they conform to the same. -/
theorem follows_conforms (pieces : settings.TakesPieces)
    (takes : Takes settings type initial parser (b :: data) user)
    (restTakes : Takes settings type initial next data left) (some_data : data ≠ [])
    (follows : Execution.Follows settings b (parser.execute settings (b :: data) user)
      (next.execute settings data left)) {bytewise : Parsed σ}
    (conforms : (next.parse settings data left).Conforms settings bytewise) :
    (parser.parse settings (b :: data) user).Conforms settings bytewise := by
  obtain ⟨ch, rest, rfl⟩ := List.exists_cons_of_ne_nil some_data
  obtain ⟨consumed, whole, wholeLeft, ran, -⟩ := takes.returns (List.cons_ne_nil b (ch :: rest))
  obtain ⟨amount, other, otherLeft, restRan, -⟩ := restTakes.returns (List.cons_ne_nil ch rest)
  rw [restTakes.parse_step pieces restRan] at conforms
  rw [takes.parse_step pieces ran]
  rw [ran, restRan] at follows
  cases follows with
  | returned alike nread apart answered =>
      rw [← alike.httpErrno] at conforms
      split_ifs at conforms ⊢ with ok
      · have same : whole = other := by
          obtain ⟨state, fields, counted, error⟩ := whole
          obtain ⟨otherState, otherFields, otherCounted, otherError⟩ := other
          obtain rfl : error = .ok := ok
          rw [HttpParser.mk.injEq]
          exact ⟨alike.state, alike.fields .ok, nread rfl, alike.httpErrno⟩
        rw [same, answered (ok ▸ .ok)]
        exact conforms
      · exact Parsed.Alike.conforms (.stopped alike apart answered) conforms

/-- The parser comes to what it comes to one character after another. -/
theorem parse_conforms (pieces : settings.TakesPieces)
    (takes : Takes settings type initial parser data user) :
    (parser.parse settings data user).Conforms settings
      (parser.parseBytes settings data user) := by
  induction data generalizing parser user with
  | nil => exact .inl (.whole parser user)
  | cons b data continued =>
      obtain ⟨consumed, next, left, ran, few⟩ := takes.returns (List.cons_ne_nil b [])
      have one := takes.parse_one pieces ran
      rw [parseBytes_cons, one]
      by_cases some_data : data = []
      · subst some_data
        rw [one]
        split_ifs
        · exact .inl (.whole next left)
        · dsimp only [Parsed.andThen]
          rw [List.append_nil]
          exact .inl (.refl_stopped settings _ _ _)
      have splits := takes.splits pieces some_data
      rw [Splits, ran] at splits
      dsimp only at splits
      split_ifs at splits ⊢ with ok
      · obtain ⟨rfl, same | follows | ⟨fails, overflows⟩⟩ := splits
        · rw [takes.parse_step pieces same, if_pos ok]
          exact continued (takes.rest ran ok (Nat.le_succ _))
        · have rest := takes.rest ran ok (Nat.le_succ data.length)
          exact takes.follows_conforms pieces rest some_data follows (continued rest)
        · obtain ⟨last, unread, told, bytes, overflow, apart⟩ := overflow_bytes overflows
          rw [parseBytes_cons, one, if_pos ok] at bytes
          refine .inr ⟨last, unread, told, bytes, overflow, ?_⟩
          obtain ⟨consumed, whole, wholeLeft, ran, -⟩ := takes.returns (List.cons_ne_nil b data)
          rw [ran] at fails
          have error : whole.httpErrno ≠ .ok := by
            intro ok
            exact fails.1 (ok ▸ .ok)
          rw [takes.parse_step pieces ran, if_neg error]
          exact ⟨fails.1, fails.2.symm.trans apart.symm⟩
      · rw [takes.parse_step pieces splits, if_neg ok]
        have same : (b :: data).drop consumed = [b].drop consumed ++ data := by
          rw [List.length_singleton] at few
          rw [← List.drop_append_of_le_length (show consumed ≤ [b].length from few)]
          rfl
        rw [same]
        exact .inl (.refl_stopped settings _ _ _)

/--
It makes no difference how the data are cut: given in pieces, the parser comes to what it comes
to one character after another.
-/
theorem pieces_conform (pieces : settings.TakesPieces) (cut : List (List Byte))
    (takes : Takes settings type initial parser cut.flatten user) :
    (parser.parsePieces settings cut user).Conforms settings
      (parser.parseBytes settings cut.flatten user) := by
  induction cut generalizing parser user with
  | nil => exact .inl (.whole parser user)
  | cons piece cut continued =>
      rw [List.flatten_cons] at takes ⊢
      have shorter : piece.length ≤ (piece ++ cut.flatten).length := by
        rw [List.length_append]
        exact Nat.le_add_right _ _
      rw [parsePieces, parseBytes_append]
      apply ((takes.of_length shorter).parse_conforms pieces).andThen
      intro next left ended
      exact continued (takes.parse_whole ended)

/-- Two ways to cut the same data come to the same, or one character after another there is a
header that is too large. -/
theorem cuts_alike (pieces : settings.TakesPieces) {first second : List (List Byte)}
    (same : first.flatten = second.flatten)
    (takes : Takes settings type initial parser first.flatten user) :
    (parser.parsePieces settings first user).Alike settings
        (parser.parsePieces settings second user) ∨
      ∃ large unread left,
        parser.parseBytes settings first.flatten user = .stopped large unread left ∧
          large.httpErrno = .headerOverflow ∧
          (parser.parsePieces settings first user).StopsApart settings left ∧
          (parser.parsePieces settings second user).StopsApart settings left := by
  have secondTakes := takes
  rw [same] at secondTakes
  have one := takes.pieces_conform pieces first
  have other := secondTakes.pieces_conform pieces second
  rw [← same] at other
  rcases one with alike | ⟨large, unread, left, bytes, overflow, stops⟩
  · rcases other with again | ⟨large, unread, left, bytes, overflow, stops⟩
    · exact .inl (alike.trans again.symm)
    · refine .inr ⟨large, unread, left, bytes, overflow, ?_, stops⟩
      rw [bytes] at alike
      exact alike.stopsApart (overflow ▸ HttpErrno.not_answered_headerOverflow)
  · refine .inr ⟨large, unread, left, bytes, overflow, stops, ?_⟩
    rcases other with again | ⟨other, others, told, ended, -, stops⟩
    · rw [bytes] at again
      exact again.stopsApart (overflow ▸ HttpErrno.not_answered_headerOverflow)
    · obtain ⟨-, -, rfl⟩ := Parsed.stopped.inj (bytes.symm.trans ended)
      exact stops

end Takes

/--
Two ways to cut the same data come to the same: both consume all of them and leave the same, or
both are stopped at the same character by the same error or pause, and only texts told in part
may differ.  The one exception is a header that one character after another is found to be too
large: either cut finds an error, if at another character or another one.
-/
theorem cuts_agree (pieces : settings.TakesPieces) {first second : List (List Byte)}
    (same : first.flatten = second.flatten)
    (reached : Reached settings type initial parser user) (ok : parser.httpErrno = .ok)
    (short : settings.maxHeaderSize + first.flatten.length + 2 < 2 ^ 32) :
    (parser.parsePieces settings first user).Alike settings
        (parser.parsePieces settings second user) ∨
      ∃ large unread left,
        parser.parseBytes settings first.flatten user = .stopped large unread left ∧
          large.httpErrno = .headerOverflow ∧
          (parser.parsePieces settings first user).StopsApart settings left ∧
          (parser.parsePieces settings second user).StopsApart settings left :=
  Takes.cuts_alike pieces same ⟨reached, ok, short⟩

end HttpParser

theorem ParserSettings.collecting_takes (maxHeaderSize : Nat) :
    (collecting maxHeaderSize).TakesPieces where
  content _ _ _ := rfl
  append _ first second texts _ := (List.append_assoc texts first second).symm

theorem HttpParser.cuts_agree_get :
    ((HttpParser.init .request).parsePieces (.collecting 99)
          [ascii "GET /a HTT", ascii "P/1.1\r\nHo", ascii "st: b\r\n\r\n"] []).Alike
        (.collecting 99)
        ((HttpParser.init .request).parsePieces (.collecting 99)
          [ascii "GET /a HTTP/1.1\r\nHost: b\r\n\r", ascii "\n"] []) ∨
      ∃ large unread left,
        (HttpParser.init .request).parseBytes (.collecting 99)
            [ascii "GET /a HTT", ascii "P/1.1\r\nHo", ascii "st: b\r\n\r\n"].flatten [] =
          .stopped large unread left ∧
          large.httpErrno = .headerOverflow ∧
          ((HttpParser.init .request).parsePieces (.collecting 99)
            [ascii "GET /a HTT", ascii "P/1.1\r\nHo", ascii "st: b\r\n\r\n"] []).StopsApart
              (.collecting 99) left ∧
          ((HttpParser.init .request).parsePieces (.collecting 99)
            [ascii "GET /a HTTP/1.1\r\nHost: b\r\n\r", ascii "\n"] []).StopsApart
              (.collecting 99) left :=
  HttpParser.cuts_agree (ParserSettings.collecting_takes 99) (by decide) .init rfl (by decide)

/-- What the callbacks of a request in pieces come to. -/
example :
    (match (HttpParser.init .request).parsePieces (.collecting 99)
        [ascii "GET /a HTT", ascii "P/1.1\r\nHo", ascii "st: b\r\n\r\n"] [] with
      | .whole _ texts => texts
      | _ => []) = ascii "/aHostb" := by
  decide +kernel

/-- A value with a wrong character beyond the limit: in one piece it is found to be wrong, and one
character after another too large. -/
example :
    let text := ascii "GET /\nA: bbbbbbbbbbbbbbbb" ++ [1]
    (match (HttpParser.init .request).parse (.collecting 20) text [] with
      | .stopped parser _ _ => parser.httpErrno
      | _ => .ok) = .invalidHeaderToken ∧
    (match (HttpParser.init .request).parseBytes (.collecting 20) text [] with
      | .stopped parser _ _ => parser.httpErrno
      | _ => .ok) = .headerOverflow := by
  decide +kernel

end ReactiveToolbox.Http
