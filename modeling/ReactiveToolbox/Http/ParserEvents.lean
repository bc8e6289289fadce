import ReactiveToolbox.Http.ParserRuns

/-!
# The callbacks of a run

A run of the parser is any sequence of executions, with pauses between and within them.  The
callbacks of a run are written down, which changes nothing of it, and follow the phases of a
message.
-/

namespace ReactiveToolbox.Http

open ReactiveToolbox.Io

universe u v

variable {σ : Type u} {τ : Type v}

/-! ## Callbacks written down -/

/-- A callback of the parser, with the fields that it goes on with, or with the text. -/
inductive ParserEvent where
  | notify (notice : Notice) (fields : ParserFields)
  | headersComplete (fields : ParserFields)
  | data (piece : Piece) (text : List Byte)
  deriving DecidableEq

namespace ParserSettings

/-- The same callbacks, which are written down. -/
def recorded (settings : ParserSettings σ) : ParserSettings (σ × List ParserEvent) where
  maxHeaderSize := settings.maxHeaderSize
  notify notice fields user :=
    let (reply, next) := settings.notify notice fields user.1
    (reply, next, user.2 ++ [.notify notice fields])
  headersComplete fields user :=
    let (reply, next) := settings.headersComplete fields user.1
    (reply, next, user.2 ++ [.headersComplete (fields.answered reply.code)])
  data piece text user :=
    let (reply, next) := settings.data piece text user.1
    (reply, next, user.2 ++ [.data piece text])

/-- Callbacks that answer alike, and of which the one changes what the other's state is seen
as. -/
structure Maps (source : ParserSettings σ) (target : ParserSettings τ) (view : σ → τ) : Prop where
  maxHeaderSize : target.maxHeaderSize = source.maxHeaderSize
  notify : ∀ notice fields user,
    target.notify notice fields (view user) =
      ((source.notify notice fields user).1, view (source.notify notice fields user).2)
  headersComplete : ∀ fields user,
    target.headersComplete fields (view user) =
      ((source.headersComplete fields user).1, view (source.headersComplete fields user).2)
  data : ∀ piece text user,
    target.data piece text (view user) =
      ((source.data piece text user).1, view (source.data piece text user).2)

theorem recorded_maps (settings : ParserSettings σ) :
    Maps settings.recorded settings Prod.fst where
  maxHeaderSize := rfl
  notify _ _ _ := rfl
  headersComplete _ _ := rfl
  data _ _ _ := rfl

end ParserSettings

/-! ## Views -/

/-- An execution of which less of the user is seen. -/
def Execution.map (view : σ → τ) (execution : Execution σ) : Execution τ where
  p := execution.p
  state := execution.state
  fields := execution.fields
  nread := execution.nread
  stored := execution.stored
  mark := execution.mark
  user := view execution.user

/-- An outcome of which less of the user is seen. -/
def Outcome.map (view : σ → τ) : Outcome σ → Outcome τ
  | .running execution => .running (execution.map view)
  | .returned consumed parser user => .returned consumed parser (view user)
  | .aborted => .aborted

namespace Execution

variable {source : ParserSettings σ} {target : ParserSettings τ} {view : σ → τ}
  {data : List Byte}

theorem answered_map (execution : Execution σ) (reply : Reply) (error : HttpErrno)
    (passed : Nat) (state : ParserState) (fields : ParserFields)
    {go : Execution σ → Outcome σ} {goTarget : Execution τ → Outcome τ}
    (same : ∀ execution, goTarget (execution.map view) = (go execution).map view) :
    (execution.map view).answered reply error passed state fields goTarget =
      (execution.answered reply error passed state fields go).map view := by
  rw [answered, answered]
  split
  · rfl
  · exact same { execution with state := state, fields := fields }

theorem callData_some {settings : ParserSettings σ} {execution : Execution σ} {piece : Piece}
    {start : Nat} (marked : execution.mark piece = some start) (more passed : Nat)
    (state : ParserState) (fields : ParserFields) (go : Execution σ → Outcome σ) :
    execution.callData settings data piece more passed state fields go =
      { execution with
        user := (settings.data piece (execution.marked data start more) execution.user).2 }.answered
        (settings.data piece (execution.marked data start more) execution.user).1 piece.errno
        passed state fields fun execution => go (execution.setMark piece none) := by
  rw [callData, marked]

theorem perform_notify (settings : ParserSettings σ) (execution : Execution σ) (notice : Notice)
    (passed : Nat) (state : ParserState) (fields : ParserFields) (after : Handling) :
    execution.perform settings data (.notify notice passed state fields after) =
      { execution with user := (settings.notify notice fields execution.user).2 }.answered
        (settings.notify notice fields execution.user).1 notice.errno passed state fields
        (perform settings data after) :=
  rfl

theorem callData_map (maps : source.Maps target view) (execution : Execution σ) (piece : Piece)
    (more passed : Nat) (state : ParserState) (fields : ParserFields)
    {go : Execution σ → Outcome σ} {goTarget : Execution τ → Outcome τ}
    (same : ∀ execution, goTarget (execution.map view) = (go execution).map view) :
    (execution.map view).callData target data piece more passed state fields goTarget =
      (execution.callData source data piece more passed state fields go).map view := by
  cases marked : execution.mark piece with
  | none =>
      have unmarked : (execution.map view).mark piece = none := marked
      rw [callData_unmarked marked, callData_unmarked unmarked]
      exact same { execution with state := state, fields := fields }
  | some start =>
      have targetMark : (execution.map view).mark piece = some start := marked
      have told : target.data piece ((execution.map view).marked data start more)
          (execution.map view).user = _ :=
        maps.data piece (execution.marked data start more) execution.user
      rw [callData_some marked, callData_some targetMark, told]
      exact answered_map
        { execution with
          user := (source.data piece (execution.marked data start more) execution.user).2 }
        _ _ _ _ _ fun execution => same (execution.setMark piece none)

theorem perform_map (maps : source.Maps target view) (handling : Handling)
    (execution : Execution σ) :
    (execution.map view).perform target data handling =
      (execution.perform source data handling).map view := by
  induction handling generalizing execution with
  | next state fields => rfl
  | fail errno state fields => rfl
  | exit state fields => rfl
  | assert holds after continued =>
      cases holds with
      | false => rfl
      | true => exact continued execution
  | count amount state fields after continued =>
      have nread : (execution.map view).nread = execution.nread := rfl
      rw [perform, perform, maps.maxHeaderSize, nread]
      split
      · rfl
      · exact continued { execution with nread := (execution.nread + amount) % 2 ^ 32 }
  | resetNread after continued => exact continued { execution with nread := 0, stored := 0 }
  | mark piece after continued =>
      have mark : (execution.map view).mark = execution.mark := rfl
      rw [perform, perform, mark]
      split
      · exact continued (execution.setMark piece (some execution.p))
      · exact continued execution
  | advance amount after continued =>
      exact continued { execution with p := execution.p + amount }
  | data piece more passed state fields after continued =>
      exact callData_map maps execution piece more passed state fields continued
  | notify notice passed state fields after continued =>
      have told : target.notify notice fields (execution.map view).user = _ :=
        maps.notify notice fields execution.user
      rw [perform_notify, perform_notify, told]
      exact answered_map
        { execution with user := (source.notify notice fields execution.user).2 } _ _ _ _ _
        continued
  | headersComplete state fields after continued =>
      have told : target.headersComplete fields (execution.map view).user = _ :=
        maps.headersComplete fields execution.user
      rw [perform, perform, told]
      dsimp only [headersAnswered]
      split
      · rfl
      · split
        · rfl
        · exact continued _ { execution with
            state := state
            fields := fields.answered (source.headersComplete fields execution.user).1.code
            user := (source.headersComplete fields execution.user).2 }

theorem round_map (maps : source.Maps target view) (execution : Execution σ) :
    (execution.map view).round target data = (execution.round source data).map view := by
  have p : (execution.map view).p = execution.p := rfl
  rw [Execution.round, Execution.round, p, maps.maxHeaderSize]
  cases data.drop execution.p with
  | nil => rfl
  | cons ch rest =>
      have state : (execution.map view).state = execution.state := rfl
      have nread : (execution.map view).nread = execution.nread := rfl
      dsimp only
      rw [state, nread]
      split
      · split
        · rfl
        · exact perform_map maps _ { execution with nread := (execution.nread + 1) % 2 ^ 32 }
      · exact perform_map maps _ execution

theorem loop_map (maps : source.Maps target view) (fuel : Nat) (execution : Execution σ) :
    (execution.map view).loop target data fuel = (execution.loop source data fuel).map view := by
  induction fuel generalizing execution with
  | zero => rfl
  | succ fuel continued =>
      have p : (execution.map view).p = execution.p := rfl
      rw [loop, loop, p, round_map maps]
      split
      · rfl
      · cases execution.round source data with
        | running next => exact continued next
        | returned consumed parser user => rfl
        | aborted => rfl

theorem leftover_map (maps : source.Maps target view) (state : ParserState)
    (fields : ParserFields) (remaining : List Piece) (execution : Execution σ) :
    (execution.map view).leftover target data state fields remaining =
      (execution.leftover source data state fields remaining).map view := by
  induction remaining generalizing execution with
  | nil => rfl
  | cons piece remaining continued =>
      exact callData_map maps execution piece 0 0 state fields continued

theorem finish_map (maps : source.Maps target view) (execution : Execution σ) :
    (execution.map view).finish target data = (execution.finish source data).map view := by
  have mark : (execution.map view).mark = execution.mark := rfl
  rw [finish, finish, mark]
  split
  · exact leftover_map maps _ _ _ execution
  · rfl

end Execution

theorem HttpParser.executeEof_map {source : ParserSettings σ} {target : ParserSettings τ}
    {view : σ → τ} (maps : source.Maps target view) (parser : HttpParser) (user : σ) :
    parser.executeEof target (view user) = (parser.executeEof source user).map view := by
  rw [executeEof, executeEof, maps.notify]
  split
  · exact Execution.answered_map (Execution.start parser
      (source.notify .messageComplete parser.fields user).2) _ _ _ _ _ fun _ => rfl
  · rfl
  · rfl
  · rfl
  · rfl
  · rfl

/-- What the callbacks' states are seen as makes no difference to the parser. -/
theorem HttpParser.execute_map {source : ParserSettings σ} {target : ParserSettings τ}
    {view : σ → τ} (maps : source.Maps target view) (parser : HttpParser) (data : List Byte)
    (user : σ) :
    parser.execute target data (view user) = (parser.execute source data user).map view := by
  rw [execute, execute]
  split
  · rfl
  · split
    · exact executeEof_map maps parser user
    · have looped : (Execution.start parser (view user)).loop target data data.length = _ :=
        Execution.loop_map maps data.length (Execution.start parser user)
      rw [looped]
      cases (Execution.start parser user).loop source data data.length with
      | running next => exact Execution.finish_map maps next
      | returned consumed parser user => rfl
      | aborted => rfl

end ReactiveToolbox.Http
