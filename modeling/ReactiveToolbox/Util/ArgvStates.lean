import Mathlib.Data.List.Infix
import ReactiveToolbox.Lib.Transition
import ReactiveToolbox.Util.Argv

/-!
# What the lexer has looked at

Between its calls `ArgvLexer` knows what the element is that it stands at, unless that
element is two dashes and `=`.  A call that throws has gone on to the next element
without a look at it, so that the lexer still tells of the element before.
-/

namespace ReactiveToolbox.Util

open ReactiveToolbox.Lib

/-- A call on a lexer. -/
inductive LexerCall where
  | pop
  | popSwitch
  | popValue
  deriving DecidableEq

/-- A lexer between two calls, and whether the last call has thrown. -/
structure LexerState where
  lexer : ArgvLexer
  threw : Bool
  deriving DecidableEq

namespace LexerState

/-- The lexer as it is made. -/
def start (args : List Text) : LexerState :=
  ⟨.create args, false⟩

/-- The lexer after a call that may throw. -/
def after {α : Type} : ArgvLexer × Except Text α → LexerState
  | (lexer, .error _) => ⟨lexer, true⟩
  | (lexer, .ok _) => ⟨lexer, false⟩

/-- One call; on an empty lexer the iterator would run past the end. -/
def step (self : LexerState) (call : LexerCall) : Option LexerState :=
  if self.lexer.it_ = [] then none
  else
    match call with
    | .pop => some ⟨self.lexer.pop, false⟩
    | .popSwitch => some (after self.lexer.popSwitch)
    | .popValue => some (after self.lexer.popValue)

end LexerState

namespace ArgvLexer

/-- The value of an option: the attached one, or the next element. -/
def valueOf (self : ArgvLexer) : Option Text → Except Text Text
  | some value => .ok value
  | none =>
      match self.it_.tail with
      | [] => .error ("missing value for option: ".toList ++ self.opt_)
      | next :: _ => .ok next

/-- The lexer tells what the element is that it stands at. -/
structure Knows (lexer : ArgvLexer) : Prop where
  positional : lexer.opt_ = [] → lexer.it_ ≠ [] →
    (∀ name attached, ¬IsOption lexer.arg name attached) ∧ lexer.popValue.2 = .ok lexer.arg
  option : lexer.opt_ ≠ [] → ∃ attached, lexer.it_ ≠ [] ∧
    IsOption lexer.arg lexer.opt_ attached ∧ lexer.popValue.2 = lexer.valueOf attached

/-- No option has an empty name. -/
theorem IsOption.not_emptyName {arg name : Text} {attached : Option Text}
    (option : IsOption arg name attached) : ¬['-', '-', '='] <+: arg := by
  rintro ⟨value, rfl⟩
  have looked := option.next_eq []
  have noName : (next [['-', '-', '='] ++ value]).opt_ = [] := by
    simp [next, find, List.isPrefixOf]
  rw [looked] at noName
  exact option.name_ne_nil noName

theorem knows_of_isOption {arg name : Text} {attached : Option Text} {rest : List Text}
    (option : IsOption arg name attached) : (next (arg :: rest)).Knows := by
  rw [option.next_eq rest]
  refine ⟨fun noName => absurd noName option.name_ne_nil, fun _ => ⟨attached, by simp, option, ?_⟩⟩
  cases attached with
  | some value => rfl
  | none =>
      cases rest with
      | nil => rfl
      | cons value more => rfl

/-- A lexer that has just looked knows its element, if that is not without a name. -/
theorem knows_next_iff (args : List Text) :
    (next args).Knows ↔ ¬['-', '-', '='] <+: (next args).arg := by
  cases args with
  | nil =>
      refine iff_of_true ⟨fun _ some => absurd rfl some, fun name => absurd rfl name⟩ ?_
      simp [next, arg]
  | cons arg rest =>
      have same : (next (arg :: rest)).arg = arg := by
        rw [ArgvLexer.arg, next_it, List.headD_cons]
      rw [same]
      by_cases isOption : ∃ name attached, IsOption arg name attached
      · obtain ⟨name, attached, option⟩ := isOption
        exact iff_of_true (knows_of_isOption option) (IsOption.not_emptyName option)
      · have none : ∀ name attached, ¬IsOption arg name attached :=
          fun name attached option => isOption ⟨name, attached, option⟩
        have looked := next_eq_of_not_isOption none rest
        rw [← positionalValue_eq_self_iff]
        constructor
        · intro knows
          have popped := (knows.positional (by rw [looked]) (by simp)).2
          rw [same, looked] at popped
          exact Except.ok.inj popped
        · intro whole
          rw [looked, whole]
          exact ⟨fun _ _ => ⟨none, rfl⟩, fun name => absurd rfl name⟩

end ArgvLexer

namespace LexerState

variable {args : List Text} {state : LexerState}

/-- A call that returns has looked at the element that it leaves the lexer at. -/
theorem step_looked {before : LexerState} {call : LexerCall}
    (taken : before.step call = some state) :
    state.threw = false → ∃ rest, state.lexer = .next rest := by
  unfold step at taken
  split at taken
  · cases taken
  · cases call with
    | pop =>
        cases taken
        exact fun _ => ⟨_, rfl⟩
    | popSwitch =>
        obtain rfl := Option.some.inj taken
        rcases popped : before.lexer.popSwitch with ⟨lexer, what | value⟩
        · exact fun returned => nomatch returned
        · exact fun _ => ⟨_, (ArgvLexer.popSwitch_ok popped).2⟩
    | popValue =>
        obtain rfl := Option.some.inj taken
        rcases popped : before.lexer.popValue with ⟨lexer, what | value⟩
        · exact fun returned => nomatch returned
        · obtain ⟨-, same⟩ | ⟨-, rest, -, same⟩ := ArgvLexer.popValue_ok popped
          · exact fun _ => ⟨_, same⟩
          · exact fun _ => ⟨_, same⟩

/--
For every argument vector and every sequence of calls: unless the last call has thrown,
the lexer tells what its element is and what its value is if and only if the element
does not begin with two dashes and `=`.
-/
theorem reachable_knows_iff (reached : Reachable step unguarded (start args) state)
    (returned : state.threw = false) :
    state.lexer.Knows ↔ ¬['-', '-', '='] <+: state.lexer.arg := by
  have looked : state.threw = false → ∃ rest, state.lexer = .next rest :=
    reached.invariant (fun _ => ⟨args, rfl⟩)
      fun _ _ _ _ _ taken => step_looked taken
  obtain ⟨rest, same⟩ := looked returned
  rw [same]
  exact ArgvLexer.knows_next_iff rest

/-- A switch with a value is popped as a value, which leaves a positional argument. -/
theorem reachable_knows_iff_attached :
    ∃ state, Reachable step unguarded (start [['-', 'a', 'b'], ['c']]) state ∧
      state.lexer = ⟨[['c']], [], some ['c']⟩ ∧ state.lexer.Knows := by
  have computed : (execute step unguarded (start [['-', 'a', 'b'], ['c']]) [.popValue]).map id =
      some ⟨⟨[['c']], [], some ['c']⟩, false⟩ := by
    decide
  obtain ⟨state, reached, rfl⟩ := Reachable.of_execute computed
  exact ⟨_, reached, rfl, (reachable_knows_iff reached rfl).mpr (by decide)⟩

/--
The value of the element `--=x` is taken without its dashes.  A lexer whose
`pop_switch` has thrown at `-ab` still tells of the option `a` where it stands at `c`.
-/
theorem not_knows_emptyName :
    (∃ state, Reachable step unguarded (start [['-', '-', '=', 'x']]) state ∧
        state.threw = false ∧ state.lexer.opt_ = [] ∧
        state.lexer.popValue.2 = .ok ['x'] ∧ ¬state.lexer.Knows) ∧
      ∃ state, Reachable step unguarded (start [['-', 'a', 'b'], ['c']]) state ∧
        state.lexer.arg = ['c'] ∧ state.lexer.opt_ = ['a'] ∧ ¬state.lexer.Knows := by
  constructor
  · refine ⟨_, .refl, rfl, rfl, rfl, fun knows => ?_⟩
    have popped := (knows.positional rfl (by decide)).2
    exact absurd (Except.ok.inj popped) (by decide)
  · have computed :
        (execute step unguarded (start [['-', 'a', 'b'], ['c']]) [.popSwitch]).map id =
          some ⟨⟨[['c']], ['a'], some ['b']⟩, true⟩ := by
      decide
    obtain ⟨state, reached, rfl⟩ := Reachable.of_execute computed
    refine ⟨_, reached, rfl, rfl, fun knows => ?_⟩
    obtain ⟨attached, -, option, -⟩ := knows.option (by decide)
    have other : ([] : Text) = ['a'] := congrArg ArgvLexer.opt_ (option.next_eq [])
    exact absurd other (by decide)

end LexerState

end ReactiveToolbox.Util
