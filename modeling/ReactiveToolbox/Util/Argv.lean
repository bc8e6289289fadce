import ReactiveToolbox.Lib.TextSearch

/-!
# The lexer of the command line

`ArgvLexer` looks one element ahead: it keeps the option that the element names, or
none where the element is a positional argument, and the value that the element has
attached.  For a positional argument that is the element itself.
-/

namespace ReactiveToolbox.Util

open ReactiveToolbox.Lib

/-- The characters of an element. -/
abbrev Text := List Char

/-- `ArgvLexer`, with the elements from `it_` to `end_`. -/
structure ArgvLexer where
  it_ : List Text
  opt_ : Text
  val_ : Option Text
  deriving DecidableEq

namespace ArgvLexer

/-- `next`, for a lexer whose elements are `it`. -/
def next (it : List Text) : ArgvLexer :=
  match it with
  | [] => ⟨it, [], none⟩
  | arg :: _ =>
      match arg with
      -- a double dash is a positional argument
      | ['-', '-'] => ⟨it, [], some arg⟩
      | '-' :: '-' :: option =>
          match find ['='] option with
          | some pos => ⟨it, option.take pos, some (option.drop (pos + 1))⟩
          | none => ⟨it, option, none⟩
      | '-' :: short :: value => ⟨it, [short], if value = [] then none else some value⟩
      | _ => ⟨it, [], some arg⟩

/-- The constructor, which looks at the first element. -/
def create (args : List Text) : ArgvLexer :=
  next args

/-- `arg`. -/
def arg (self : ArgvLexer) : Text :=
  self.it_.headD []

/-- `pop`. -/
def pop (self : ArgvLexer) : ArgvLexer :=
  next self.it_.tail

/-- `pop_switch`; where it throws, the element is gone and the next one not looked at. -/
def popSwitch (self : ArgvLexer) : ArgvLexer × Except Text Unit :=
  if self.val_.isSome then
    ({ self with it_ := self.it_.tail },
      .error ("unexpected value for option: ".toList ++ self.opt_))
  else (next self.it_.tail, .ok ())

/-- `pop_value`; where it throws, the element is gone and no other one is left. -/
def popValue (self : ArgvLexer) : ArgvLexer × Except Text Text :=
  match self.val_ with
  | some val => (next self.it_.tail, .ok val)
  | none =>
      match self.it_.tail with
      | [] => ({ self with it_ := [] },
          .error ("missing value for option: ".toList ++ self.opt_))
      | val :: rest => (next rest, .ok val)

@[simp]
theorem next_it (it : List Text) : (next it).it_ = it := by
  unfold next
  split
  · rfl
  · split
    · rfl
    · split <;> rfl
    · rfl
    · rfl

theorem popSwitch_ok {self lexer : ArgvLexer} (popped : self.popSwitch = (lexer, .ok ())) :
    self.val_ = none ∧ lexer = next self.it_.tail := by
  unfold popSwitch at popped
  split at popped
  · simp at popped
  · rename_i absent
    obtain ⟨rfl, -⟩ := Prod.mk.inj popped
    exact ⟨by simpa using absent, rfl⟩

/-- A value is the attached one, or without one it is the next element. -/
theorem popValue_ok {self lexer : ArgvLexer} {value : Text}
    (popped : self.popValue = (lexer, .ok value)) :
    (self.val_ = some value ∧ lexer = next self.it_.tail) ∨
      (self.val_ = none ∧ ∃ rest, self.it_.tail = value :: rest ∧ lexer = next rest) := by
  unfold popValue at popped
  split at popped
  · rename_i attached
    obtain ⟨rfl, same⟩ := Prod.mk.inj popped
    cases same
    exact .inl ⟨attached, rfl⟩
  · rename_i absent
    split at popped
    · simp at popped
    · rename_i rest tail
      obtain ⟨rfl, same⟩ := Prod.mk.inj popped
      cases same
      exact .inr ⟨absent, rest, tail, rfl⟩

theorem popSwitch_shorter {self lexer : ArgvLexer} (nonempty : self.it_ ≠ [])
    (popped : self.popSwitch = (lexer, .ok ())) :
    lexer.it_.length < self.it_.length := by
  have positive := List.length_pos_iff.mpr nonempty
  obtain ⟨-, rfl⟩ := popSwitch_ok popped
  simp only [next_it, List.length_tail]
  omega

theorem popValue_shorter {self lexer : ArgvLexer} {value : Text} (nonempty : self.it_ ≠ [])
    (popped : self.popValue = (lexer, .ok value)) :
    lexer.it_.length < self.it_.length := by
  have positive := List.length_pos_iff.mpr nonempty
  have tailLength : self.it_.tail.length = self.it_.length - 1 := List.length_tail
  obtain ⟨-, rfl⟩ | ⟨-, rest, tail, rfl⟩ := popValue_ok popped
  · rw [next_it]
    omega
  · rw [tail, List.length_cons] at tailLength
    rw [next_it]
    omega

theorem pop_shorter {self : ArgvLexer} (nonempty : self.it_ ≠ []) :
    self.pop.it_.length < self.it_.length := by
  have positive := List.length_pos_iff.mpr nonempty
  simp only [pop, next_it, List.length_tail]
  omega

end ArgvLexer

/-! ## The elements of a command line -/

/--
An element that is an option of this name: a dash and a character, or two dashes and
a name, either with the value that may be attached to it.
-/
inductive IsOption : Text → Text → Option Text → Prop where
  | short {name : Char} : name ≠ '-' → IsOption ['-', name] [name] none
  | shortAttached {name : Char} {value : Text} :
      name ≠ '-' → value ≠ [] → IsOption ('-' :: name :: value) [name] (some value)
  | long {name : Text} : name ≠ [] → '=' ∉ name → IsOption ('-' :: '-' :: name) name none
  | longAttached {name value : Text} :
      name ≠ [] → '=' ∉ name →
        IsOption ('-' :: '-' :: (name ++ '=' :: value)) name (some value)

/-- What the lexer takes for the value of a positional argument. -/
def positionalValue (arg : Text) : Text :=
  match arg with
  | '-' :: '-' :: '=' :: value => value
  | _ => arg

/-- A value is taken as it is exactly where it does not begin with two dashes and `=`. -/
theorem positionalValue_eq_self_iff (arg : Text) :
    positionalValue arg = arg ↔ ¬ ['-', '-', '='] <+: arg := by
  constructor
  · rintro same ⟨value, rfl⟩
    have length := congrArg List.length same
    simp only [positionalValue, List.cons_append, List.nil_append, List.length_cons] at length
    omega
  · intro other
    unfold positionalValue
    split
    · exact absurd ⟨_, rfl⟩ other
    · rfl

theorem IsOption.name_ne_nil {arg name : Text} {attached : Option Text}
    (option : IsOption arg name attached) : name ≠ [] := by
  cases option with
  | short | shortAttached => simp
  | long nonempty | longAttached nonempty => exact nonempty

/-- An option is looked at as that option, with the value that it has attached. -/
theorem IsOption.next_eq {arg name : Text} {attached : Option Text}
    (option : IsOption arg name attached) (rest : List Text) :
    ArgvLexer.next (arg :: rest) = ⟨arg :: rest, name, attached⟩ := by
  cases option with
  | short notDash => simp [ArgvLexer.next, notDash]
  | shortAttached notDash nonempty => simp [ArgvLexer.next, notDash, nonempty]
  | long _ noEquals => simp [ArgvLexer.next, find_of_not_mem noEquals]
  | longAttached _ noEquals =>
      simp [ArgvLexer.next, find_symbol noEquals]

/-- An element is one option at most. -/
theorem IsOption.unique {arg name other : Text} {attached otherAttached : Option Text}
    (first : IsOption arg name attached) (second : IsOption arg other otherAttached) :
    name = other ∧ attached = otherAttached := by
  have looked := (first.next_eq []).symm.trans (second.next_eq [])
  simpa using looked

/-- Two dashes and more are no option only where the name is empty. -/
theorem next_eq_of_empty_name {first : Char} {more : Text}
    (positional : ∀ name attached, ¬ IsOption ('-' :: '-' :: first :: more) name attached)
    (rest : List Text) :
    ArgvLexer.next (('-' :: '-' :: first :: more) :: rest) =
      ⟨('-' :: '-' :: first :: more) :: rest, [],
        some (positionalValue ('-' :: '-' :: first :: more))⟩ := by
  cases found : find ['='] (first :: more) with
  | none =>
      exact absurd (.long (by simp) (not_mem_of_find_symbol found)) (positional _ _)
  | some pos =>
      obtain ⟨absent, cut⟩ := exists_of_find_symbol found
      cases pos with
      | zero =>
          obtain rfl : first = '=' := by simpa using congrArg List.head? cut
          simp [ArgvLexer.next, found, positionalValue]
      | succ pos =>
          have option : IsOption ('-' :: '-' :: ((first :: more).take (pos + 1) ++
              '=' :: (first :: more).drop (pos + 1 + 1))) ((first :: more).take (pos + 1))
              (some ((first :: more).drop (pos + 1 + 1))) := .longAttached (by simp) absent
          rw [← cut] at option
          exact absurd option (positional _ _)

/-- What is not an option is looked at as a positional argument. -/
theorem next_eq_of_not_isOption {arg : Text}
    (positional : ∀ name attached, ¬ IsOption arg name attached) (rest : List Text) :
    ArgvLexer.next (arg :: rest) = ⟨arg :: rest, [], some (positionalValue arg)⟩ := by
  match arg with
  | [] => rfl
  | [first] =>
      by_cases dash : first = '-'
      · subst dash
        rfl
      · simp [ArgvLexer.next, positionalValue]
  | first :: short :: value =>
      by_cases dash : first = '-'
      · subst dash
        by_cases double : short = '-'
        · subst double
          cases value with
          | nil => rfl
          | cons first more => exact next_eq_of_empty_name positional rest
        · by_cases empty : value = []
          · subst empty
            exact absurd (.short double) (positional _ _)
          · exact absurd (.shortAttached double empty) (positional _ _)
      · simp [ArgvLexer.next, positionalValue, dash]

end ReactiveToolbox.Util
