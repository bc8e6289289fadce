import Mathlib.Algebra.Group.Nat.Defs
import Mathlib.Data.List.Infix
import ReactiveToolbox.Util.OptionsReading

/-!
# Registrations that throw

`Options::operator()` puts an option into the help listing before it looks whether its
names are taken, and enters the short name before it looks at the long one.  A
registration that throws is therefore listed, and may be accepted.
-/

namespace ReactiveToolbox.Util

/-- `Options` with the descriptions, its own and those of the data in `help_`. -/
structure DescribedOptions where
  options : Options
  description_ : Text
  descriptions : List Text
  described : descriptions.length = options.help_.length

/-- A call of `operator()`. -/
inductive Registration where
  | option (shortOpt : Option Char) (longOpt : Text) (data : Data) (description : Text)
  | positional (data : Data)

namespace Options

/-- The options that `operator[]` knows. -/
def Accepted (self : Options) (name : Text) : Prop :=
  name ∈ self.opts_.map Prod.fst

instance (self : Options) (name : Text) : Decidable (self.Accepted name) :=
  inferInstanceAs (Decidable (_ ∈ _))

variable {self : Options} {name longOpt what : Text} {index : Nat} {shortOpt : Option Char}
  {data : Data}

/-- A name that is found has its datum. -/
theorem within_of_lookup (known : self.opts_.lookup name = some index) :
    index < self.help_.length := by
  obtain ⟨front, back, split, -⟩ := List.lookup_eq_some_iff.mp known
  refine self.named (name, index) ?_
  rw [split]
  exact List.mem_append_right _ List.mem_cons_self

/-- What a name that is put into the map leaves as it is. -/
structure Kept (before after : Options) : Prop where
  help : after.help_ = before.help_
  positional : after.positional_ = before.positional_

theorem emplace_kept (within : index < self.help_.length) :
    Kept self (self.emplace name index within).1 := by
  unfold emplace
  split <;> exact ⟨rfl, rfl⟩

theorem emplace_taken (self : Options) (within : index < self.help_.length)
    (taken : self.Accepted name) :
    self.emplace name index within =
      (self, .error ("attempting to register duplicate option ".toList ++ name)) :=
  dif_pos taken

theorem emplace_error (within : index < self.help_.length)
    (failed : (self.emplace name index within).2 = .error what) :
    (self.emplace name index within).1 = self := by
  unfold emplace at failed ⊢
  split at failed
  · rename_i taken
    rw [dif_pos taken]
  · cases failed

theorem emplace_free (self : Options) (within : index < self.help_.length)
    (free : ¬self.Accepted name) :
    (self.emplace name index within).1.opts_ = insertName self.opts_ name index ∧
      (self.emplace name index within).2 = .ok () := by
  unfold emplace
  split
  · rename_i taken
    exact absurd taken free
  · exact ⟨rfl, rfl⟩

/-- Whatever comes of it, the datum is behind the others. -/
theorem option_kept (self : Options) (shortOpt : Option Char) (longOpt : Text) (data : Data) :
    Kept (self.pushHelp ⟨shortOpt.toList, longOpt, data⟩)
      (self.option shortOpt longOpt data).1 := by
  have trans : ∀ {before middle after : Options}, Kept before middle → Kept middle after →
      Kept before after :=
    fun first second => ⟨second.help.trans first.help, second.positional.trans first.positional⟩
  unfold option
  cases shortOpt with
  | none =>
      simp only [Option.isSome_none, Bool.false_eq_true, if_false]
      split
      · exact ⟨rfl, rfl⟩
      · exact emplace_kept _
  | some short =>
      simp only [Option.isSome_some, if_true]
      split
      · exact emplace_kept _
      · split
        · exact emplace_kept _
        · exact trans (emplace_kept _) (emplace_kept _)

/-- What a registration that throws has made of the names. -/
theorem option_error (failed : (self.option shortOpt longOpt data).2 = .error what) :
    (self.option shortOpt longOpt data).1.opts_ = self.opts_ ∧
        (∀ short, shortOpt = some short → self.Accepted [short]) ∨
      ∃ short, shortOpt = some short ∧ ¬self.Accepted [short] ∧
        (self.option shortOpt longOpt data).1.opts_ =
          insertName self.opts_ [short] self.help_.length := by
  unfold option at failed ⊢
  cases shortOpt with
  | none =>
      simp only [Option.isSome_none, Bool.false_eq_true, if_false] at failed ⊢
      split at failed
      · cases failed
      · rename_i long
        refine .inl ⟨?_, fun short none => nomatch none⟩
        rw [if_neg long, emplace_error _ failed]
        rfl
  | some short =>
      simp only [Option.isSome_some, if_true] at failed ⊢
      by_cases taken : self.Accepted [short]
      · refine .inl ⟨?_, fun other same => Option.some.inj same ▸ taken⟩
        simp only [Option.toList_some,
          emplace_taken (self.pushHelp ⟨[short], longOpt, data⟩) _ taken]
        rfl
      · refine .inr ⟨short, rfl, taken, ?_⟩
        have within : self.help_.length <
            (self.pushHelp ⟨[short], longOpt, data⟩).help_.length := by
          simp [pushHelp]
        obtain ⟨names, entered⟩ := emplace_free _ within taken
        split at failed
        · rename_i refused
          exact absurd (refused.symm.trans entered) (by simp)
        · split at failed
          · exact absurd (entered.symm.trans failed) (by simp)
          · rename_i long
            rw [if_neg long, emplace_error _ failed]
            exact names

end Options

namespace DescribedOptions

/-- The constructor: nothing is registered. -/
def create (description : Text) : DescribedOptions where
  options := .create
  description_ := description
  descriptions := []
  described := rfl

/-- One call of `operator()`. -/
def register (self : DescribedOptions) :
    Registration → DescribedOptions × Except Text Unit
  | .option shortOpt longOpt data description =>
      ({ self with
          options := (self.options.option shortOpt longOpt data).1
          descriptions := self.descriptions ++ [description]
          described := by
            rw [(self.options.option_kept shortOpt longOpt data).help, Options.pushHelp,
              List.length_append, List.length_append, self.described]
            rfl },
        (self.options.option shortOpt longOpt data).2)
  | .positional data => ({ self with options := self.options.positional data }, .ok ())

/-! ## The help listing -/

/-- `setw` of an `unsigned` and the blank that it is for: a negative `int` pads nothing. -/
def blanks (maxWidth : Int) : Text :=
  List.replicate (max 1 (maxWidth.bmod (2 ^ 32)).toNat) ' '

/-- One line of `operator<<`. -/
def line (datum : OptionData) (description : Text) : Text :=
  let names :=
    (if datum.shortOpt = [] then [] else '-' :: datum.shortOpt) ++
      if datum.longOpt = [] then []
      else (if datum.shortOpt = [] then [] else ", ".toList) ++ "--".toList ++ datum.longOpt
  let maxWidth : Int :=
    15 - (if datum.shortOpt = [] then 0 else 2) -
      if datum.longOpt = [] then 0
      else (if datum.shortOpt = [] then 0 else 2) + (2 + datum.longOpt.length)
  "  ".toList ++ names ++ blanks maxWidth ++ description ++ ['\n']

/-- `operator<<`. -/
def listing (self : DescribedOptions) : Text :=
  "Usage: ".toList ++ self.description_ ++ "\nOptions:\n".toList ++
    (List.zipWith line self.options.help_ self.descriptions).flatten

end DescribedOptions

/-! ## Options with data that no name refers to -/

namespace Options

/-- The same names and positional arguments, over a help listing that goes on. -/
structure Extends (small large : Options) : Prop where
  names : large.opts_ = small.opts_
  positional : large.positional_ = small.positional_
  help : small.help_ <+: large.help_

/-- Two calls throw the same, or return what is related. -/
inductive Alike {α β : Type} (related : α → β → Prop) : Except Stop α → Except Stop β → Prop where
  | error {stop : Stop} : Alike related (.error stop) (.error stop)
  | ok {result : α} {other : β} : related result other → Alike related (.ok result) (.ok other)

/-- With the same remainder of the loop's variables. -/
def ExtendsWith {α : Type} (small large : Options × α) : Prop :=
  Extends small.1 large.1 ∧ small.2 = large.2

variable {small large : Options} {index : Nat} {data : Data}

namespace Extends

theorem getElem?_help (extended : Extends small large) (within : index < small.help_.length) :
    large.help_[index]? = small.help_[index]? := by
  obtain ⟨more, same⟩ := extended.help
  rw [← same, List.getElem?_append_left within]

theorem setAt_option (extended : Extends small large) (within : index < small.help_.length)
    (data : Data) :
    Extends (small.setAt (.option index) data) (large.setAt (.option index) data) := by
  refine ⟨extended.names, extended.positional, ?_⟩
  obtain ⟨more, same⟩ := extended.help
  refine ⟨more, List.ext_getElem? fun position => ?_⟩
  simp only [setAt, ← same, List.getElem?_append, List.getElem?_modify, List.length_modify]
  by_cases inside : position < small.help_.length
  · rw [if_pos inside, if_pos inside]
  · have different : index ≠ position := fun same => inside (same ▸ within)
    simp [inside, different]

theorem setAt_positional (extended : Extends small large) (index : Nat) (data : Data) :
    Extends (small.setAt (.positional index) data) (large.setAt (.positional index) data) := by
  refine ⟨extended.names, ?_, extended.help⟩
  simp only [setAt, extended.positional]

/-- A datum that both have is visited alike. -/
theorem visitData (extended : Extends small large) {slot : Slot}
    (set : ∀ data, Extends (small.setAt slot data) (large.setAt slot data)) (data : Data)
    (lex : ArgvLexer) :
    Alike ExtendsWith (small.visitData slot data lex) (large.visitData slot data lex) := by
  cases data with
  | help =>
      simp only [Options.visitData]
      split <;> exact .error
  | switch flag =>
      simp only [Options.visitData]
      split
      · exact .error
      · exact .ok ⟨set _, rfl⟩
  | value value =>
      simp only [Options.visitData]
      split
      · exact .error
      · split
        · exact .error
        · exact .ok ⟨set _, rfl⟩
  | noOp => exact .ok ⟨extended, rfl⟩

theorem parseStep (extended : Extends small large) (lex : ArgvLexer) (idx : Nat) :
    Alike ExtendsWith (small.parseStep lex idx) (large.parseStep lex idx) := by
  unfold Options.parseStep
  by_cases positional : lex.opt_ = []
  · rw [if_pos positional, if_pos positional, extended.positional]
    cases found : small.positional_[idx]? with
    | none => exact .error
    | some data =>
        have visited := extended.visitData (extended.setAt_positional idx) data lex
        simp only [bind, Except.bind]
        generalize small.visitData (.positional idx) data lex = one at visited
        generalize large.visitData (.positional idx) data lex = other at visited
        cases visited with
        | error => exact .error
        | ok related => exact .ok ⟨related.1, by rw [related.2]⟩
  · rw [if_neg positional, if_neg positional, extended.names]
    cases known : small.opts_.lookup lex.opt_ with
    | none => exact .error
    | some index =>
        have within := within_of_lookup known
        simp only [extended.getElem?_help within, List.getElem?_eq_getElem within]
        have visited := extended.visitData (extended.setAt_option within)
          small.help_[index].data lex
        simp only [bind, Except.bind]
        generalize small.visitData (.option index) _ lex = one at visited
        generalize large.visitData (.option index) _ lex = other at visited
        cases visited with
        | error => exact .error
        | ok related => exact .ok ⟨related.1, by rw [related.2]⟩

theorem parseLoop (extended : Extends small large) (lex : ArgvLexer) (idx : Nat) :
    Alike Extends (small.parseLoop lex idx) (large.parseLoop lex idx) := by
  induction size : lex.it_.length using Nat.strongRecOn generalizing small large lex idx with
  | _ _ shorter =>
      by_cases ended : lex.it_ = []
      · rw [parseLoop_end ended, parseLoop_end ended]
        exact .ok extended
      · have stepped := extended.parseStep lex idx
        generalize one : small.parseStep lex idx = result at stepped
        generalize other : large.parseStep lex idx = otherResult at stepped
        cases stepped with
        | error =>
            rw [parseLoop_stop ended one, parseLoop_stop ended other]
            exact .error
        | @ok result otherResult related =>
            obtain ⟨options, rest, next⟩ := result
            obtain ⟨otherOptions, remaining⟩ := otherResult
            obtain ⟨more, rfl⟩ := related
            rw [parseLoop_step ended one, parseLoop_step ended other]
            exact shorter _ (size ▸ parseStep_shorter ended one) more rest next rfl

/-- Checks that agree on the entries end alike. -/
theorem forM_congr {α : Type} {entries : List α} {check other : α → Except Stop Unit}
    (same : ∀ entry ∈ entries, check entry = other entry) :
    forM entries check = forM entries other := by
  induction entries with
  | nil => rfl
  | cons entry rest continued =>
      rw [List.forM_cons, List.forM_cons, same entry List.mem_cons_self,
        continued fun later member => same later (List.mem_cons_of_mem _ member)]

theorem checkOpts (extended : Extends small large) : large.checkOpts = small.checkOpts := by
  unfold Options.checkOpts
  rw [extended.names]
  refine forM_congr fun entry member => ?_
  rw [extended.getElem?_help (small.named entry member)]

theorem checkPositional (extended : Extends small large) :
    large.checkPositional = small.checkPositional := by
  unfold Options.checkPositional
  rw [extended.positional]

theorem parse (extended : Extends small large) (argv : List Text) :
    Alike Extends (small.parse argv) (large.parse argv) := by
  have parsed := extended.parseLoop (ArgvLexer.create argv.tail) 0
  unfold Options.parse
  generalize small.parseLoop (ArgvLexer.create argv.tail) 0 = one at parsed
  generalize large.parseLoop (ArgvLexer.create argv.tail) 0 = other at parsed
  cases parsed with
  | error => exact .error
  | @ok result otherResult related =>
      simp only [bind, Except.bind, related.checkOpts, related.checkPositional]
      cases result.checkOpts with
      | error => exact .error
      | ok =>
          cases result.checkPositional with
          | error => exact .error
          | ok => exact .ok related

end Extends

/-! ## What is seen of the options -/

/-- The data by their names, and the positional ones. -/
def observe (self : Options) : List (Text × Option Data) × List Data :=
  (self.opts_.map fun entry => (entry.1, self.dataAt (.option entry.2)), self.positional_)

/-- `parse` throws the same, or leaves the same data. -/
def ParsesAlike (before after : Options) : Prop :=
  ∀ argv, (after.parse argv).map observe = (before.parse argv).map observe

theorem Extends.observe (extended : Extends small large) : large.observe = small.observe := by
  unfold Options.observe
  rw [extended.names, extended.positional]
  refine Prod.ext (List.map_congr_left fun entry member => ?_) rfl
  simp only [dataAt, extended.getElem?_help (small.named entry member)]

theorem Extends.parsesAlike (extended : Extends small large) : ParsesAlike small large := by
  intro argv
  have parsed := extended.parse argv
  generalize small.parse argv = one at parsed
  generalize large.parse argv = other at parsed
  cases parsed with
  | error => rfl
  | ok related => exact congrArg Except.ok related.observe

/-! ## A short name that is accepted all at once -/

/-- An element that is the option of this character. -/
def dashed (short : Char) : Text :=
  if short = '-' then ['-', '-', '-'] else ['-', short]

theorem isOption_dashed (short : Char) : IsOption (dashed short) [short] none := by
  unfold dashed
  split
  · rename_i same
    rw [same]
    exact .long (by simp) (by decide)
  · rename_i different
    exact .short different

theorem checkOpts_missing {self : Options} {stop : Stop} (failed : self.checkOpts = .error stop) :
    ∃ what, stop = .runtimeError ('m' :: what) := by
  obtain ⟨entry, checked⟩ := forM_error failed
  split at checked
  · exact ⟨_, checkData_error checked⟩
  · cases checked

theorem checkPositional_missing {self : Options} {stop : Stop}
    (failed : self.checkPositional = .error stop) : ∃ what, stop = .runtimeError ('m' :: what) := by
  obtain ⟨data, checked⟩ := forM_error failed
  exact ⟨_, checkData_error checked⟩

theorem parse_unknown {self : Options} {short : Char} (unknown : ¬self.Accepted [short]) :
    self.parse [[], dashed short] =
      .error (.runtimeError ("unknown option: ".toList ++ [short])) := by
  have looked := (isOption_dashed short).next_eq []
  have absent : self.opts_.lookup [short] = none := by
    rw [List.lookup_eq_none_iff]
    intro entry member
    rw [bne_iff_ne]
    exact fun same => unknown (List.mem_map.mpr ⟨entry, member, same.symm⟩)
  have stepped : self.parseStep (ArgvLexer.next [dashed short]) 0 =
      .error (.runtimeError ("unknown option: ".toList ++ [short])) := by
    simp [parseStep, looked, absent]
  rw [parse, ArgvLexer.create, List.tail_cons, parseLoop_error (by simp) stepped]
  rfl

/-- What is thrown once all elements have been read. -/
theorem parse_missing {self options : Options} {args : List Text} {stop : Stop}
    (looped : self.parseLoop (ArgvLexer.next args) 0 = .ok options)
    (failed : self.parse ([] :: args) = .error stop) :
    ∃ what, stop = .runtimeError ('m' :: what) := by
  rw [parse, ArgvLexer.create, List.tail_cons, looped] at failed
  simp only [bind, Except.bind] at failed
  cases first : options.checkOpts with
  | error other =>
      rw [first] at failed
      cases failed
      exact checkOpts_missing first
  | ok =>
      cases second : options.checkPositional with
      | error other =>
          rw [first, second] at failed
          cases failed
          exact checkPositional_missing second
      | ok =>
          rw [first, second] at failed
          cases failed

theorem lookup_of_accepted {self : Options} {name : Text} (known : self.Accepted name) :
    ∃ index, self.opts_.lookup name = some index := by
  obtain ⟨entry, member, same⟩ := List.mem_map.mp known
  rw [← Option.isSome_iff_exists, List.lookup_isSome_iff]
  exact ⟨entry, member, beq_iff_eq.mpr same.symm⟩

/-- The element of a known option is for its data. -/
theorem parseStep_dashed {self : Options} {short : Char} {index : Nat}
    (found : self.opts_.lookup [short] = some index) (within : index < self.help_.length) :
    self.parseStep (ArgvLexer.next [dashed short]) 0 =
      (self.visitData (.option index) self.help_[index].data
        (ArgvLexer.next [dashed short])).map fun visited => (visited.1, visited.2, 0) := by
  have looked := (isOption_dashed short).next_eq []
  simp only [parseStep, looked, found, List.getElem?_eq_getElem within, List.cons_ne_nil,
    if_false]
  rfl

/-- An option that is known is read, and at worst something is missing. -/
theorem parse_known {self : Options} {short : Char} (known : self.Accepted [short]) {what : Text}
    (failed : self.parse [[], dashed short] = .error (.runtimeError what)) :
    ∃ rest, what = 'm' :: rest := by
  have looked := (isOption_dashed short).next_eq []
  obtain ⟨index, found⟩ := lookup_of_accepted known
  have within := within_of_lookup found
  have stepped := parseStep_dashed found within
  have nonempty : [dashed short] ≠ [] := List.cons_ne_nil _ _
  have thrown : ∀ stop, self.visitData (.option index) self.help_[index].data
      (ArgvLexer.next [dashed short]) = .error stop → stop = .runtimeError what := by
    intro stop visited
    rw [visited] at stepped
    have parsed : self.parse [[], dashed short] = .error stop := by
      rw [parse, ArgvLexer.create, List.tail_cons, parseLoop_error nonempty stepped]
      rfl
    exact Except.error.inj (parsed.symm.trans failed)
  have returned : ∀ options, self.visitData (.option index) self.help_[index].data
      (ArgvLexer.next [dashed short]) = .ok (options, ArgvLexer.next []) →
        ∃ rest, what = 'm' :: rest := by
    intro options visited
    rw [visited] at stepped
    have looped := (parseLoop_ok nonempty stepped).trans (parseLoop_nil options 0)
    obtain ⟨rest, same⟩ := parse_missing looped failed
    exact ⟨rest, Stop.runtimeError.inj same⟩
  cases kind : self.help_[index].data with
  | help =>
      have visited := thrown .exit (by rw [kind, looked]; rfl)
      cases visited
  | switch flag => exact returned _ (by rw [kind, looked]; rfl)
  | noOp => exact returned _ (by rw [kind, looked]; rfl)
  | value value =>
      have visited := thrown (.runtimeError ("missing value for option: ".toList ++ [short]))
        (by rw [kind, looked]; rfl)
      exact ⟨_, (Stop.runtimeError.inj visited).symm⟩

end Options

namespace DescribedOptions

/-! ## A registration that throws -/

/-- The accepted options, what `parse` does and the help listing are the same. -/
structure LeavesAsWas (before after : DescribedOptions) : Prop where
  accepted : ∀ name, after.options.Accepted name ↔ before.options.Accepted name
  parses : Options.ParsesAlike before.options after.options
  listing : after.listing = before.listing

/-- The registration has a short name, and that one is not taken. -/
def ShortIsNew (self : DescribedOptions) : Registration → Prop
  | .option (some short) _ _ _ => ¬self.options.Accepted [short]
  | _ => False

variable {before : DescribedOptions} {registration : Registration} {what : Text}

theorem listing_of_option (shortOpt : Option Char) (longOpt : Text) (data : Data)
    (description : Text) :
    (before.register (.option shortOpt longOpt data description)).1.listing =
      before.listing ++ line ⟨shortOpt.toList, longOpt, data⟩ description := by
  have helped : (before.options.option shortOpt longOpt data).1.help_ =
      before.options.help_ ++ [⟨shortOpt.toList, longOpt, data⟩] :=
    (before.options.option_kept shortOpt longOpt data).help
  have added : List.zipWith line [⟨shortOpt.toList, longOpt, data⟩] [description] =
      [line ⟨shortOpt.toList, longOpt, data⟩ description] := rfl
  unfold listing register
  dsimp only
  rw [helped, List.zipWith_append before.described.symm, added, List.flatten_append,
    List.flatten_singleton, ← List.append_assoc]

theorem line_ne_nil (datum : OptionData) (description : Text) : line datum description ≠ [] := by
  simp [line]

/-- The listing has one line more, whichever name was taken. -/
theorem register_listing (thrown : (before.register registration).2 = .error what) :
    (before.register registration).1.listing ≠ before.listing := by
  cases registration with
  | positional data => cases thrown
  | option shortOpt longOpt data description =>
      rw [listing_of_option]
      exact fun same => line_ne_nil _ _ (List.append_right_eq_self.mp same)

/-- Where the short name was not new, only the listing is another. -/
theorem register_extends (thrown : (before.register registration).2 = .error what)
    (old : ¬before.ShortIsNew registration) :
    before.options.Extends (before.register registration).1.options := by
  cases registration with
  | positional data => cases thrown
  | option shortOpt longOpt data description =>
      have kept := before.options.option_kept shortOpt longOpt data
      obtain ⟨names, -⟩ | ⟨short, rfl, new, -⟩ := Options.option_error thrown
      · refine ⟨names, kept.positional, ?_⟩
        simp only [register, kept.help, Options.pushHelp]
        exact List.prefix_append _ _
      · exact absurd new old

/-- A new short name is accepted although the registration has thrown. -/
theorem register_accepts (thrown : (before.register registration).2 = .error what)
    (new : before.ShortIsNew registration) :
    ∃ short, ¬before.options.Accepted [short] ∧
      (before.register registration).1.options.Accepted [short] := by
  match registration with
  | .positional data => exact absurd new id
  | .option none longOpt data description => exact absurd new id
  | .option (some short) longOpt data description =>
      obtain ⟨-, taken⟩ | ⟨other, same, -, names⟩ := Options.option_error thrown
      · exact absurd (taken short rfl) new
      · obtain rfl := Option.some.inj same
        refine ⟨short, new, ?_⟩
        rw [Options.Accepted, register, names,
          ((Options.insertName_perm _ _ _).map Prod.fst).mem_iff]
        exact List.mem_cons_self

/--
No registration that throws leaves the object as it was: the help listing is never the
same, and what is accepted and what `parse` does are the same exactly if the
registration has no short name or its short name was taken.
-/
theorem register_never_leavesAsWas (thrown : (before.register registration).2 = .error what) :
    ¬LeavesAsWas before (before.register registration).1 ∧
      (before.register registration).1.listing ≠ before.listing ∧
      ((∀ name, (before.register registration).1.options.Accepted name ↔
        before.options.Accepted name) ↔ ¬before.ShortIsNew registration) ∧
      (Options.ParsesAlike before.options (before.register registration).1.options ↔
        ¬before.ShortIsNew registration) := by
  have listed := register_listing thrown
  refine ⟨fun leaves => listed leaves.listing, listed, ⟨fun same new => ?_, fun old name => ?_⟩,
    fun alike new => ?_, fun old => (register_extends thrown old).parsesAlike⟩
  · obtain ⟨short, unknown, known⟩ := register_accepts thrown new
    exact unknown ((same _).mp known)
  · rw [Options.Accepted, (register_extends thrown old).names]
    exact Iff.rfl
  · obtain ⟨short, unknown, known⟩ := register_accepts thrown new
    have parsed := alike [[], Options.dashed short]
    rw [Options.parse_unknown unknown] at parsed
    cases failed : (before.register registration).1.options.parse [[], Options.dashed short] with
    | ok result =>
        rw [failed] at parsed
        cases parsed
    | error stop =>
        rw [failed] at parsed
        cases parsed
        obtain ⟨rest, same⟩ := Options.parse_known known failed
        exact absurd (List.cons.inj same).1 (by decide)

/-- A switch that is registered under two names. -/
def withHost : DescribedOptions :=
  ((create []).register (.option (some 'h') "host".toList (.switch false) [])).1

/-- Another switch, of a new character and the same long name. -/
def hostAgain : Registration :=
  .option (some 'x') "host".toList (.switch false) []

theorem register_never_leavesAsWas_host :
    (withHost.register hostAgain).2 =
        .error "attempting to register duplicate option host".toList ∧
      ¬LeavesAsWas withHost (withHost.register hostAgain).1 := by
  have thrown : (withHost.register hostAgain).2 =
      .error "attempting to register duplicate option host".toList := by
    decide +kernel
  exact ⟨thrown, (register_never_leavesAsWas thrown).1⟩

/-- The character is accepted afterwards, and was not before. -/
theorem not_leavesAsWas_hostAgain :
    (withHost.register hostAgain).2 ≠ .ok () ∧ ¬withHost.options.Accepted ['x'] ∧
      (withHost.register hostAgain).1.options.Accepted ['x'] ∧
      ¬LeavesAsWas withHost (withHost.register hostAgain).1 := by
  have accepted : ¬withHost.options.Accepted ['x'] ∧
      (withHost.register hostAgain).1.options.Accepted ['x'] := by
    decide +kernel
  refine ⟨by decide +kernel, accepted.1, accepted.2, fun leaves => accepted.1 ?_⟩
  exact (leaves.accepted ['x']).mp accepted.2

end DescribedOptions

end ReactiveToolbox.Util
