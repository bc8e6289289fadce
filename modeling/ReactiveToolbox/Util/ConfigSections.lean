import ReactiveToolbox.Util.Config

/-!
# What a configuration answers

The lines of a text are headers and assignments, and the text is what is assigned in
front of the first header, and then under each of them.  `MultiConfig::read` keeps it
so, except for a header that the text ends in, under which nothing is assigned.
-/

namespace ReactiveToolbox.Util

open ReactiveToolbox.Lib
open VarSub (Scan Frame)

universe u

/-! ## Texts as documents -/

/-- A line that counts. -/
inductive ConfigLine where
  | header (name : Text)
  | assignment (key val : Text)
  deriving DecidableEq

/-- Blank lines and comments do not count. -/
def classify (line : Text) : Option ConfigLine :=
  if trim line = [] ∨ (trim line).head? = some '#' then none
  else if (trim line).head? = some '[' ∧ (trim line).getLast? = some ']' then
    some (.header (trim (substr (trim line) 1 ((trim line).length - 2))))
  else
    some (.assignment (rtrim (splitPair (trim line) '=').1) (ltrim (splitPair (trim line) '=').2))

/-- The lines of a text that say something. -/
def configLines (text : Text) : List ConfigLine :=
  (text.splitOn '\n').filterMap classify

/-- What is assigned in front of the first header, and under each header. -/
structure Document where
  root : List (Text × Text)
  sections : List (Text × List (Text × Text))
  deriving DecidableEq

/-- What the lines assign, section by section. -/
def Document.ofLines : List ConfigLine → Document
  | [] => { root := [], sections := [] }
  | .assignment key val :: lines =>
      { ofLines lines with root := (key, val) :: (ofLines lines).root }
  | .header name :: lines =>
      { root := [], sections := (name, (ofLines lines).root) :: (ofLines lines).sections }

/-- What a text assigns. -/
def document (text : Text) : Document :=
  .ofLines (configLines text)

/--
The first assignment of a key in the first section of a name, or else in front of all
headers.
-/
def Document.value (self : Document) (name key : Text) : Option Text :=
  ((self.sections.lookup name).bind fun own => own.lookup key).or (self.root.lookup key)

/-- No value has a character that substitution takes notice of. -/
def PlainValues (text : Text) : Prop :=
  ∀ key val, .assignment key val ∈ configLines text → ∀ ch ∈ val, ch ≠ '$' ∧ ch ≠ '\\'

/-! ## Substitution -/

/-- A scan that has not met anything to substitute. -/
def plainScan (val : Text) (j : Nat) : Scan :=
  ⟨val, .begin j, []⟩

theorem step_plainScan (fn : Text → Text) {val : Text} {j : Nat} {ch : Char}
    (found : val[j]? = some ch) (plain : ch ≠ '$' ∧ ch ≠ '\\') :
    Scan.step fn (plainScan val j) = some (plainScan val (j + 1)) := by
  rw [VarSub.step_plain fn _ found rfl, Scan.examine, if_neg plain.1, if_neg plain.2]
  split <;> rfl

/-- A plain value stays as it is. -/
theorem runFor_plainScan (fn : Text → Text) {val : Text}
    (plain : ∀ ch ∈ val, ch ≠ '$' ∧ ch ≠ '\\') {rounds j : Nat} (within : j ≤ val.length)
    (enough : val.length - j < rounds) :
    runFor (Scan.step fn) rounds (plainScan val j) = some (plainScan val val.length) := by
  induction rounds generalizing j with
  | zero => cases enough
  | succ rounds continued =>
      rw [runFor]
      by_cases more : j < val.length
      · have found := List.getElem?_eq_getElem more
        rw [step_plainScan fn found (plain _ (List.getElem_mem more))]
        exact continued more (by omega)
      · obtain rfl : j = val.length := by omega
        have ended : Scan.step fn (plainScan val val.length) = none := by
          simp [Scan.step, plainScan, Frame.begin]
        rw [ended]

theorem varSub_plain (fn : Text → Text) {val : Text} {rounds : Nat}
    (plain : ∀ ch ∈ val, ch ≠ '$' ∧ ch ≠ '\\') (enough : val.length < rounds) :
    Config.varSub fn rounds val = some val := by
  have ran := runFor_plainScan fn plain (Nat.zero_le _) (j := 0) enough
  unfold Config.varSub
  rw [show Scan.start val = plainScan val 0 from rfl, ran]
  rfl

/-! ## Lines -/

theorem parseSection_failed {State : Type u} {fn : State → Text → Text → Option State}
    {state : State} {is after : IStream} (read : is.getline = (after, none)) :
    parseSection fn state is = some (state, after, []) := by
  rw [parseSection]
  split
  · rename_i same
    rw [read] at same
    obtain ⟨rfl, -⟩ := Prod.mk.inj same
    rfl
  · rename_i same
    rw [read] at same
    cases (Prod.mk.inj same).2

/-- A line is passed over, or ends the section, or is an assignment. -/
theorem parseSection_line {State : Type u} {fn : State → Text → Text → Option State}
    {state : State} {is after : IStream} {line : Text}
    (read : is.getline = (after, some line)) :
    parseSection fn state is =
      match classify line with
      | none => parseSection fn state after
      | some (.header name) => some (state, after, name)
      | some (.assignment key val) =>
          (fn state key val).bind fun next => parseSection fn next after := by
  rw [parseSection]
  split
  · rename_i same
    rw [read] at same
    cases (Prod.mk.inj same).2
  · rename_i same
    rw [read] at same
    obtain ⟨rfl, found⟩ := Prod.mk.inj same
    obtain rfl := Option.some.inj found
    unfold classify
    dsimp only
    split
    · rfl
    · split
      · rfl
      · dsimp only
        cases fn state _ _ <;> rfl

/-- What reading a line and assigning a value preserve holds behind a section. -/
theorem parseSection_invariant {State : Type u} {fn : State → Text → Text → Option State}
    (property : State → IStream → Prop)
    (reads : ∀ {state is after line}, property state is → is.getline = (after, line) →
      property state after)
    (assigns : ∀ {state is key val next}, property state is → fn state key val = some next →
      property next is)
    {state result : State} {is after : IStream} {name : Text} (initially : property state is)
    (parsed : parseSection fn state is = some (result, after, name)) : property result after := by
  induction size : is.linesLeft using Nat.strong_induction_on generalizing is state with
  | _ size shorter =>
      rcases read : is.getline with ⟨later, line⟩
      have still := reads initially read
      cases line with
      | none =>
          rw [parseSection_failed read] at parsed
          cases parsed
          exact still
      | some line =>
          have fewer := size ▸ IStream.linesLeft_getline read
          rw [parseSection_line read] at parsed
          cases found : classify line with
          | none =>
              rw [found] at parsed
              exact shorter _ fewer still parsed rfl
          | some counted =>
              rw [found] at parsed
              cases counted with
              | header name =>
                  cases parsed
                  exact still
              | assignment key val =>
                  obtain ⟨next, assigned, parsed⟩ := Option.bind_eq_some_iff.mp parsed
                  exact shorter _ fewer (assigns still assigned) parsed rfl

theorem configLines_cons (line rest : Text) (whole : '\n' ∉ line) :
    configLines (line ++ '\n' :: rest) = (classify line).toList ++ configLines rest := by
  unfold configLines
  rw [List.splitOn_append_cons_self, List.splitOn_eq_singleton whole, List.singleton_append,
    List.filterMap_cons]
  cases classify line <;> rfl

theorem configLines_last (line : Text) (whole : '\n' ∉ line) :
    configLines line = (classify line).toList := by
  unfold configLines
  rw [List.splitOn_eq_singleton whole, List.filterMap_cons]
  cases classify line <;> rfl

theorem getline_cons (line rest : Text) (whole : '\n' ∉ line) :
    (IStream.ofText (line ++ '\n' :: rest)).getline = (.ofText rest, some line) := by
  have others : ∀ ch ∈ line, decide (ch ≠ '\n') = true :=
    fun ch member => decide_eq_true fun same => whole (same ▸ member)
  have ready : (IStream.ofText (line ++ '\n' :: rest)).good = true := rfl
  have member : '\n' ∈ (IStream.ofText (line ++ '\n' :: rest)).rest :=
    List.mem_append_right _ List.mem_cons_self
  rw [IStream.getline, if_pos ready, if_pos member]
  dsimp only [IStream.ofText]
  rw [List.takeWhile_append_of_pos others,
    List.dropWhile_append_of_pos others, List.takeWhile_cons_of_neg (by decide),
    List.dropWhile_cons_of_neg (by decide), List.append_nil, List.tail_cons]

theorem getline_last (line : Text) (whole : '\n' ∉ line) (more : line ≠ []) :
    (IStream.ofText line).getline =
      ({ IStream.ofText [] with eofbit := true }, some line) := by
  have extracted : line.isEmpty = false := List.isEmpty_eq_false_iff.mpr more
  have ready : (IStream.ofText line).good = true := rfl
  have absent : '\n' ∉ (IStream.ofText line).rest := whole
  rw [IStream.getline, if_pos ready, if_neg absent]
  dsimp only [IStream.ofText]
  rw [extracted]
  rfl

/-- A text is a line, or a line with a newline and a text behind it. -/
@[elab_as_elim]
theorem lines_induction {motive : Text → Prop} (text : Text)
    (last : ∀ line, '\n' ∉ line → motive line)
    (cons : ∀ line rest, '\n' ∉ line → motive rest → motive (line ++ '\n' :: rest)) :
    motive text := by
  induction size : text.length using Nat.strong_induction_on generalizing text with
  | _ size shorter =>
      by_cases member : '\n' ∈ text
      · obtain ⟨line, rest, rfl, whole⟩ := List.eq_append_cons_of_mem member
        refine cons line rest whole (shorter rest.length ?_ rest rfl)
        rw [← size, List.length_append, List.length_cons]
        omega
      · exact last text member

/-! ## A section -/

theorem length_trim_le (line : Text) : (trim line).length ≤ line.length :=
  (List.rdropWhile_prefix _ _).length_le.trans (List.dropWhile_suffix _).length_le

theorem length_classify_le {line key val : Text}
    (found : classify line = some (.assignment key val)) : val.length ≤ line.length := by
  unfold classify at found
  split at found
  · cases found
  · split at found
    · cases found
    · obtain ⟨-, rfl⟩ := ConfigLine.assignment.inj (Option.some.inj found)
      refine Nat.le_trans (List.dropWhile_suffix _).length_le ?_
      refine Nat.le_trans ?_ (length_trim_le line)
      unfold splitPair
      split
      · rw [List.length_tail]
        exact Nat.le_trans (Nat.sub_le _ _) (List.dropWhile_suffix _).length_le
      · exact Nat.zero_le _

theorem length_le_of_assignment {text key val : Text}
    (member : .assignment key val ∈ configLines text) : val.length ≤ text.length := by
  induction text using lines_induction with
  | last line whole =>
      rw [configLines_last line whole, Option.mem_toList] at member
      exact length_classify_le member
  | cons line rest whole continued =>
      rw [configLines_cons line rest whole, List.mem_append, Option.mem_toList] at member
      rw [List.length_append, List.length_cons]
      rcases member with here | later
      · have bound := length_classify_le here
        omega
      · have bound := continued later
        omega

variable {State : Type u} {fn : State → Text → Text → Option State}
  {step : State → Text → Text → State}

/--
What a section leaves of a text, with the name that it returns: the end of the text,
which may be right behind a header, or what is behind the next header.
-/
inductive Leaves (text : Text) : IStream → Text → Prop where
  | ended {after : IStream} {next : Text} (eof : after.eof = true)
      (sections : (document text).sections = []) : Leaves text after next
  | header {after : IStream} {next : Text} (eof : after.eof = true)
      (sections : (document text).sections = [(next, [])]) : Leaves text after next
  | more {next : Text} (later : Text) (fewer : later.length < text.length)
      (sections : (document text).sections =
        (next, (document later).root) :: (document later).sections)
      (lines : ∀ line ∈ configLines later, line ∈ configLines text) :
      Leaves text (.ofText later) next

/-- A line in front of them that is no header does not change what is left. -/
theorem Leaves.behind {text rest next : Text} {after : IStream}
    (left : Leaves rest after next) (shorter : rest.length < text.length)
    (same : (document text).sections = (document rest).sections)
    (lines : ∀ line ∈ configLines rest, line ∈ configLines text) : Leaves text after next := by
  cases left with
  | ended eof sections => exact .ended eof (same.trans sections)
  | header eof sections => exact .header eof (same.trans sections)
  | more later fewer sections within =>
      exact .more later (fewer.trans shorter) (same.trans sections)
        fun line member => lines line (within line member)

/-- A stream at the end of its text has no more lines. -/
theorem parseSection_ended (fn : State → Text → Text → Option State) (state : State) : ∃ after,
    parseSection fn state { IStream.ofText [] with eofbit := true } = some (state, after, []) ∧
      after.eof = true :=
  ⟨_, parseSection_failed rfl, rfl⟩

/-- What a section does with the last line, behind which there is no newline. -/
theorem parseSection_last {line : Text} (whole : '\n' ∉ line)
    (assigns : ∀ state key val, .assignment key val ∈ configLines line →
      fn state key val = some (step state key val)) (state : State) :
    ∃ after next, parseSection fn state (.ofText line) =
        some ((document line).root.foldl (fun state entry => step state entry.1 entry.2) state,
          after, next) ∧ Leaves line after next := by
  have lines := configLines_last line whole
  have described : document line = .ofLines (classify line).toList := congrArg _ lines
  by_cases none_left : line = []
  · subst none_left
    exact ⟨_, _, parseSection_failed rfl, .ended rfl rfl⟩
  · rw [parseSection_line (getline_last line whole none_left), described]
    cases found : classify line with
    | none =>
        rw [found] at described
        obtain ⟨after, ended, eof⟩ := parseSection_ended fn state
        exact ⟨after, [], ended, .ended eof (congrArg _ described)⟩
    | some counted =>
        rw [found] at described
        cases counted with
        | header name => exact ⟨_, name, rfl, .header rfl (congrArg _ described)⟩
        | assignment key val =>
            have member : ConfigLine.assignment key val ∈ configLines line := by
              rw [lines, found]
              exact List.mem_singleton_self _
            dsimp only
            rw [assigns state key val member, Option.bind_some]
            obtain ⟨after, ended, eof⟩ := parseSection_ended fn (step state key val)
            exact ⟨after, [], ended, .ended eof (congrArg _ described)⟩

/-- A section takes what is assigned in front of the next header. -/
theorem parseSection_text (text : Text)
    (assigns : ∀ state key val, .assignment key val ∈ configLines text →
      fn state key val = some (step state key val)) (state : State) :
    ∃ after next, parseSection fn state (.ofText text) =
        some ((document text).root.foldl (fun state entry => step state entry.1 entry.2) state,
          after, next) ∧ Leaves text after next := by
  induction text using lines_induction generalizing state with
  | last line whole => exact parseSection_last whole assigns state
  | cons line rest whole continued =>
      have lines := configLines_cons line rest whole
      have described : document (line ++ '\n' :: rest) =
          .ofLines ((classify line).toList ++ configLines rest) := congrArg _ lines
      have within : ∀ other ∈ configLines rest, other ∈ configLines (line ++ '\n' :: rest) :=
        fun other member => lines ▸ List.mem_append_right _ member
      have others : ∀ state key val, .assignment key val ∈ configLines rest →
          fn state key val = some (step state key val) :=
        fun state key val member => assigns state key val (within _ member)
      have shorter : rest.length < (line ++ '\n' :: rest).length := by
        rw [List.length_append, List.length_cons]
        omega
      rw [parseSection_line (getline_cons line rest whole), described]
      cases found : classify line with
      | none =>
          rw [found] at described
          obtain ⟨after, next, parsed, left⟩ := continued others state
          exact ⟨after, next, parsed, left.behind shorter (congrArg _ described) within⟩
      | some counted =>
          rw [found] at described
          cases counted with
          | header name =>
              exact ⟨_, name, rfl, .more rest shorter (congrArg _ described) within⟩
          | assignment key val =>
              have member : ConfigLine.assignment key val ∈
                  configLines (line ++ '\n' :: rest) := by
                rw [lines, found]
                exact List.mem_append_left _ (List.mem_singleton_self _)
              have same :
                  (document (line ++ '\n' :: rest)).sections = (document rest).sections := by
                rw [described]
                rfl
              obtain ⟨after, next, parsed, left⟩ := continued others (step state key val)
              dsimp only
              rw [assigns state key val member]
              exact ⟨after, next, parsed, left.behind shorter same within⟩

/-! ## A configuration -/

theorem lookup_emplace {Value : Type u} (map : List (Text × Value)) (key other : Text)
    (value : Value) :
    (emplace map key value).lookup other = (map ++ [(key, value)]).lookup other := by
  unfold emplace
  split
  · rename_i present
    rw [List.lookup_append, List.lookup_cons]
    split
    · rename_i same
      rw [eq_of_beq same, Option.or_of_isSome present]
    · exact Option.or_none.symm
  · rfl

/-- A configuration answers for itself with some assignments. -/
structure Config.Holds (config : Config) (assigned : List (Text × Text))
    (parent : Option ConfigAddress) : Prop where
  lookup : ∀ key, config.map_.lookup key = assigned.lookup key
  parent : config.parent_ = parent

/-- An assignment of a plain value. -/
def Config.take (self : Config) (key val : Text) : Config :=
  { self with map_ := emplace self.map_ key val }

theorem Config.Holds.foldl {config : Config} {before : List (Text × Text)}
    {parent : Option ConfigAddress} (holds : config.Holds before parent)
    (assigned : List (Text × Text)) :
    (assigned.foldl (fun config entry => config.take entry.1 entry.2) config).Holds
      (before ++ assigned) parent := by
  induction assigned generalizing config before with
  | nil =>
      rw [List.append_nil]
      exact holds
  | cons entry assigned continued =>
      have taken : (config.take entry.1 entry.2).Holds (before ++ [entry]) parent := by
        refine ⟨fun key => ?_, holds.parent⟩
        rw [Config.take, lookup_emplace, List.lookup_append, holds.lookup, List.lookup_append]
      have rest := continued taken
      rw [List.append_assoc] at rest
      exact rest

/-- A section of plain values is read as it stands. -/
theorem readSection_text (fn : Text → Text) {rounds : Nat} {text : Text}
    (plain : PlainValues text) (enough : text.length < rounds) {config : Config}
    {parent : Option ConfigAddress} (empty : config.Holds [] parent) :
    ∃ read after next, config.readSection fn rounds (.ofText text) = some (read, after, next) ∧
      read.Holds (document text).root parent ∧ Leaves text after next := by
  have assigns : ∀ config key val, .assignment key val ∈ configLines text →
      Config.assign fn rounds config key val = some (config.take key val) := by
    intro config key val member
    have bound := length_le_of_assignment member
    rw [Config.assign, varSub_plain fn (plain key val member) (Nat.lt_of_le_of_lt bound enough)]
    rfl
  obtain ⟨after, next, parsed, left⟩ := parseSection_text text assigns config
  exact ⟨_, after, next, parsed, empty.foldl _, left⟩

theorem PlainValues.later {text later : Text} (plain : PlainValues text)
    (lines : ∀ line ∈ configLines later, line ∈ configLines text) : PlainValues later :=
  fun key val member => plain key val (lines _ member)

/-! ## All sections -/

/--
A map answers for some sections: the first of each name, unless nothing is assigned in
it, which then need not be there.
-/
def Agrees (this : ConfigAddress) (map : List (Text × Config))
    (sections : List (Text × List (Text × Text))) : Prop :=
  ∀ name,
    (∀ config, map.lookup name = some config →
      ∃ own, sections.lookup name = some own ∧ config.Holds own (some this)) ∧
    (map.lookup name = none → ∀ own, sections.lookup name = some own → own = [])

theorem Agrees.nil (this : ConfigAddress) : Agrees this [] [] :=
  fun _ => ⟨fun _ found => (nomatch found), fun _ _ found => (nomatch found)⟩

theorem Agrees.last (this : ConfigAddress) (next : Text) : Agrees this [] [(next, [])] := by
  refine fun name => ⟨fun _ found => (nomatch found), fun _ own found => ?_⟩
  rw [List.lookup_cons] at found
  split at found
  · exact (Option.some.inj found).symm
  · cases found

theorem Agrees.cons {this : ConfigAddress} {map : List (Text × Config)}
    {sections : List (Text × List (Text × Text))} (agrees : Agrees this map sections)
    {next : Text} {config : Config} {own : List (Text × Text)}
    (holds : config.Holds own (some this)) :
    Agrees this ((next, config) :: map) ((next, own) :: sections) := by
  intro name
  rw [List.lookup_cons, List.lookup_cons]
  cases name == next with
  | true =>
      refine ⟨fun other found => ⟨own, rfl, ?_⟩, fun missing => (nomatch missing)⟩
      obtain rfl := Option.some.inj found
      exact holds
  | false => exact agrees name

theorem holds_empty (this : ConfigAddress) :
    (Config.empty.setParent this).Holds [] (some this) :=
  ⟨fun _ => rfl, rfl⟩

theorem readSections_ended (fn : Text → Text) (rounds : Nat) (this : ConfigAddress)
    {sections : Nat} {reading : MultiConfig.Reading} (eof : reading.is.eof = true)
    (some_left : 0 < sections) :
    MultiConfig.readSections fn rounds this sections reading = some reading := by
  obtain ⟨last, rfl⟩ := Nat.exists_eq_succ_of_ne_zero (Nat.ne_of_gt some_left)
  rw [MultiConfig.readSections, if_pos eof]

/-- The loop adds the sections, the one whose header has been read first. -/
theorem readSections_text (fn : Text → Text) {rounds : Nat} (this : ConfigAddress)
    {sections : Nat} {text : Text} (plain : PlainValues text) (enough : text.length < rounds)
    (more : text.length + 1 < sections) (config : MultiConfig) (next : Text) :
    ∃ final added, MultiConfig.readSections fn rounds this sections
        { config, is := .ofText text, next } = some final ∧
      final.config.root_ = config.root_ ∧
      (∀ name, final.config.map_.lookup name = (config.map_ ++ added).lookup name) ∧
      Agrees this added ((next, (document text).root) :: (document text).sections) := by
  induction sections generalizing text config next with
  | zero => cases more
  | succ sections continued =>
      obtain ⟨read, after, following, section_read, holds, left⟩ :=
        readSection_text fn plain enough (holds_empty this)
      have going : (IStream.ofText text).eof = false := rfl
      have once : MultiConfig.readNext fn rounds this { config, is := .ofText text, next } =
          some { config := { config with map_ := emplace config.map_ next read }
                 is := after
                 next := following } := by
        rw [MultiConfig.readNext, section_read]
        rfl
      simp only [MultiConfig.readSections, going, Bool.false_eq_true, if_false, once,
        Option.bind_some]
      have some_left : 0 < sections := by omega
      cases left with
      | ended eof none_left =>
          rw [readSections_ended fn rounds this eof some_left, none_left]
          exact ⟨_, [(next, read)], rfl, rfl, fun name => lookup_emplace _ _ name _,
            (Agrees.nil this).cons holds⟩
      | header eof only =>
          rw [readSections_ended fn rounds this eof some_left, only]
          exact ⟨_, [(next, read)], rfl, rfl, fun name => lookup_emplace _ _ name _,
            (Agrees.last this following).cons holds⟩
      | more later fewer described lines =>
          obtain ⟨final, added, sections_read, root, lookups, agrees⟩ :=
            continued (plain.later lines) (fewer.trans enough) (by omega)
              { config with map_ := emplace config.map_ next read } following
          refine ⟨final, (next, read) :: added, sections_read, root, fun name => ?_, ?_⟩
          · rw [lookups, List.lookup_append, lookup_emplace, ← List.lookup_append,
              List.append_assoc, List.singleton_append]
          · rw [described]
            exact agrees.cons holds

/-! ## Answers -/

/-- A configuration answers with some value, or else with the error or the default. -/
structure Config.Answers (memory : ConfigAddress → Option Config) (config : Config)
    (key : Text) (value : Option Text) : Prop where
  get : ∀ depth, config.get memory key (depth + 1) =
    some (match value with
      | some val => .ok val
      | none => .error (.missingKey key))
  getOr : ∀ dfl depth, config.getOr memory key dfl (depth + 1) = some (value.or dfl)

/-- Without a parent, it answers for itself only. -/
theorem Config.Holds.root {config : Config} {assigned : List (Text × Text)}
    (holds : config.Holds assigned none) (memory : ConfigAddress → Option Config) (key : Text)
    (depth : Nat) :
    config.get memory key depth =
        some (match assigned.lookup key with
          | some val => .ok val
          | none => .error (.missingKey key)) ∧
      ∀ dfl, config.getOr memory key dfl depth = some ((assigned.lookup key).or dfl) := by
  unfold Config.get Config.getOr
  rw [holds.lookup, holds.parent]
  cases assigned.lookup key with
  | some val => exact ⟨rfl, fun _ => rfl⟩
  | none => exact ⟨rfl, fun _ => rfl⟩

theorem Config.Holds.answers_root {config : Config} {assigned : List (Text × Text)}
    (holds : config.Holds assigned none) (memory : ConfigAddress → Option Config) (key : Text) :
    config.Answers memory key (assigned.lookup key) where
  get depth := (holds.root memory key (depth + 1)).1
  getOr dfl depth := (holds.root memory key (depth + 1)).2 dfl

/-- A section answers for itself, and its parent for what it does not have. -/
theorem Config.Holds.answers {config root : Config} {own assigned : List (Text × Text)}
    {memory : ConfigAddress → Option Config} {this : ConfigAddress}
    (holds : config.Holds own (some this)) (rootHolds : root.Holds assigned none)
    (here : memory this = some root) (key : Text) :
    config.Answers memory key ((own.lookup key).or (assigned.lookup key)) := by
  constructor
  · intro depth
    unfold Config.get
    rw [holds.lookup, holds.parent]
    cases own.lookup key with
    | some val => rfl
    | none =>
        dsimp only
        rw [here, Option.bind_some, (rootHolds.root memory key depth).1, Option.none_or]
  · intro dfl depth
    unfold Config.getOr
    rw [holds.lookup, holds.parent]
    cases own.lookup key with
    | some val => rfl
    | none =>
        dsimp only
        rw [here, Option.bind_some, (rootHolds.root memory key depth).2, Option.none_or]

/-- The sections of a `MultiConfig` answer for those of a document. -/
theorem Agrees.answers {this : ConfigAddress} {config : MultiConfig} {described : Document}
    (agrees : Agrees this config.map_ described.sections)
    (rootHolds : config.root_.Holds described.root none) (name key : Text) :
    (config.sectionNamed name).Answers (config.memory this) key (described.value name key) := by
  unfold MultiConfig.sectionNamed Document.value
  obtain ⟨present, absent⟩ := agrees name
  cases found : config.map_.lookup name with
  | some own =>
      obtain ⟨assigned, described_own, holds⟩ := present own found
      rw [described_own]
      exact holds.answers rootHolds (if_pos rfl) key
  | none =>
      have nothing : (described.sections.lookup name).bind (List.lookup key) = none := by
        cases described_own : described.sections.lookup name with
        | none => rfl
        | some assigned => rw [absent found assigned described_own]; rfl
      rw [nothing, Option.none_or]
      exact rootHolds.answers_root _ key

/-- A section that the text does not have is the root. -/
theorem Agrees.unknown {this : ConfigAddress} {config : MultiConfig} {described : Document}
    (agrees : Agrees this config.map_ described.sections) {name : Text}
    (unknown : described.sections.lookup name = none) :
    config.sectionNamed name = config.root_ := by
  unfold MultiConfig.sectionNamed
  cases found : config.map_.lookup name with
  | none => rfl
  | some own =>
      obtain ⟨assigned, known, -⟩ := (agrees name).1 own found
      rw [unknown] at known
      cases known

/-- `read` keeps what the text is as a document. -/
theorem read_text (fn : Text → Text) {text : Text} (plain : PlainValues text) {rounds : Nat}
    (enough : text.length + 1 < rounds) (this : ConfigAddress) :
    ∃ final, MultiConfig.read fn rounds this .empty (.ofText text) = some final ∧
      final.config.root_.Holds (document text).root none ∧
      Agrees this final.config.map_ (document text).sections := by
  have short : text.length < rounds := Nat.lt_of_succ_lt enough
  have nothing : Config.empty.Holds [] none := ⟨fun _ => rfl, rfl⟩
  obtain ⟨root, after, next, root_read, holds, left⟩ := readSection_text fn plain short nothing
  have start : MultiConfig.read fn rounds this .empty (.ofText text) =
      MultiConfig.readSections fn rounds this rounds
        { config := { MultiConfig.empty with root_ := root }, is := after, next } := by
    rw [MultiConfig.read, MultiConfig.empty, root_read]
    rfl
  have some_left : 0 < rounds := Nat.zero_lt_of_lt short
  rw [start]
  cases left with
  | ended eof none_left =>
      rw [readSections_ended fn rounds this eof some_left, none_left]
      exact ⟨_, rfl, holds, Agrees.nil this⟩
  | header eof only =>
      rw [readSections_ended fn rounds this eof some_left, only]
      exact ⟨_, rfl, holds, Agrees.last this next⟩
  | more later fewer described lines =>
      have sections_enough : later.length + 1 < rounds := by omega
      obtain ⟨final, added, sections_read, same, lookups, agrees⟩ :=
        readSections_text fn this (plain.later lines) (fewer.trans short) sections_enough
          { MultiConfig.empty with root_ := root } next
      refine ⟨final, sections_read, same ▸ holds, ?_⟩
      rw [described]
      intro name
      rw [lookups]
      exact agrees name

/--
After `read`, every section answers for every key as the document does that the text is,
and a section that the text does not have is the root.
-/
theorem read_answers (fn : Text → Text) {text : Text} (plain : PlainValues text)
    {rounds : Nat} (enough : text.length + 1 < rounds) (this : ConfigAddress) :
    ∃ final, MultiConfig.read fn rounds this .empty (.ofText text) = some final ∧
      ∀ name,
        (∀ key, (final.config.sectionNamed name).Answers (final.config.memory this) key
          ((document text).value name key)) ∧
        ((document text).sections.lookup name = none →
          final.config.sectionNamed name = final.config.root_) := by
  obtain ⟨final, read, holds, agrees⟩ := read_text fn plain enough this
  exact ⟨final, read, fun name => ⟨agrees.answers holds name, agrees.unknown⟩⟩

/-- A section with a key of its own. -/
theorem read_answers_section :
    ∃ final, MultiConfig.read id 20 0 .empty (.ofText "a=1\n[s]\nb=2".toList) = some final ∧
      ∀ name,
        (∀ key, (final.config.sectionNamed name).Answers (final.config.memory 0) key
          ((document "a=1\n[s]\nb=2".toList).value name key)) ∧
        ((document "a=1\n[s]\nb=2".toList).sections.lookup name = none →
          final.config.sectionNamed name = final.config.root_) := by
  refine read_answers id ?_ (by decide) 0
  intro key val member
  have lines : configLines "a=1\n[s]\nb=2".toList =
      [.assignment ['a'] ['1'], .header ['s'], .assignment ['b'] ['2']] := by
    decide +kernel
  rw [lines] at member
  simp only [List.mem_cons, ConfigLine.assignment.injEq, reduceCtorEq, false_or, List.not_mem_nil,
    or_false] at member
  intro ch value
  rcases member with ⟨-, rfl⟩ | ⟨-, rfl⟩ <;> rw [List.mem_singleton.mp value] <;> decide

end ReactiveToolbox.Util
