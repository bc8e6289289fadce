import ReactiveToolbox.Util.Options

/-!
# Reading a command line

What it means that a command line can be read from left to right with the options
that are registered, and that `parse` returns exactly for the command lines that can
be read, having run each value on what is assigned to it.
-/

namespace ReactiveToolbox.Util

/-- A value after its function has been run on these arguments. -/
def Value.after (self : Value) (args : List Text) : Value :=
  { self with set := self.set || !args.isEmpty, calls := self.calls ++ args }

theorem Value.after_run (self : Value) (args : List Text) (arg : Text) :
    (self.after args).run arg = self.after (args ++ [arg]) := by
  simp [Value.after, Value.run]

/-- A datum after these arguments: only a value knows them. -/
inductive Data.After (args : List Text) : Data → Data → Prop where
  | value {value : Value} : After args (.value value) (.value (value.after args))
  | help : After args .help .help
  | noOp : After args .noOp .noOp
  | switch {flag now : Bool} : After args (.switch flag) (.switch now)

end ReactiveToolbox.Util

namespace ReactiveToolbox.Util.Options

/-! ## Readings -/

/-- What a reading assigns, in order, and where. -/
abbrev Assignments := List (Slot × Text)

/-- The values that are assigned to one slot. -/
def assigned (assignments : Assignments) (slot : Slot) : List Text :=
  (assignments.filter (·.1 = slot)).map Prod.snd

@[simp]
theorem assigned_append (first second : Assignments) (slot : Slot) :
    assigned (first ++ second) slot = assigned first slot ++ assigned second slot := by
  simp [assigned]

@[simp]
theorem assigned_one_self (slot : Slot) (arg : Text) : assigned [(slot, arg)] slot = [arg] := by
  simp [assigned]

theorem assigned_one_of_ne {slot other : Slot} (different : slot ≠ other) (arg : Text) :
    assigned [(slot, arg)] other = [] := by
  simp [assigned, different]

/-- The datum of an option of this name. -/
def Known (self : Options) (name : Text) (index : Nat) (data : Data) : Prop :=
  self.opts_.lookup name = some index ∧ self.dataAt (.option index) = some data

/--
The elements that are read in one go: before them a number of positional arguments
has been read, and after them another number has, and the rest of the elements is
left.
-/
inductive ReadsOne (self : Options) :
    Nat → List Text → Assignments → Nat → List Text → Prop where
  | switch {idx : Nat} {arg name : Text} {rest : List Text} {index : Nat} {flag : Bool} :
      IsOption arg name none → self.Known name index (.switch flag) →
        ReadsOne self idx (arg :: rest) [] idx rest
  | noOp {idx : Nat} {arg name : Text} {attached : Option Text} {rest : List Text}
      {index : Nat} :
      IsOption arg name attached → self.Known name index .noOp →
        ReadsOne self idx (arg :: rest) [] idx rest
  | attached {idx : Nat} {arg name val : Text} {rest : List Text} {index : Nat}
      {value : Value} :
      IsOption arg name (some val) → self.Known name index (.value value) →
        ReadsOne self idx (arg :: rest) [(.option index, val)] idx rest
  | following {idx : Nat} {arg name val : Text} {rest : List Text} {index : Nat}
      {value : Value} :
      IsOption arg name none → self.Known name index (.value value) →
        ReadsOne self idx (arg :: val :: rest) [(.option index, val)] idx rest
  | positional {idx : Nat} {arg : Text} {rest : List Text} {data : Data} :
      (∀ name attached, ¬ IsOption arg name attached) →
        self.dataAt (.positional idx) = some data →
          ReadsOne self idx (arg :: rest) [(.positional idx, arg)] (idx + 1) rest

/-- The elements are read to their end, each of them once. -/
inductive Reads (self : Options) : Nat → List Text → Assignments → Prop where
  | done {idx : Nat} : Reads self idx [] []
  | step {idx next : Nat} {args rest : List Text} {now later : Assignments} :
      ReadsOne self idx args now next rest → Reads self next rest later →
        Reads self idx args (now ++ later)

/-- A datum that is registered under some name, or as a positional argument. -/
def Registered (self : Options) : Slot → Prop
  | .option index => ∃ name, (name, index) ∈ self.opts_
  | .positional _ => True

/-- Every value that is required is assigned one. -/
def RequiredSet (self : Options) (assignments : Assignments) : Prop :=
  ∀ slot value, self.Registered slot → self.dataAt slot = some (.value value) →
    value.required → assigned assignments slot ≠ []

/-- Every value that takes no more than one is assigned no more than one. -/
def OnceOnly (self : Options) (assignments : Assignments) : Prop :=
  ∀ slot value, self.dataAt slot = some (.value value) →
    ¬ value.multitoken → (assigned assignments slot).length ≤ 1

/-- A reading of the elements that assigns to the values as they are registered. -/
structure Accepts (options : Options) (args : List Text) (assignments : Assignments) : Prop where
  reads : options.Reads 0 args assignments
  required : options.RequiredSet assignments
  once : options.OnceOnly assignments

/-- Nothing has been parsed, and nothing registered asks for help. -/
structure Fresh (options : Options) : Prop where
  unset : ∀ slot value, options.dataAt slot = some (.value value) → value.set = false
  noHelp : ∀ slot, options.dataAt slot ≠ some .help

/-- `parse` returns as the elements can be read, and else it throws. -/
structure ParsesAsRead (options : Options) (argv : List Text) : Prop where
  returns : (∃ result, options.parse argv = .ok result) ↔
    ∃ assignments, options.Accepts argv.tail assignments
  runs : ∀ result assignments, options.parse argv = .ok result →
    options.Accepts argv.tail assignments →
      ∀ slot value, options.dataAt slot = some (.value value) →
        ∃ after, result.dataAt slot = some (.value after) ∧
          after.calls = value.calls ++ assigned assignments slot
  throws : (¬ ∃ assignments, options.Accepts argv.tail assignments) →
    ∃ what, options.parse argv = .error (.runtimeError what)

/--
No reading takes an element for a positional switch, and none takes an element that
begins with two dashes and `=` for a positional value.
-/
def PlainPositionals (self : Options) (args : List Text) : Prop :=
  ∀ assignments, self.Accepts args assignments →
    ∀ idx arg, (Slot.positional idx, arg) ∈ assignments →
      (∀ flag, self.dataAt (.positional idx) ≠ some (.switch flag)) ∧
        ∀ value, self.dataAt (.positional idx) = some (.value value) →
          ¬ ['-', '-', '='] <+: arg

/-! ## Readings are determined by the elements -/

theorem Known.unique {self : Options} {name : Text} {index other : Nat} {data otherData : Data}
    (first : self.Known name index data) (second : self.Known name other otherData) :
    index = other ∧ data = otherData := by
  obtain ⟨known, found⟩ := first
  obtain ⟨otherKnown, otherFound⟩ := second
  rw [known] at otherKnown
  obtain rfl := Option.some.inj otherKnown
  rw [found] at otherFound
  exact ⟨rfl, Option.some.inj otherFound⟩

theorem ReadsOne.unique {self : Options} {idx next other : Nat} {args rest otherRest : List Text}
    {now otherNow : Assignments} (first : self.ReadsOne idx args now next rest)
    (second : self.ReadsOne idx args otherNow other otherRest) :
    now = otherNow ∧ next = other ∧ rest = otherRest := by
  cases first with
  | positional noOption found =>
      cases second with
      | positional => exact ⟨rfl, rfl, rfl⟩
      | switch option | noOp option | attached option | following option =>
          exact absurd option (noOption _ _)
  | switch option known =>
      cases second with
      | positional noOption => exact absurd option (noOption _ _)
      | switch => exact ⟨rfl, rfl, rfl⟩
      | noOp => exact ⟨rfl, rfl, rfl⟩
      | attached otherOption => cases (option.unique otherOption).2
      | following otherOption otherKnown =>
          obtain ⟨rfl, -⟩ := option.unique otherOption
          cases (known.unique otherKnown).2
  | noOp option known =>
      cases second with
      | positional noOption => exact absurd option (noOption _ _)
      | switch | noOp => exact ⟨rfl, rfl, rfl⟩
      | attached otherOption otherKnown | following otherOption otherKnown =>
          obtain ⟨rfl, -⟩ := option.unique otherOption
          cases (known.unique otherKnown).2
  | attached option known =>
      cases second with
      | positional noOption => exact absurd option (noOption _ _)
      | switch otherOption | following otherOption => cases (option.unique otherOption).2
      | noOp otherOption otherKnown =>
          obtain ⟨rfl, -⟩ := option.unique otherOption
          cases (known.unique otherKnown).2
      | attached otherOption otherKnown =>
          obtain ⟨rfl, attached⟩ := option.unique otherOption
          obtain rfl := Option.some.inj attached
          obtain ⟨rfl, -⟩ := known.unique otherKnown
          exact ⟨rfl, rfl, rfl⟩
  | following option known =>
      cases second with
      | positional noOption => exact absurd option (noOption _ _)
      | attached otherOption => cases (option.unique otherOption).2
      | switch otherOption otherKnown | noOp otherOption otherKnown =>
          obtain ⟨rfl, -⟩ := option.unique otherOption
          cases (known.unique otherKnown).2
      | following otherOption otherKnown =>
          obtain ⟨rfl, -⟩ := option.unique otherOption
          obtain ⟨rfl, -⟩ := known.unique otherKnown
          exact ⟨rfl, rfl, rfl⟩

theorem Reads.unique {self : Options} {idx : Nat} {args : List Text}
    {first second : Assignments} (reads : self.Reads idx args first)
    (others : self.Reads idx args second) : first = second := by
  induction reads generalizing second with
  | done =>
      cases others with
      | done => rfl
      | step one => cases one
  | step one _ laterUnique =>
      cases others with
      | done => cases one
      | step otherOne otherLater =>
          obtain ⟨rfl, rfl, rfl⟩ := one.unique otherOne
          rw [laterUnique otherLater]

/-! ## The state of a parse -/

/-- How far a parse has come that has made these assignments. -/
structure Progress (options current : Options) (log : Assignments) : Prop where
  names : current.opts_ = options.opts_
  data : ∀ slot, Option.Rel (Data.After (assigned log slot))
    (options.dataAt slot) (current.dataAt slot)

theorem Progress.begin (self : Options) : self.Progress self [] := by
  refine ⟨rfl, fun slot => ?_⟩
  cases self.dataAt slot with
  | none => exact .none
  | some data =>
      refine .some ?_
      cases data with
      | value value =>
          have unchanged : value.after (assigned [] slot) = value := by
            simp [Value.after, assigned]
          have after : Data.After (assigned [] slot) (.value value)
              (.value (value.after (assigned [] slot))) := .value
          rw [unchanged] at after
          exact after
      | help => exact .help
      | noOp => exact .noOp
      | switch => exact .switch

/-- A datum that is there in the course of a parse was there at its beginning. -/
theorem Progress.before {self current : Options} {log : Assignments}
    (progress : self.Progress current log) {slot : Slot} {now : Data}
    (found : current.dataAt slot = some now) :
    ∃ data, self.dataAt slot = some data ∧ Data.After (assigned log slot) data now := by
  have related := progress.data slot
  rw [found] at related
  generalize self.dataAt slot = before at related
  cases related with
  | some after => exact ⟨_, rfl, after⟩

/-- A datum that was there at the beginning of a parse is there in its course. -/
theorem Progress.now {self current : Options} {log : Assignments}
    (progress : self.Progress current log) {slot : Slot} {data : Data}
    (found : self.dataAt slot = some data) :
    ∃ now, current.dataAt slot = some now ∧ Data.After (assigned log slot) data now := by
  have related := progress.data slot
  rw [found] at related
  generalize current.dataAt slot = after at related
  cases related with
  | some after => exact ⟨_, rfl, after⟩

theorem Progress.noHelp {self current : Options} {log : Assignments}
    (progress : self.Progress current log) (fresh : self.Fresh) (slot : Slot) :
    current.dataAt slot ≠ some .help := by
  intro found
  obtain ⟨data, registered, after⟩ := progress.before found
  cases after
  exact fresh.noHelp slot registered

/-- Nothing is assigned, and a datum is set to what nothing assigned makes of it. -/
theorem Progress.setSwitch {self current : Options} {log : Assignments}
    (progress : self.Progress current log) {slot : Slot} {flag : Bool}
    (found : current.dataAt slot = some (.switch flag)) :
    self.Progress (current.setAt slot (.switch true)) log := by
  refine ⟨by rw [setAt_opts, progress.names], fun other => ?_⟩
  by_cases same : slot = other
  · subst same
    obtain ⟨data, registered, after⟩ := progress.before found
    rw [dataAt_setAt_self found, registered]
    cases after
    exact .some .switch
  · rw [dataAt_setAt_of_ne current same]
    exact progress.data other

/-- A value's function is run on one more argument. -/
theorem Progress.setValue {self current : Options} {log : Assignments}
    (progress : self.Progress current log) {slot : Slot} {value : Value} (arg : Text)
    (found : current.dataAt slot = some (.value value)) :
    self.Progress (current.setAt slot (.value (value.run arg))) (log ++ [(slot, arg)]) := by
  refine ⟨by rw [setAt_opts, progress.names], fun other => ?_⟩
  rw [assigned_append]
  by_cases same : slot = other
  · subst same
    obtain ⟨data, registered, after⟩ := progress.before found
    rw [dataAt_setAt_self found, registered]
    cases after
    rw [assigned_one_self, Value.after_run]
    exact .some .value
  · rw [dataAt_setAt_of_ne current same, assigned_one_of_ne same, List.append_nil]
    exact progress.data other

/-- What is assigned to a datum that ignores it changes nothing. -/
theorem Progress.skip {self current : Options} {log : Assignments}
    (progress : self.Progress current log) {slot : Slot} (arg : Text)
    (found : current.dataAt slot = some .noOp) :
    self.Progress current (log ++ [(slot, arg)]) := by
  refine ⟨progress.names, fun other => ?_⟩
  rw [assigned_append]
  by_cases same : slot = other
  · subst same
    obtain ⟨data, registered, after⟩ := progress.before found
    rw [found, registered]
    cases after
    exact .some .noOp
  · rw [assigned_one_of_ne same, List.append_nil]
    exact progress.data other

/-- Whether a value has been set is whether something has been assigned to it. -/
theorem after_set_iff {self : Options} (fresh : self.Fresh) {slot : Slot} {value : Value}
    (found : self.dataAt slot = some (.value value)) (args : List Text) :
    (value.after args).set = true ↔ args ≠ [] := by
  simp [Value.after, fresh.unset slot value found]

/-! ## One round of the loop -/

/-- What the loop takes for the value that a reading assigns to a slot. -/
def takenValue (slot : Slot) (arg : Text) : Text :=
  match slot with
  | .option _ => arg
  | .positional _ => positionalValue arg

/-- What the loop takes for an assignment of a reading. -/
def taken (entry : Slot × Text) : Slot × Text :=
  (entry.1, takenValue entry.1 entry.2)

theorem assigned_taken (assignments : Assignments) (slot : Slot) :
    assigned (assignments.map taken) slot = (assigned assignments slot).map (takenValue slot) := by
  induction assignments with
  | nil => rfl
  | cons entry rest continued =>
      obtain ⟨other, arg⟩ := entry
      have one : assigned [taken (other, arg)] slot =
          (assigned [(other, arg)] slot).map (takenValue slot) := by
        by_cases same : other = slot
        · subst same
          simp [taken]
        · simp [taken, assigned_one_of_ne same]
      rw [List.map_cons, ← List.singleton_append, assigned_append, one, continued,
        ← List.map_append, ← assigned_append]
      rfl

theorem mem_assigned_iff {assignments : Assignments} {slot : Slot} {arg : Text} :
    arg ∈ assigned assignments slot ↔ (slot, arg) ∈ assignments := by
  simp [assigned]

/-- No element is assigned to a switch. -/
def NoSwitch (self : Options) (assignments : Assignments) : Prop :=
  ∀ entry ∈ assignments, ∀ flag, self.dataAt entry.1 ≠ some (.switch flag)

theorem OnceOnly.append_one {self : Options} {log : Assignments} {slot : Slot} {value : Value}
    (arg : Text) (once : self.OnceOnly log)
    (found : self.dataAt slot = some (.value value))
    (free : value.multitoken ∨ assigned log slot = []) :
    self.OnceOnly (log ++ [(slot, arg)]) := by
  intro other otherValue otherFound single
  rw [assigned_append]
  by_cases same : slot = other
  · subst same
    rw [found] at otherFound
    cases otherFound
    have none : assigned log slot = [] := free.resolve_left single
    rw [none, assigned_one_self]
    exact Nat.le_refl 1
  · rw [assigned_one_of_ne same, List.append_nil]
    exact once other otherValue otherFound single

theorem OnceOnly.skip {self : Options} {log : Assignments} {slot : Slot} (arg : Text)
    (once : self.OnceOnly log) (found : self.dataAt slot = some .noOp) :
    self.OnceOnly (log ++ [(slot, arg)]) := by
  intro other value otherFound single
  have different : slot ≠ other := by
    rintro rfl
    rw [found] at otherFound
    cases otherFound
  rw [assigned_append, assigned_one_of_ne different, List.append_nil]
  exact once other value otherFound single

/-- A value may be assigned another one unless it takes only one and has been set. -/
theorem free_iff {self : Options} (fresh : self.Fresh) {log : Assignments} {slot : Slot}
    {value : Value} (found : self.dataAt slot = some (.value value)) :
    ((value.after (assigned log slot)).multitoken ∨
        (value.after (assigned log slot)).set = false) ↔
      (value.multitoken ∨ assigned log slot = []) := by
  have set := after_set_iff fresh found (assigned log slot)
  refine or_congr Iff.rfl ?_
  rw [← Bool.not_eq_true, set, ne_eq, not_not]

/-- Where nothing but one value is assigned, it was free to be assigned. -/
theorem OnceOnly.free {self : Options} {log : Assignments} {slot : Slot} {value : Value}
    {arg : Text} (once : self.OnceOnly (log ++ [(slot, arg)]))
    (found : self.dataAt slot = some (.value value)) :
    value.multitoken ∨ assigned log slot = [] := by
  by_cases multitoken : value.multitoken
  · exact .inl multitoken
  · have bound := once slot value found multitoken
    rw [assigned_append, List.length_append, assigned_one_self] at bound
    exact .inr (List.length_eq_zero_iff.mp (by simpa using bound))

/-- What a round of the loop that returns has read. -/
theorem Progress.parseStep_reads {self current options : Options} {log : Assignments}
    (progress : self.Progress current log) (fresh : self.Fresh) (once : self.OnceOnly log)
    {arg : Text} {args : List Text} {idx next : Nat} {lex : ArgvLexer}
    (stepped : current.parseStep (ArgvLexer.next (arg :: args)) idx = .ok (options, lex, next)) :
    ∃ now rest, lex = ArgvLexer.next rest ∧ self.ReadsOne idx (arg :: args) now next rest ∧
      self.NoSwitch now ∧ self.Progress options (log ++ now.map taken) ∧
      self.OnceOnly (log ++ now.map taken) := by
  obtain ⟨slot, now, found, visited, place⟩ := parseStep_ok stepped
  obtain ⟨data, registered, after⟩ := progress.before found
  by_cases isOption : ∃ name attached, IsOption arg name attached
  · obtain ⟨name, attached, option⟩ := isOption
    rw [option.next_eq] at visited place
    obtain ⟨noName, -⟩ | ⟨-, rfl, index, rfl, looked⟩ := place
    · exact absurd noName option.name_ne_nil
    have known : self.Known name index data := ⟨progress.names ▸ looked, registered⟩
    cases after with
    | help => exact absurd registered (fresh.noHelp _)
    | noOp =>
        cases visited
        exact ⟨[], args, rfl, .noOp option known, by simp [NoSwitch], by simpa using progress,
          by simpa using once⟩
    | switch =>
        obtain ⟨popped, rfl⟩ := visitData_switch visited
        obtain ⟨rfl, rfl⟩ := ArgvLexer.popSwitch_ok popped
        refine ⟨[], args, rfl, .switch option known, by simp [NoSwitch], ?_, by simpa using once⟩
        simpa using progress.setSwitch found
    | @value value =>
        obtain ⟨val, popped, free, rfl⟩ := visitData_value visited
        have reached := progress.setValue val found
        have free := (free_iff fresh registered).mp free
        have onceMore := once.append_one val registered free
        have noSwitch : self.NoSwitch [(.option index, val)] := by
          simp [NoSwitch, registered]
        obtain ⟨rfl, rfl⟩ | ⟨rfl, rest, tail, rfl⟩ := ArgvLexer.popValue_ok popped
        · exact ⟨_, args, rfl, .attached option known, noSwitch, reached, onceMore⟩
        · obtain rfl : args = val :: rest := tail
          exact ⟨_, rest, rfl, .following option known, noSwitch, reached, onceMore⟩
  · have positional : ∀ name attached, ¬ IsOption arg name attached :=
      fun name attached option => isOption ⟨name, attached, option⟩
    rw [next_eq_of_not_isOption positional] at visited place
    obtain ⟨-, rfl, rfl⟩ | ⟨name, -⟩ := place
    · have read : self.ReadsOne idx (arg :: args) [(.positional idx, arg)] (idx + 1) args :=
        .positional positional registered
      cases after with
      | help => exact absurd registered (fresh.noHelp _)
      | noOp =>
          cases visited
          exact ⟨_, args, rfl, read, by simp [NoSwitch, registered], progress.skip _ found,
            once.skip _ registered⟩
      | switch =>
          obtain ⟨popped, -⟩ := visitData_switch visited
          cases (ArgvLexer.popSwitch_ok popped).1
      | @value value =>
          obtain ⟨val, popped, free, rfl⟩ := visitData_value visited
          have free := (free_iff fresh registered).mp free
          obtain ⟨same, rfl⟩ | ⟨none, -⟩ := ArgvLexer.popValue_ok popped
          · cases same
            exact ⟨_, args, rfl, read, by simp [NoSwitch, registered],
              progress.setValue _ found, once.append_one _ registered free⟩
          · cases none
    · exact absurd rfl name

/-- A value that may be assigned another one is visited without an error. -/
theorem visitData_of_popValue {self : Options} {slot : Slot} {value : Value}
    {lex rest : ArgvLexer} {val : Text} (popped : lex.popValue = (rest, .ok val))
    (free : value.multitoken ∨ value.set = false) :
    self.visitData slot (.value value) lex =
      .ok (self.setAt slot (.value (value.run val)), rest) := by
  have notTwice : ¬ (value.set = true ∧ ¬ value.multitoken = true) := by
    rintro ⟨set, single⟩
    rcases free with multitoken | unset
    · exact single multitoken
    · rw [unset] at set
      cases set
  simp only [visitData, popped, if_neg notTwice]

/-- What can be read in one go is read in a round of the loop. -/
theorem Progress.parseStep_of_reads {self current : Options} {log : Assignments}
    (progress : self.Progress current log) (fresh : self.Fresh)
    {args rest : List Text} {idx next : Nat} {now : Assignments}
    (one : self.ReadsOne idx args now next rest) (noSwitch : self.NoSwitch now)
    (once : self.OnceOnly (log ++ now.map taken)) :
    ∃ options, current.parseStep (ArgvLexer.next args) idx =
      .ok (options, ArgvLexer.next rest, next) := by
  cases one with
  | switch option known =>
      obtain ⟨looked, registered⟩ := known
      obtain ⟨_, found, after⟩ := progress.now registered
      cases after
      rw [option.next_eq]
      exact ⟨_, parseStep_of_option option.name_ne_nil (progress.names ▸ looked) found rfl idx⟩
  | noOp option known =>
      obtain ⟨looked, registered⟩ := known
      obtain ⟨_, found, after⟩ := progress.now registered
      cases after
      rw [option.next_eq]
      exact ⟨_, parseStep_of_option option.name_ne_nil (progress.names ▸ looked) found rfl idx⟩
  | attached option known =>
      obtain ⟨looked, registered⟩ := known
      obtain ⟨_, found, after⟩ := progress.now registered
      cases after
      have free := (free_iff fresh registered).mpr (once.free registered)
      rw [option.next_eq]
      exact ⟨_, parseStep_of_option option.name_ne_nil (progress.names ▸ looked) found
        (visitData_of_popValue rfl free) idx⟩
  | following option known =>
      obtain ⟨looked, registered⟩ := known
      obtain ⟨_, found, after⟩ := progress.now registered
      cases after
      have free := (free_iff fresh registered).mpr (once.free registered)
      rw [option.next_eq]
      exact ⟨_, parseStep_of_option option.name_ne_nil (progress.names ▸ looked) found
        (visitData_of_popValue rfl free) idx⟩
  | positional positional registered =>
      obtain ⟨_, found, after⟩ := progress.now registered
      rw [next_eq_of_not_isOption positional]
      cases after with
      | help => exact absurd registered (fresh.noHelp _)
      | noOp => exact ⟨_, parseStep_of_positional rfl found rfl⟩
      | @switch flag => exact absurd registered (noSwitch _ (List.mem_singleton_self _) flag)
      | value =>
          have free := (free_iff fresh registered).mpr (once.free registered)
          exact ⟨_, parseStep_of_positional rfl found (visitData_of_popValue rfl free)⟩

/-! ## The whole loop -/

theorem parseLoop_nil (self : Options) (idx : Nat) :
    self.parseLoop (ArgvLexer.next []) idx = .ok self :=
  parseLoop_end (ArgvLexer.next_it []) self idx

theorem parseLoop_error {self : Options} {args : List Text} {idx : Nat} {stop : Stop}
    (nonempty : args ≠ []) (stepped : self.parseStep (ArgvLexer.next args) idx = .error stop) :
    self.parseLoop (ArgvLexer.next args) idx = .error stop :=
  parseLoop_stop (by simpa using nonempty) stepped

theorem parseLoop_ok {self options : Options} {args : List Text} {idx next : Nat}
    {lex : ArgvLexer} (nonempty : args ≠ [])
    (stepped : self.parseStep (ArgvLexer.next args) idx = .ok (options, lex, next)) :
    self.parseLoop (ArgvLexer.next args) idx = options.parseLoop lex next :=
  parseLoop_step (by simpa using nonempty) stepped

theorem ReadsOne.shorter {self : Options} {idx next : Nat} {args rest : List Text}
    {now : Assignments} (one : self.ReadsOne idx args now next rest) :
    rest.length < args.length := by
  cases one <;> simp only [List.length_cons] <;> omega

/-- What a loop that returns has read. -/
theorem Progress.parseLoop_reads {self current result : Options} {log : Assignments}
    (progress : self.Progress current log) (fresh : self.Fresh) (once : self.OnceOnly log)
    {args : List Text} {idx : Nat}
    (parsed : current.parseLoop (ArgvLexer.next args) idx = .ok result) :
    ∃ assignments, self.Reads idx args assignments ∧ self.NoSwitch assignments ∧
      self.Progress result (log ++ assignments.map taken) ∧
      self.OnceOnly (log ++ assignments.map taken) := by
  induction size : args.length using Nat.strongRecOn
    generalizing current log args idx with
  | ind size shorter =>
      cases args with
      | nil =>
          rw [parseLoop_nil] at parsed
          cases parsed
          exact ⟨[], .done, by simp [NoSwitch], by simpa using progress, by simpa using once⟩
      | cons arg args =>
          cases stepped : current.parseStep (ArgvLexer.next (arg :: args)) idx with
          | error stop =>
              rw [parseLoop_error (by simp) stepped] at parsed
              cases parsed
          | ok reached =>
              obtain ⟨options, lex, next⟩ := reached
              rw [parseLoop_ok (by simp) stepped] at parsed
              obtain ⟨now, rest, rfl, one, noSwitch, reached, onceNow⟩ :=
                progress.parseStep_reads fresh once stepped
              obtain ⟨later, reads, noSwitchLater, finished, onceLater⟩ :=
                shorter _ (size ▸ one.shorter) reached onceNow parsed rfl
              refine ⟨now ++ later, .step one reads, ?_, ?_, ?_⟩
              · intro entry member
                exact (List.mem_append.mp member).elim (noSwitch entry) (noSwitchLater entry)
              · simpa using finished
              · simpa using onceLater

theorem OnceOnly.left {self : Options} {first second : Assignments}
    (once : self.OnceOnly (first ++ second)) : self.OnceOnly first := by
  intro slot value found single
  have bound := once slot value found single
  rw [assigned_append, List.length_append] at bound
  omega

/-- What can be read is read by the loop. -/
theorem Reads.parseLoop {self current : Options} {log assignments : Assignments}
    {args : List Text} {idx : Nat} (reads : self.Reads idx args assignments)
    (fresh : self.Fresh) (progress : self.Progress current log)
    (noSwitch : self.NoSwitch assignments)
    (once : self.OnceOnly (log ++ assignments.map taken)) :
    ∃ result, current.parseLoop (ArgvLexer.next args) idx = .ok result := by
  induction reads generalizing current log with
  | done => exact ⟨current, parseLoop_nil current _⟩
  | @step idx next args rest now later one _ continued =>
      rw [List.map_append, ← List.append_assoc] at once
      have noSwitchNow : self.NoSwitch now :=
        fun entry member => noSwitch entry (List.mem_append_left _ member)
      obtain ⟨options, stepped⟩ :=
        progress.parseStep_of_reads fresh one noSwitchNow once.left
      have nonempty : args ≠ [] := by
        rintro rfl
        cases one
      obtain ⟨arg, args, rfl⟩ := List.exists_cons_of_ne_nil nonempty
      obtain ⟨_, _, _, otherOne, -, reached, -⟩ :=
        progress.parseStep_reads fresh once.left.left stepped
      obtain ⟨rfl, -, -⟩ := one.unique otherOne
      obtain ⟨result, parsed⟩ := continued reached
        (fun entry member => noSwitch entry (List.mem_append_right _ member)) once
      exact ⟨result, by rw [parseLoop_ok nonempty stepped, parsed]⟩

/-- The loop ends otherwise only by throwing: nothing asks for help. -/
theorem Progress.parseLoop_error {self current : Options} {log : Assignments} {args : List Text}
    {idx : Nat} {stop : Stop} (progress : self.Progress current log) (fresh : self.Fresh)
    (once : self.OnceOnly log)
    (failed : current.parseLoop (ArgvLexer.next args) idx = .error stop) :
    ∃ what, stop = .runtimeError what := by
  induction size : args.length using Nat.strongRecOn
    generalizing current log args idx with
  | ind size shorter =>
      cases args with
      | nil =>
          rw [parseLoop_nil] at failed
          cases failed
      | cons arg args =>
          cases stepped : current.parseStep (ArgvLexer.next (arg :: args)) idx with
          | error other =>
              rw [Options.parseLoop_error (by simp) stepped] at failed
              cases failed
              exact parseStep_error (progress.noHelp fresh) stepped
          | ok reached =>
              obtain ⟨options, lex, next⟩ := reached
              rw [parseLoop_ok (by simp) stepped] at failed
              obtain ⟨now, rest, rfl, one, -, reached, onceNow⟩ :=
                progress.parseStep_reads fresh once stepped
              exact shorter _ (size ▸ one.shorter) reached onceNow failed rfl

/-! ## What is missing -/

theorem forM_ok_iff {α : Type} (entries : List α) (check : α → Except Stop Unit) :
    forM entries check = .ok () ↔ ∀ entry ∈ entries, check entry = .ok () := by
  induction entries with
  | nil => simp [pure, Except.pure]
  | cons entry rest continued =>
      rw [List.forM_cons, List.forall_mem_cons, ← continued]
      cases check entry with
      | error stop => simp [bind, Except.bind]
      | ok => simp [bind, Except.bind]

theorem checkData_ok_iff (data : Data) (what : Text) :
    checkData data what = .ok () ↔
      ∀ value, data = .value value → value.required → value.set = true := by
  cases data with
  | value value =>
      cases required : value.required <;> cases set : value.set <;>
        simp [checkData, required, set]
  | help | noOp | switch => simp [checkData]

/-- Both loops find nothing where every required value has been set. -/
theorem checks_ok_iff (self : Options) :
    self.checkOpts = .ok () ∧ self.checkPositional = .ok () ↔
      ∀ slot value, self.Registered slot → self.dataAt slot = some (.value value) →
        value.required → value.set = true := by
  unfold checkOpts checkPositional
  rw [forM_ok_iff, forM_ok_iff]
  constructor
  · rintro ⟨options, positionals⟩ slot value registered found required
    cases slot with
    | option index =>
        obtain ⟨name, member⟩ := registered
        obtain ⟨datum, foundDatum, isValue⟩ := Option.map_eq_some_iff.mp found
        have checked := options (name, index) member
        rw [foundDatum] at checked
        exact (checkData_ok_iff _ _).mp checked value isValue required
    | positional index =>
        have checked := positionals _ (List.mem_of_getElem? found)
        exact (checkData_ok_iff _ _).mp checked value rfl required
  · intro set
    constructor
    · rintro ⟨name, index⟩ member
      dsimp only
      split
      · rename_i datum foundDatum
        refine (checkData_ok_iff _ _).mpr fun value isValue required => ?_
        refine set (.option index) value ⟨name, member⟩ ?_ required
        simp [dataAt, foundDatum, isValue]
      · rfl
    · intro data member
      refine (checkData_ok_iff _ _).mpr fun value isValue required => ?_
      obtain ⟨index, found⟩ := List.mem_iff_getElem?.mp member
      exact set (.positional index) value trivial (isValue ▸ found) required

theorem parse_ok_iff (self result : Options) (program : Text) (args : List Text) :
    self.parse (program :: args) = .ok result ↔
      self.parseLoop (ArgvLexer.next args) 0 = .ok result ∧
        result.checkOpts = .ok () ∧ result.checkPositional = .ok () := by
  have unfolded : self.parse (program :: args) =
      (self.parseLoop (ArgvLexer.next args) 0 >>= fun parsed =>
        parsed.checkOpts >>= fun _ => parsed.checkPositional >>= fun _ => .ok parsed) := rfl
  rw [unfolded]
  cases self.parseLoop (ArgvLexer.next args) 0 with
  | error stop => simp [bind, Except.bind]
  | ok parsed =>
      constructor
      · intro returned
        cases checkedOpts : parsed.checkOpts with
        | error stop => simp [bind, Except.bind, checkedOpts] at returned
        | ok =>
            cases checkedPositional : parsed.checkPositional with
            | error stop => simp [bind, Except.bind, checkedOpts, checkedPositional] at returned
            | ok =>
                simp only [bind, Except.bind, checkedOpts, checkedPositional] at returned
                cases returned
                exact ⟨rfl, checkedOpts, checkedPositional⟩
      · rintro ⟨same, checkedOpts, checkedPositional⟩
        cases same
        simp [bind, Except.bind, checkedOpts, checkedPositional]

/-- What is missing is reported by throwing. -/
theorem checkData_error {data : Data} {what : Text} {stop : Stop}
    (failed : checkData data what = .error stop) : stop = .runtimeError what := by
  cases data with
  | value value =>
      simp only [checkData] at failed
      split at failed
      · cases failed
        rfl
      · cases failed
  | help | noOp | switch => cases failed

theorem forM_error {α : Type} {entries : List α} {check : α → Except Stop Unit} {stop : Stop}
    (failed : forM entries check = .error stop) : ∃ entry, check entry = .error stop := by
  induction entries with
  | nil => cases failed
  | cons entry rest continued =>
      rw [List.forM_cons] at failed
      cases checked : check entry with
      | error other =>
          rw [checked] at failed
          cases failed
          exact ⟨entry, checked⟩
      | ok =>
          rw [checked] at failed
          exact continued failed

theorem parse_error {self : Options} {program : Text} {args : List Text} {stop : Stop}
    (fresh : self.Fresh) (failed : self.parse (program :: args) = .error stop) :
    ∃ what, stop = .runtimeError what := by
  cases parsed : self.parseLoop (ArgvLexer.next args) 0 with
  | error other =>
      have same : self.parse (program :: args) = .error other := by
        simp [parse, ArgvLexer.create, parsed, bind, Except.bind]
      rw [same] at failed
      cases failed
      exact (Progress.begin self).parseLoop_error fresh (fun slot value _ _ => by simp [assigned])
        parsed
  | ok result =>
      have same : self.parse (program :: args) =
          (result.checkOpts >>= fun _ => result.checkPositional >>= fun _ => .ok result) := by
        simp [parse, ArgvLexer.create, parsed, bind, Except.bind]
      rw [same] at failed
      cases checkedOpts : result.checkOpts with
      | error other =>
          rw [checkedOpts] at failed
          cases failed
          obtain ⟨entry, missing⟩ := forM_error checkedOpts
          split at missing
          · exact ⟨_, checkData_error missing⟩
          · cases missing
      | ok =>
          rw [checkedOpts] at failed
          cases checkedPositional : result.checkPositional with
          | error other =>
              have stopped : stop = other := by
                simpa [bind, Except.bind, checkedPositional] using failed.symm
              subst stopped
              obtain ⟨data, missing⟩ := forM_error checkedPositional
              exact ⟨_, checkData_error missing⟩
          | ok => simp [bind, Except.bind, checkedPositional] at failed

/-- What is assigned to an option is assigned to a value. -/
theorem Reads.option_value {self : Options} {idx : Nat} {args : List Text}
    {assignments : Assignments} (reads : self.Reads idx args assignments) {index : Nat}
    {arg : Text} (member : (Slot.option index, arg) ∈ assignments) :
    ∃ value, self.dataAt (.option index) = some (.value value) := by
  induction reads with
  | done => cases member
  | step one _ later =>
      rcases List.mem_append.mp member with now | rest
      · cases one with
        | switch | noOp => cases now
        | attached _ known | following _ known =>
            cases List.mem_singleton.mp now
            exact ⟨_, known.2⟩
        | positional => cases List.mem_singleton.mp now
      · exact later rest

/-! ## What `parse` returns -/

theorem onceOnly_taken_iff (self : Options) (assignments : Assignments) :
    self.OnceOnly (assignments.map taken) ↔ self.OnceOnly assignments := by
  simp only [OnceOnly, assigned_taken, List.length_map]

/-- A `parse` that returns has read the elements. -/
theorem parse_reads {self result : Options} {program : Text} {args : List Text}
    (fresh : self.Fresh) (parsed : self.parse (program :: args) = .ok result) :
    ∃ assignments, self.Accepts args assignments ∧ self.NoSwitch assignments ∧
      self.Progress result (assignments.map taken) := by
  obtain ⟨looped, checked⟩ := (parse_ok_iff _ _ _ _).mp parsed
  obtain ⟨assignments, reads, noSwitch, progress, once⟩ :=
    (Progress.begin self).parseLoop_reads fresh (fun slot value _ _ => by simp [assigned]) looped
  rw [List.nil_append] at progress once
  refine ⟨assignments, ⟨reads, ?_, (onceOnly_taken_iff _ _).mp once⟩, noSwitch, progress⟩
  intro slot value registered found required
  have registeredNow : result.Registered slot := by
    cases slot with
    | option index =>
        obtain ⟨name, member⟩ := registered
        exact ⟨name, progress.names ▸ member⟩
    | positional index => trivial
  obtain ⟨_, foundNow, after⟩ := progress.now found
  cases after
  have set := (checks_ok_iff result).mp checked slot _ registeredNow foundNow required
  rw [after_set_iff fresh found, assigned_taken] at set
  exact fun none => set (by rw [none, List.map_nil])

/-- What can be read, without a positional switch, is parsed. -/
theorem Accepts.parse {self : Options} {args : List Text} {assignments : Assignments}
    (accepts : self.Accepts args assignments) (fresh : self.Fresh)
    (noSwitch : self.NoSwitch assignments) (program : Text) :
    ∃ result, self.parse (program :: args) = .ok result := by
  have once := (onceOnly_taken_iff self assignments).mpr accepts.once
  obtain ⟨result, looped⟩ := accepts.reads.parseLoop fresh (Progress.begin self) noSwitch once
  obtain ⟨read, reads, _, progress, _⟩ :=
    (Progress.begin self).parseLoop_reads fresh (fun slot value _ _ => by simp [assigned]) looped
  obtain rfl := accepts.reads.unique reads
  rw [List.nil_append] at progress
  refine ⟨result, (parse_ok_iff _ _ _ _).mpr ⟨looped, (checks_ok_iff result).mpr ?_⟩⟩
  intro slot value registered foundNow required
  obtain ⟨data, found, after⟩ := progress.before foundNow
  cases after with
  | @value before =>
      rw [after_set_iff fresh found, assigned_taken]
      have registeredBefore : self.Registered slot := by
        cases slot with
        | option index =>
            obtain ⟨name, member⟩ := registered
            exact ⟨name, progress.names ▸ member⟩
        | positional index => trivial
      have set := accepts.required slot before registeredBefore found required
      exact fun none => set (List.map_eq_nil_iff.mp none)

/--
`parse` returns exactly for what can be read, having run each value on what is
assigned to it, where no element is read as a positional switch or begins with two
dashes and `=` and is read as a positional value.
-/
theorem parsesAsRead_iff (options : Options) (fresh : options.Fresh) (program : Text)
    (args : List Text) :
    options.ParsesAsRead (program :: args) ↔ options.PlainPositionals args := by
  constructor
  · intro asRead assignments accepts idx arg member
    obtain ⟨result, parsed⟩ := asRead.returns.mpr ⟨assignments, accepts⟩
    obtain ⟨read, acceptsRead, noSwitch, progress⟩ := parse_reads fresh parsed
    obtain rfl := accepts.reads.unique acceptsRead.reads
    refine ⟨noSwitch _ member, fun value found => ?_⟩
    obtain ⟨after, foundAfter, calls⟩ := asRead.runs result assignments parsed accepts _ _ found
    obtain ⟨_, foundNow, isAfter⟩ := progress.now found
    rw [foundNow] at foundAfter
    cases isAfter
    cases foundAfter
    -- the function has been run on what was taken, so nothing was taken off
    have same := List.append_cancel_left calls
    rw [assigned_taken] at same
    have unchanged := List.map_inj_left.mp (same.trans (List.map_id _).symm) arg
      (mem_assigned_iff.mpr member)
    exact (positionalValue_eq_self_iff arg).mp unchanged
  · intro plain
    have noSwitch : ∀ assignments, options.Accepts args assignments →
        options.NoSwitch assignments := by
      intro assignments accepts entry member flag
      obtain ⟨slot, arg⟩ := entry
      cases slot with
      | option index =>
          obtain ⟨value, found⟩ := accepts.reads.option_value member
          rw [found]
          simp
      | positional idx => exact (plain assignments accepts idx arg member).1 flag
    have returns : (∃ result, options.parse (program :: args) = .ok result) ↔
        ∃ assignments, options.Accepts args assignments := by
      constructor
      · rintro ⟨result, parsed⟩
        obtain ⟨assignments, accepts, -⟩ := parse_reads fresh parsed
        exact ⟨assignments, accepts⟩
      · rintro ⟨assignments, accepts⟩
        exact accepts.parse fresh (noSwitch assignments accepts) program
    refine ⟨returns, ?_, ?_⟩
    · intro result assignments parsed accepts slot value found
      obtain ⟨read, acceptsRead, -, progress⟩ := parse_reads fresh parsed
      obtain rfl := accepts.reads.unique acceptsRead.reads
      obtain ⟨_, foundNow, isAfter⟩ := progress.now found
      cases isAfter
      refine ⟨_, foundNow, ?_⟩
      have same : assigned (assignments.map taken) slot = assigned assignments slot := by
        rw [assigned_taken]
        refine (List.map_inj_left.mpr fun arg member => ?_).trans (List.map_id _)
        cases slot with
        | option index => rfl
        | positional idx =>
            have positional := plain assignments accepts idx arg (mem_assigned_iff.mp member)
            exact (positionalValue_eq_self_iff arg).mpr (positional.2 value found)
      rw [Value.after, same]
    · intro unread
      cases parsed : options.parse (program :: args) with
      | ok result => exact absurd (returns.mp ⟨result, parsed⟩) unread
      | error stop =>
          obtain ⟨what, rfl⟩ := parse_error fresh parsed
          exact ⟨what, rfl⟩

/-- One positional argument, which is required. -/
def onePositional : Options :=
  Options.create.positional (.value ⟨true, false, false, []⟩)

theorem onePositional_fresh : onePositional.Fresh := by
  have all : ∀ slot data, onePositional.dataAt slot = some data →
      data = .value ⟨true, false, false, []⟩ := by
    intro slot data found
    cases slot with
    | option index => simp [onePositional, dataAt, Options.positional, create] at found
    | positional index =>
        cases index with
        | zero => simpa [onePositional, dataAt, Options.positional, create] using found.symm
        | succ index => simp [onePositional, dataAt, Options.positional, create] at found
  refine ⟨fun slot value found => ?_, fun slot found => ?_⟩
  · cases all slot _ found
    rfl
  · cases all slot _ found

/-- An element without a dash is assigned to the positional argument as it is. -/
theorem onePositional_reads_word :
    onePositional.ParsesAsRead [['p'], ['a']] := by
  refine (parsesAsRead_iff onePositional onePositional_fresh ['p'] [['a']]).mpr ?_
  intro assignments accepts idx arg member
  cases accepts.reads with
  | step one later =>
      cases one with
      | switch option | noOp option | attached option => cases option
      | positional _ found =>
          cases later with
          | step one => cases one
          | done =>
              cases List.mem_singleton.mp member
              exact ⟨fun flag => by simp [onePositional, dataAt, Options.positional, create],
                fun value _ => by simp⟩

/-- Two dashes, `=` and a character. -/
def emptyName : Text := ['-', '-', '=', 'x']

theorem emptyName_not_isOption (name : Text) (attached : Option Text) :
    ¬ IsOption emptyName name attached := by
  intro option
  have looked := option.next_eq []
  exact option.name_ne_nil (congrArg ArgvLexer.opt_ looked).symm

/-- An option with an empty name is read as a positional argument and loses its dashes. -/
theorem onePositional_emptyName :
    onePositional.Accepts [emptyName] [(.positional 0, emptyName)] ∧
      (∃ result, onePositional.parse [['p'], emptyName] = .ok result ∧
        result.dataAt (.positional 0) = some (.value ⟨true, false, true, [['x']]⟩)) ∧
      ¬ onePositional.ParsesAsRead [['p'], emptyName] := by
  have accepts : onePositional.Accepts [emptyName] [(.positional 0, emptyName)] := by
    refine ⟨.step (.positional emptyName_not_isOption rfl) .done, ?_, ?_⟩
    · intro slot value registered found required
      cases slot with
      | option index => simp [onePositional, dataAt, Options.positional, create] at found
      | positional index =>
          cases index with
          | zero => simp
          | succ index => simp [onePositional, dataAt, Options.positional, create] at found
    · intro slot value found single
      rw [assigned, List.length_map]
      exact List.length_filter_le _ _
  have returned : ∃ result, onePositional.parse [['p'], emptyName] = .ok result ∧
      result.dataAt (.positional 0) = some (.value ⟨true, false, true, [['x']]⟩) := by
    refine ⟨onePositional.setAt (.positional 0) (.value ⟨true, false, true, [['x']]⟩), ?_, rfl⟩
    refine (parse_ok_iff _ _ _ _).mpr ⟨?_, rfl, rfl⟩
    rw [parseLoop_ok (by simp) (parseStep_of_positional rfl rfl rfl)]
    exact parseLoop_nil _ _
  refine ⟨accepts, returned, fun asRead => ?_⟩
  obtain ⟨result, parsed, now⟩ := returned
  obtain ⟨after, foundAfter, calls⟩ := asRead.runs result _ parsed accepts (.positional 0) _ rfl
  rw [now] at foundAfter
  cases foundAfter
  exact absurd calls (by decide)

end ReactiveToolbox.Util.Options
