import ReactiveToolbox.Util.Argv

/-!
# The options of the command line

`Options` holds what has been registered: options under one name or two, and
positional arguments.  `parse` asks the lexer for the next element, looks up what it
is for, and takes the value off the lexer that this kind of option needs.
-/

namespace ReactiveToolbox.Util

/-- `Value`, with the arguments that its function has been run on. -/
structure Value where
  required : Bool
  multitoken : Bool
  set : Bool
  calls : List Text
  deriving DecidableEq

/-- `Value::run`. -/
def Value.run (self : Value) (arg : Text) : Value :=
  { self with set := true, calls := self.calls ++ [arg] }

/-- `Data`: a `Switch` with its flag. -/
inductive Data where
  | value (value : Value)
  | help
  | noOp
  | switch (flag : Bool)
  deriving DecidableEq

/-- `OptionData`; a name that it does not have is empty. -/
structure OptionData where
  shortOpt : Text
  longOpt : Text
  data : Data
  deriving DecidableEq

/-- The name that messages use. -/
def OptionData.opt (self : OptionData) : Text :=
  if self.longOpt = [] then self.shortOpt else self.longOpt

/-- Where a datum is registered. -/
inductive Slot where
  | option (index : Nat)
  | positional (index : Nat)
  deriving DecidableEq

/--
`Options`: the option data in the order of `help_`, the names in the order of the
map, each with the place of its datum, and the positional arguments.
-/
structure Options where
  help_ : List OptionData
  opts_ : List (Text × Nat)
  positional_ : List Data
  named : ∀ entry ∈ opts_, entry.2 < help_.length
  distinct : (opts_.map Prod.fst).Nodup

/-- How `parse` ends otherwise than by returning. -/
inductive Stop where
  | runtimeError (what : Text)
  | exit
  deriving DecidableEq

namespace Options

/-! ## Registering -/

/-- Names are the same if their characters are. -/
scoped instance lawfulText : LawfulBEq Text := inferInstance

/-- No option. -/
def create : Options where
  help_ := []
  opts_ := []
  positional_ := []
  named := by simp
  distinct := by simp

/-- A name put into the map at its place in the order. -/
def insertName (opts : List (Text × Nat)) (name : Text) (index : Nat) : List (Text × Nat) :=
  opts.takeWhile (·.1 < name) ++ (name, index) :: opts.dropWhile (·.1 < name)

/-- A name is added to the others. -/
theorem insertName_perm (opts : List (Text × Nat)) (name : Text) (index : Nat) :
    (insertName opts name index).Perm ((name, index) :: opts) := by
  have split := List.takeWhile_append_dropWhile (p := fun entry => decide (entry.1 < name))
    (l := opts)
  refine List.perm_middle.trans ?_
  rw [split]

/-- `emplace` of a name for a datum: it throws where the name is taken. -/
def emplace (self : Options) (name : Text) (index : Nat) (within : index < self.help_.length) :
    Options × Except Text Unit :=
  if taken : name ∈ self.opts_.map Prod.fst then
    (self, .error ("attempting to register duplicate option ".toList ++ name))
  else
    ({ self with
        opts_ := insertName self.opts_ name index
        named := by
          intro entry member
          rcases List.mem_cons.mp ((insertName_perm _ _ _).mem_iff.mp member) with rfl | old
          · exact within
          · exact self.named entry old
        distinct := by
          refine (((insertName_perm _ _ _).map Prod.fst).nodup_iff).mpr ?_
          exact List.nodup_cons.mpr ⟨taken, self.distinct⟩ },
      .ok ())

@[simp]
theorem emplace_help (self : Options) (name : Text) (index : Nat)
    (within : index < self.help_.length) :
    (self.emplace name index within).1.help_ = self.help_ := by
  unfold emplace
  split <;> rfl

/-- An option datum put behind the others, which has no name yet. -/
def pushHelp (self : Options) (datum : OptionData) : Options where
  help_ := self.help_ ++ [datum]
  opts_ := self.opts_
  positional_ := self.positional_
  named := by
    intro entry member
    have within := self.named entry member
    rw [List.length_append]
    omega
  distinct := self.distinct

/-- `operator()` of an option; without a character it has no short name. -/
def option (self : Options) (shortOpt : Option Char) (longOpt : Text) (data : Data) :
    Options × Except Text Unit :=
  let index := self.help_.length
  let pushed := self.pushHelp ⟨shortOpt.toList, longOpt, data⟩
  have within : index < pushed.help_.length := by
    simp [pushed, index, pushHelp]
  let short := if shortOpt.isSome then pushed.emplace shortOpt.toList index within
    else (pushed, .ok ())
  have within' : index < short.1.help_.length := by
    simp only [short]
    split <;> simpa using within
  match short.2 with
  | .error what => (short.1, .error what)
  | .ok () => if longOpt = [] then short else short.1.emplace longOpt index within'

/-- `operator()` of a positional argument. -/
def positional (self : Options) (data : Data) : Options :=
  { self with positional_ := self.positional_ ++ [data] }

/-! ## Parsing -/

/-- What is registered there. -/
def dataAt (self : Options) : Slot → Option Data
  | .option index => self.help_[index]?.map OptionData.data
  | .positional index => self.positional_[index]?

/-- What is registered there after it has been run. -/
def setAt (self : Options) (slot : Slot) (data : Data) : Options :=
  match slot with
  | .option index =>
      { self with
        help_ := self.help_.modify index fun datum => { datum with data := data }
        named := by
          intro entry member
          rw [List.length_modify]
          exact self.named entry member }
  | .positional index => { self with positional_ := self.positional_.set index data }

@[simp]
theorem setAt_opts (self : Options) (slot : Slot) (data : Data) :
    (self.setAt slot data).opts_ = self.opts_ := by
  cases slot <;> rfl

theorem dataAt_setAt_self {self : Options} {slot : Slot} {old : Data}
    (registered : self.dataAt slot = some old) (data : Data) :
    (self.setAt slot data).dataAt slot = some data := by
  cases slot with
  | option index =>
      obtain ⟨datum, found, -⟩ := Option.map_eq_some_iff.mp registered
      simp [setAt, dataAt, found]
  | positional index =>
      have within : index < self.positional_.length := by
        obtain ⟨within, -⟩ := List.getElem?_eq_some_iff.mp registered
        exact within
      simp [setAt, dataAt, within]

/-- What is registered elsewhere stays. -/
theorem dataAt_setAt_of_ne (self : Options) {slot other : Slot} (different : slot ≠ other)
    (data : Data) : (self.setAt slot data).dataAt other = self.dataAt other := by
  cases slot with
  | option index =>
      cases other with
      | option otherIndex =>
          have apart : index ≠ otherIndex := fun same => different (congrArg Slot.option same)
          simp [setAt, dataAt, apart]
      | positional otherIndex => rfl
  | positional index =>
      cases other with
      | option otherIndex => rfl
      | positional otherIndex =>
          have apart : index ≠ otherIndex :=
            fun same => different (congrArg Slot.positional same)
          simp [setAt, dataAt, List.getElem?_set_ne apart]

/-- `visit` in the loop of `parse`. -/
def visitData (self : Options) (slot : Slot) (data : Data) (lex : ArgvLexer) :
    Except Stop (Options × ArgvLexer) :=
  match data with
  | .help =>
      match lex.popSwitch with
      | (_, .error what) => .error (.runtimeError what)
      | (_, .ok ()) => .error .exit
  | .switch _ =>
      match lex.popSwitch with
      | (_, .error what) => .error (.runtimeError what)
      | (rest, .ok ()) => .ok (self.setAt slot (.switch true), rest)
  | .value value =>
      match lex.popValue with
      | (_, .error what) => .error (.runtimeError what)
      | (rest, .ok val) =>
          if value.set ∧ ¬ value.multitoken then
            .error (.runtimeError ("duplicate option: ".toList ++ lex.opt_))
          else .ok (self.setAt slot (.value (value.run val)), rest)
  | .noOp => .ok (self, lex.pop)

/-- One round of the loop of `parse`, with the index of the next positional argument. -/
def parseStep (self : Options) (lex : ArgvLexer) (positionalIdx : Nat) :
    Except Stop (Options × ArgvLexer × Nat) :=
  if lex.opt_ = [] then
    match self.positional_[positionalIdx]? with
    | none => .error (.runtimeError ("unexpected argument: ".toList ++ lex.arg))
    | some data => do
        let (options, rest) ← self.visitData (.positional positionalIdx) data lex
        .ok (options, rest, positionalIdx + 1)
  else
    match self.opts_.lookup lex.opt_ with
    | none => .error (.runtimeError ("unknown option: ".toList ++ lex.opt_))
    | some index =>
        match self.help_[index]? with
        -- a name in the map has its datum
        | none => .error (.runtimeError ("unknown option: ".toList ++ lex.opt_))
        | some datum => do
            let (options, rest) ← self.visitData (.option index) datum.data lex
            .ok (options, rest, positionalIdx)

/-- A switch takes no value, and is set. -/
theorem visitData_switch {self options : Options} {slot : Slot} {flag : Bool}
    {lex rest : ArgvLexer}
    (visited : self.visitData slot (.switch flag) lex = .ok (options, rest)) :
    lex.popSwitch = (rest, .ok ()) ∧ options = self.setAt slot (.switch true) := by
  simp only [visitData] at visited
  split at visited
  · cases visited
  · rename_i popped
    cases visited
    exact ⟨popped, rfl⟩

/-- A value takes the next value of the lexer. -/
theorem visitData_value {self options : Options} {slot : Slot} {value : Value}
    {lex rest : ArgvLexer}
    (visited : self.visitData slot (.value value) lex = .ok (options, rest)) :
    ∃ val, lex.popValue = (rest, .ok val) ∧ (value.multitoken ∨ value.set = false) ∧
      options = self.setAt slot (.value (value.run val)) := by
  simp only [visitData] at visited
  split at visited
  · cases visited
  · rename_i val popped
    split at visited
    · cases visited
    · rename_i free
      cases visited
      refine ⟨val, popped, ?_, rfl⟩
      cases set : value.set with
      | false => exact .inr rfl
      | true => exact .inl (by simpa [set] using free)

theorem visitData_help (self : Options) (slot : Slot) (lex : ArgvLexer)
    (result : Options × ArgvLexer) : self.visitData slot .help lex ≠ .ok result := by
  simp only [visitData]
  split <;> simp

/-- Only what asks for help ends the program. -/
theorem visitData_error {self : Options} {slot : Slot} {data : Data} {lex : ArgvLexer}
    {stop : Stop} (noHelp : data ≠ .help) (failed : self.visitData slot data lex = .error stop) :
    ∃ what, stop = .runtimeError what := by
  cases data with
  | help => exact absurd rfl noHelp
  | switch flag =>
      simp only [visitData] at failed
      split at failed
      · cases failed
        exact ⟨_, rfl⟩
      · cases failed
  | value value =>
      simp only [visitData] at failed
      split at failed
      · cases failed
        exact ⟨_, rfl⟩
      · split at failed
        · cases failed
          exact ⟨_, rfl⟩
        · cases failed
  | noOp => cases failed

/-- A datum takes an element at least. -/
theorem visitData_shorter {self options : Options} {slot : Slot} {data : Data}
    {lex rest : ArgvLexer} (nonempty : lex.it_ ≠ [])
    (visited : self.visitData slot data lex = .ok (options, rest)) :
    rest.it_.length < lex.it_.length := by
  cases data with
  | help => exact absurd visited (self.visitData_help slot lex _)
  | switch flag => exact ArgvLexer.popSwitch_shorter nonempty (visitData_switch visited).1
  | value value =>
      obtain ⟨val, popped, -⟩ := visitData_value visited
      exact ArgvLexer.popValue_shorter nonempty popped
  | noOp =>
      cases visited
      exact ArgvLexer.pop_shorter nonempty

/-- What is visited in a round, and where. -/
theorem parseStep_ok {self options : Options} {lex rest : ArgvLexer}
    {positionalIdx nextIdx : Nat}
    (stepped : self.parseStep lex positionalIdx = .ok (options, rest, nextIdx)) :
    ∃ slot data, self.dataAt slot = some data ∧
      self.visitData slot data lex = .ok (options, rest) ∧
      ((lex.opt_ = [] ∧ slot = .positional positionalIdx ∧ nextIdx = positionalIdx + 1) ∨
        (lex.opt_ ≠ [] ∧ nextIdx = positionalIdx ∧
          ∃ index, slot = .option index ∧ self.opts_.lookup lex.opt_ = some index)) := by
  unfold parseStep at stepped
  split at stepped
  · rename_i positional
    split at stepped
    · cases stepped
    · rename_i data found
      cases visited : self.visitData (.positional positionalIdx) data lex with
      | error stop =>
          rw [visited] at stepped
          cases stepped
      | ok result =>
          rw [visited] at stepped
          cases stepped
          exact ⟨.positional positionalIdx, data, found, visited, .inl ⟨positional, rfl, rfl⟩⟩
  · rename_i option
    split at stepped
    · cases stepped
    · rename_i index known
      split at stepped
      · cases stepped
      · rename_i datum found
        cases visited : self.visitData (.option index) datum.data lex with
        | error stop =>
            rw [visited] at stepped
            cases stepped
        | ok result =>
            rw [visited] at stepped
            cases stepped
            refine ⟨_, datum.data, ?_, visited, .inr ⟨option, rfl, index, rfl, known⟩⟩
            simp [dataAt, found]

/-- An element without a name goes to the next positional. -/
theorem parseStep_of_positional {self options : Options} {lex rest : ArgvLexer} {idx : Nat}
    {data : Data} (noName : lex.opt_ = [])
    (found : self.dataAt (.positional idx) = some data)
    (visited : self.visitData (.positional idx) data lex = .ok (options, rest)) :
    self.parseStep lex idx = .ok (options, rest, idx + 1) := by
  have found : self.positional_[idx]? = some data := found
  simp only [parseStep, noName, if_true, found, visited]
  rfl

/-- A name goes to its option. -/
theorem parseStep_of_option {self options : Options} {lex rest : ArgvLexer} {index : Nat}
    {data : Data} (name : lex.opt_ ≠ []) (known : self.opts_.lookup lex.opt_ = some index)
    (found : self.dataAt (.option index) = some data)
    (visited : self.visitData (.option index) data lex = .ok (options, rest)) (idx : Nat) :
    self.parseStep lex idx = .ok (options, rest, idx) := by
  obtain ⟨datum, foundDatum, rfl⟩ := Option.map_eq_some_iff.mp found
  simp only [parseStep, name, if_false, known, foundDatum, visited]
  rfl

/-- Without a help option a step fails with a message only. -/
theorem parseStep_error {self : Options} {lex : ArgvLexer} {idx : Nat} {stop : Stop}
    (noHelp : ∀ slot, self.dataAt slot ≠ some .help)
    (failed : self.parseStep lex idx = .error stop) : ∃ what, stop = .runtimeError what := by
  unfold parseStep at failed
  split at failed
  · split at failed
    · cases failed
      exact ⟨_, rfl⟩
    · rename_i data found
      cases visited : self.visitData (.positional idx) data lex with
      | error other =>
          rw [visited] at failed
          cases failed
          refine visitData_error ?_ visited
          rintro rfl
          exact noHelp (.positional idx) found
      | ok result =>
          rw [visited] at failed
          cases failed
  · split at failed
    · cases failed
      exact ⟨_, rfl⟩
    · rename_i index known
      split at failed
      · cases failed
        exact ⟨_, rfl⟩
      · rename_i datum found
        cases visited : self.visitData (.option index) datum.data lex with
        | error other =>
            rw [visited] at failed
            cases failed
            refine visitData_error (fun help => noHelp (.option index) ?_) visited
            simp [dataAt, found, help]
        | ok result =>
            rw [visited] at failed
            cases failed

/-- A step takes an element at least. -/
theorem parseStep_shorter {self options : Options} {lex rest : ArgvLexer}
    {positionalIdx nextIdx : Nat} (nonempty : lex.it_ ≠ [])
    (stepped : self.parseStep lex positionalIdx = .ok (options, rest, nextIdx)) :
    rest.it_.length < lex.it_.length := by
  obtain ⟨slot, data, -, visited, -⟩ := parseStep_ok stepped
  exact visitData_shorter nonempty visited

/-- The loop of `parse`. -/
def parseLoop (self : Options) (lex : ArgvLexer) (positionalIdx : Nat) : Except Stop Options :=
  if _nonempty : lex.it_ ≠ [] then
    match _stepped : self.parseStep lex positionalIdx with
    | .error stop => .error stop
    | .ok (options, rest, nextIdx) => parseLoop options rest nextIdx
  else .ok self
termination_by lex.it_.length
decreasing_by exact parseStep_shorter ‹_› ‹_›

theorem parseLoop_end {lex : ArgvLexer} (ended : lex.it_ = []) (self : Options) (idx : Nat) :
    self.parseLoop lex idx = .ok self := by
  rw [parseLoop, dif_neg (not_not_intro ended)]

theorem parseLoop_stop {self : Options} {lex : ArgvLexer} {idx : Nat} {stop : Stop}
    (nonempty : lex.it_ ≠ []) (stepped : self.parseStep lex idx = .error stop) :
    self.parseLoop lex idx = .error stop := by
  rw [parseLoop, dif_pos nonempty]
  split
  · rename_i other failed
    rw [stepped] at failed
    cases failed
    rfl
  · rename_i returned
    rw [stepped] at returned
    cases returned

theorem parseLoop_step {self options : Options} {lex rest : ArgvLexer} {idx next : Nat}
    (nonempty : lex.it_ ≠ []) (stepped : self.parseStep lex idx = .ok (options, rest, next)) :
    self.parseLoop lex idx = options.parseLoop rest next := by
  rw [parseLoop, dif_pos nonempty]
  split
  · rename_i failed
    rw [stepped] at failed
    cases failed
  · rename_i returned
    rw [stepped] at returned
    cases returned
    rfl

/-- That a required value has been set. -/
def checkData (data : Data) (what : Text) : Except Stop Unit :=
  match data with
  | .value value =>
      if value.required ∧ ¬ value.set then .error (.runtimeError what) else .ok ()
  | .help | .noOp | .switch _ => .ok ()

/-- The first of the two loops that look for what is missing. -/
def checkOpts (self : Options) : Except Stop Unit :=
  forM self.opts_ fun entry =>
    match self.help_[entry.2]? with
    | some datum => checkData datum.data ("missing required option: ".toList ++ datum.opt)
    | none => .ok ()

/-- The second of the two loops that look for what is missing. -/
def checkPositional (self : Options) : Except Stop Unit :=
  forM self.positional_ fun data => checkData data "missing positional argument".toList

/-- `parse`; the first element is the name of the program. -/
def parse (self : Options) (argv : List Text) : Except Stop Options := do
  let parsed ← self.parseLoop (ArgvLexer.create argv.tail) 0
  parsed.checkOpts
  parsed.checkPositional
  .ok parsed

end Options

end ReactiveToolbox.Util
