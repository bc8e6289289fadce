import Mathlib.Data.Fintype.EquivFin
import Mathlib.Logic.Function.Basic
import ReactiveToolbox.Util.ConfigSections

/-!
# Moved configurations

A section keeps the address of the root that it has been read under.  The moves of
`MultiConfig` are the default ones, which copy that address, so that the sections of
the new object still point into the old one.
-/

namespace ReactiveToolbox.Util

open Function (update)

/-! ## Moves -/

/-- A `Config` from which another has been made: its map is taken, its parent copied. -/
def Config.moved (self : Config) : Config :=
  { self with map_ := [] }

/-- What a move leaves behind. -/
def MultiConfig.moved (self : MultiConfig) : MultiConfig :=
  { root_ := self.root_.moved, map_ := [] }

/-- The objects that are alive. -/
abbrev Objects := ConfigAddress → Option MultiConfig

/-- What is done to an object or to another one. -/
inductive ObjectAction where
  /-- `MultiConfig(MultiConfig&&)` at an address where no object is. -/
  | construct (address : ConfigAddress)
  /-- `operator=(MultiConfig&&)` of another object. -/
  | assign (address : ConfigAddress)
  /-- The end of another object. -/
  | destroy (address : ConfigAddress)
  deriving DecidableEq

/-- The object at a place, among others. -/
structure Carried where
  objects : Objects
  place : ConfigAddress

namespace Carried

/-- The object takes the place of another address. -/
def carry (self : Carried) (address : ConfigAddress) : Option Carried :=
  (self.objects self.place).map fun config =>
    { objects := update (update self.objects self.place (some config.moved)) address (some config)
      place := address }

/-- The object is constructed, assigned or destroyed. -/
def step (self : Carried) : ObjectAction → Option Carried
  | .construct address =>
      if self.objects address = none then self.carry address else none
  | .assign address =>
      if (self.objects address).isSome ∧ address ≠ self.place then self.carry address else none
  | .destroy address =>
      if address ≠ self.place then
        some { self with objects := update self.objects address none }
      else none

/-- Some actions, one after another. -/
def run (self : Carried) (actions : List ObjectAction) : Option Carried :=
  actions.foldlM step self

/-- `section(name).get(key)`. -/
def get (self : Carried) (name key : Text) (depth : Nat) : Option (Except ConfigError Text) :=
  (self.objects self.place).bind fun config =>
    (config.sectionNamed name).get (fun address => (self.objects address).map (·.root_)) key depth

/-- `section(name).get(key, dfl)`. -/
def getOr (self : Carried) (name key : Text) (dfl : Option Text) (depth : Nat) :
    Option (Option Text) :=
  (self.objects self.place).bind fun config =>
    (config.sectionNamed name).getOr (fun address => (self.objects address).map (·.root_)) key dfl
      depth

end Carried

/-- What `read` makes of an object at an address, once or more often. -/
inductive Filled (this : ConfigAddress) : MultiConfig → Prop where
  | empty : Filled this .empty
  | read {config : MultiConfig} {fn : Text → Text} {rounds : Nat} {is : IStream}
      {final : MultiConfig.Reading} : Filled this config →
      config.read fn rounds this is = some final → Filled this final.config

/--
The object answers as one did before, and would do so with no matter what in place of all
others.
-/
structure Answers (before after : Carried) : Prop where
  get : ∀ objects : Objects, objects after.place = after.objects after.place →
    ∀ name key depth, Carried.get { after with objects } name key depth = before.get name key depth
  getOr : ∀ objects : Objects, objects after.place = after.objects after.place →
    ∀ name key dfl depth,
      Carried.getOr { after with objects } name key dfl depth = before.getOr name key dfl depth

/-! ## What is carried -/

namespace Carried

variable {self next : Carried} {config : MultiConfig}

theorem carry_keeps {address : ConfigAddress} (held : self.objects self.place = some config)
    (moved : self.carry address = some next) : next.objects next.place = some config := by
  rw [carry, held] at moved
  obtain rfl := Option.some.inj moved
  exact Function.update_self _ _ _

theorem step_keeps {action : ObjectAction} (held : self.objects self.place = some config)
    (moved : self.step action = some next) : next.objects next.place = some config := by
  cases action with
  | construct address =>
      rw [step, Option.ite_none_right_eq_some] at moved
      exact carry_keeps held moved.2
  | assign address =>
      rw [step, Option.ite_none_right_eq_some] at moved
      exact carry_keeps held moved.2
  | destroy address =>
      rw [step, Option.ite_none_right_eq_some] at moved
      obtain ⟨other, rfl⟩ := moved.imp_right Option.some.inj
      exact (Function.update_of_ne other.symm _ _).trans held

/-- The object stays as it is, whereto it is carried. -/
theorem run_keeps {actions : List ObjectAction} (held : self.objects self.place = some config)
    (ran : self.run actions = some next) : next.objects next.place = some config := by
  induction actions generalizing self with
  | nil =>
      obtain rfl := Option.some.inj ran
      exact held
  | cons action actions continued =>
      obtain ⟨after, moved, ran⟩ := Option.bind_eq_some_iff.mp ran
      exact continued (step_keeps held moved) ran

end Carried

/-! ## What has been read -/

theorem mem_emplace {Value : Type*} {map : List (Text × Value)} {key : Text} {value : Value}
    {entry : Text × Value} (member : entry ∈ emplace map key value) :
    entry ∈ map ∨ entry = (key, value) := by
  unfold emplace at member
  split at member
  · exact .inl member
  · exact (List.mem_append.mp member).imp_right List.mem_singleton.mp

/-- The root has no parent, and every section has that at an address. -/
structure Rooted (this : ConfigAddress) (config : MultiConfig) : Prop where
  root : config.root_.parent_ = none
  sections : ∀ entry ∈ config.map_, entry.2.parent_ = some this

section Reading

variable {fn : Text → Text} {rounds : Nat} {this : ConfigAddress}

theorem parent_readSection {config result : Config} {is after : IStream} {next : Text}
    (read : config.readSection fn rounds is = some (result, after, next)) :
    result.parent_ = config.parent_ := by
  refine parseSection_invariant (fun now _ => now.parent_ = config.parent_) ?_ ?_ rfl read
  · intro now is after line same _
    exact same
  · intro now is key val next same assigned
    obtain ⟨val, -, rfl⟩ := Option.map_eq_some_iff.mp assigned
    exact same

theorem Rooted.readSections {sections : Nat} {self final : MultiConfig.Reading}
    (rooted : Rooted this self.config)
    (read : MultiConfig.readSections fn rounds this sections self = some final) :
    Rooted this final.config := by
  induction sections generalizing self with
  | zero => cases read
  | succ sections continued =>
      rw [MultiConfig.readSections] at read
      split at read
      · obtain rfl := Option.some.inj read
        exact rooted
      · obtain ⟨later, once, read⟩ := Option.bind_eq_some_iff.mp read
        obtain ⟨⟨own, is, name⟩, own_read, rfl⟩ := Option.map_eq_some_iff.mp once
        refine continued ?_ read
        refine ⟨rooted.root, fun entry member => ?_⟩
        rcases mem_emplace member with old | rfl
        · exact rooted.sections entry old
        · exact parent_readSection own_read

theorem Filled.rooted {config : MultiConfig} (filled : Filled this config) :
    Rooted this config := by
  induction filled with
  | empty => exact ⟨rfl, fun _ member => nomatch member⟩
  | read _ read rooted =>
      obtain ⟨⟨root, is, name⟩, root_read, read⟩ := Option.bind_eq_some_iff.mp read
      refine Rooted.readSections ⟨?_, rooted.sections⟩ read
      exact (parent_readSection root_read).trans rooted.root

end Reading

/-! ## What is answered -/

section Answering

variable {memory other : ConfigAddress → Option Config} {this : ConfigAddress} {config root : Config}

theorem get_root (parent : config.parent_ = none) (key : Text) (depth : Nat) :
    config.get memory key depth = config.get other key depth := by
  unfold Config.get
  rw [parent]

theorem getOr_root (parent : config.parent_ = none) (key : Text) (dfl : Option Text) (depth : Nat) :
    config.getOr memory key dfl depth = config.getOr other key dfl depth := by
  unfold Config.getOr
  rw [parent]

/-- A key that is not there is asked of the parent. -/
theorem get_parent (parent : config.parent_ = some this) {key : Text}
    (absent : config.map_.lookup key = none) (depth : Nat) :
    config.get memory key (depth + 1) = (memory this).bind (Config.get memory key depth) := by
  rw [Config.get.eq_def]
  dsimp only
  rw [absent, parent]

/-- Only what is at the address of the parent matters. -/
theorem get_section (parent : config.parent_ = some this) (here : memory this = some root)
    (otherHere : other this = some root) (rootParent : root.parent_ = none) (key : Text)
    (depth : Nat) : config.get memory key depth = config.get other key depth := by
  unfold Config.get
  rw [parent]
  cases config.map_.lookup key with
  | some value => rfl
  | none =>
      cases depth with
      | zero => rfl
      | succ depth =>
          dsimp only
          rw [here, otherHere, Option.bind_some, Option.bind_some]
          exact get_root rootParent key depth

theorem getOr_section (parent : config.parent_ = some this) (here : memory this = some root)
    (otherHere : other this = some root) (rootParent : root.parent_ = none) (key : Text)
    (dfl : Option Text) (depth : Nat) :
    config.getOr memory key dfl depth = config.getOr other key dfl depth := by
  unfold Config.getOr
  rw [parent]
  cases config.map_.lookup key with
  | some value => rfl
  | none =>
      cases depth with
      | zero => rfl
      | succ depth =>
          dsimp only
          rw [here, otherHere, Option.bind_some, Option.bind_some]
          exact getOr_root rootParent key dfl depth

end Answering

theorem sectionNamed_cases (config : MultiConfig) (name : Text) :
    config.sectionNamed name = config.root_ ∨
      ∃ entry ∈ config.map_, config.sectionNamed name = entry.2 := by
  unfold MultiConfig.sectionNamed
  cases found : config.map_.lookup name with
  | none => exact .inl rfl
  | some own =>
      obtain ⟨before, after, map_eq, -⟩ := List.lookup_eq_some_iff.mp found
      exact .inr ⟨(name, own), map_eq ▸ List.mem_append_right _ List.mem_cons_self, rfl⟩

/-- A key that is not in a map. -/
theorem exists_absent (map : List (Text × Text)) : ∃ key, map.lookup key = none := by
  obtain ⟨key, absent⟩ := Infinite.exists_notMem_finset (map.map Prod.fst).toFinset
  refine ⟨key, List.lookup_eq_none_iff.mpr fun entry member => ?_⟩
  rw [bne_iff_ne]
  rintro rfl
  exact absent (List.mem_toFinset.mpr (List.mem_map_of_mem member))

section Answering

variable {before after : Carried} {config : MultiConfig}

/-- A section without a parent, or with the root of the very object for its parent. -/
theorem parent_cases (rooted : Rooted before.place config)
    (either : config.map_ = [] ∨ after.place = before.place) (name : Text) :
    (config.sectionNamed name).parent_ = none ∨
      (config.sectionNamed name).parent_ = some before.place ∧ after.place = before.place := by
  rcases sectionNamed_cases config name with same | ⟨entry, member, same⟩
  · exact .inl (same ▸ rooted.root)
  · rcases either with no_section | back
    · rw [no_section] at member
      cases member
    · exact .inr ⟨same ▸ rooted.sections entry member, back⟩

theorem answers_of_same (rooted : Rooted before.place config)
    (held : before.objects before.place = some config)
    (carried : after.objects after.place = some config)
    (either : config.map_ = [] ∨ after.place = before.place) : Answers before after := by
  have root_at : ∀ objects : Objects, objects after.place = some config →
      after.place = before.place →
      (objects before.place).map (·.root_) = some config.root_ := by
    intro objects there back
    rw [← back, there]
    rfl
  have root_before : (before.objects before.place).map (·.root_) = some config.root_ := by
    rw [held]
    rfl
  constructor
  · intro objects same name key depth
    have there := same.trans carried
    unfold Carried.get
    dsimp only
    rw [there, held, Option.bind_some, Option.bind_some]
    rcases parent_cases rooted either name with parent | ⟨parent, back⟩
    · exact get_root parent key depth
    · exact get_section parent (root_at objects there back) root_before rooted.root key depth
  · intro objects same name key dfl depth
    have there := same.trans carried
    unfold Carried.getOr
    dsimp only
    rw [there, held, Option.bind_some, Option.bind_some]
    rcases parent_cases rooted either name with parent | ⟨parent, back⟩
    · exact getOr_root parent key dfl depth
    · exact getOr_section parent (root_at objects there back) root_before rooted.root key dfl depth

/--
After any moves the object answers as before, and by itself, if and only if it has no
section or is back where it has been read.
-/
theorem answers_iff (filled : Filled before.place config)
    (held : before.objects before.place = some config) {actions : List ObjectAction}
    (ran : before.run actions = some after) :
    Answers before after ↔ config.map_ = [] ∨ after.place = before.place := by
  have rooted := filled.rooted
  have carried := Carried.run_keeps held ran
  refine ⟨fun answers => ?_, answers_of_same rooted held carried⟩
  by_contra neither
  obtain ⟨some_section, elsewhere⟩ := not_or.mp neither
  obtain ⟨⟨name, own⟩, map, map_eq⟩ := List.exists_cons_of_ne_nil some_section
  obtain ⟨key, absent⟩ := exists_absent own.map_
  have named : config.sectionNamed name = own := by
    rw [MultiConfig.sectionNamed, map_eq, List.lookup_cons_self]
    rfl
  have parent : own.parent_ = some before.place :=
    rooted.sections (name, own) (map_eq ▸ List.mem_cons_self)
  -- the object where it has been read is no more
  let alone : Objects := update after.objects before.place none
  have same := answers.get alone (Function.update_of_ne elsewhere _ _) name key 1
  have lost : Carried.get { after with objects := alone } name key 1 = none := by
    unfold Carried.get
    dsimp only
    have there : alone after.place = some config :=
      (Function.update_of_ne elsewhere _ _).trans carried
    have gone : alone before.place = none := Function.update_self _ _ _
    rw [there, Option.bind_some, named, get_parent parent absent, gone]
    rfl
  have answered : (before.get name key 1).isSome = true := by
    rw [Carried.get, held, Option.bind_some, named, get_parent parent absent, held,
      Option.map_some, Option.bind_some]
    unfold Config.get
    rw [rooted.root]
    cases config.root_.map_.lookup key <;> rfl
  rw [← same, lost] at answered
  cases answered

/-- A root with a key, and a section with another one. -/
def filledConfig : MultiConfig where
  root_ := { map_ := [("a".toList, "1".toList)], parent_ := none }
  map_ := [("s".toList, { map_ := [("b".toList, "2".toList)], parent_ := some 0 })]

theorem filled_filledConfig : Filled 0 filledConfig := by
  have read : MultiConfig.empty.read id 20 0 (.ofText "a=1\n[s]\nb=2".toList) =
      some { config := filledConfig
             is := { IStream.ofText [] with eofbit := true, failbit := true }
             next := [] } := by
    decide +kernel
  exact .read .empty read

/-- It is the only object, and has just been read. -/
def justRead : Carried where
  objects := update (fun _ => none) 0 (some filledConfig)
  place := 0

theorem answers_iff_back :
    ∃ after, justRead.run [.construct 1, .assign 0] = some after ∧ after.place = 0 ∧
      (Answers justRead after ↔ filledConfig.map_ = [] ∨ after.place = justRead.place) := by
  refine ⟨_, rfl, rfl, ?_⟩
  have ran : justRead.run [.construct 1, .assign 0] = some _ := rfl
  exact answers_iff filled_filledConfig rfl ran

/-- The root's key is found in the section before the move, and not behind it. -/
theorem not_answers_moved :
    justRead.get "s".toList "a".toList 2 = some (.ok "1".toList) ∧
      ∃ after, justRead.run [.construct 1] = some after ∧
        after.get "s".toList "a".toList 2 = some (.error (.missingKey "a".toList)) ∧
        ¬Answers justRead after := by
  have found : justRead.get "s".toList "a".toList 2 = some (.ok "1".toList) := rfl
  refine ⟨found, _, rfl, rfl, fun answers => ?_⟩
  have same := answers.get _ rfl "s".toList "a".toList 2
  rw [found] at same
  cases same

end Answering

end ReactiveToolbox.Util
