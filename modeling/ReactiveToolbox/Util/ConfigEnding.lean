import ReactiveToolbox.Util.ConfigSections

/-!
# Configurations that are read to the end

`MultiConfig::read` goes on until the stream is at its end, and not until it fails.  It
ends if there is an end to come to, and if every value on the way has one.
-/

namespace ReactiveToolbox.Util

open ReactiveToolbox.Lib
open VarSub (Scan)

universe u

/-! ## Streams that fail -/

/-- A stream that is not at its end and will fail before it is. -/
def IStream.Stuck (self : IStream) : Prop :=
  self.eofbit = false ∧ (self.broken = true ∨ self.good = false)

section Failing

variable {State : Type u} {fn : State → Text → Text → Option State}

theorem IStream.Stuck.getline {self after : IStream} {line : Option Text} (stuck : self.Stuck)
    (read : self.getline = (after, line)) : after.Stuck := by
  obtain ⟨going, fails⟩ := stuck
  unfold IStream.getline at read
  split at read
  · rename_i ready
    have broken : self.broken = true :=
      fails.resolve_right fun other => Bool.false_ne_true (other.symm.trans ready)
    split at read
    · obtain ⟨rfl, -⟩ := Prod.mk.inj read
      exact ⟨going, .inl broken⟩
    · obtain ⟨rfl, -⟩ := Prod.mk.inj read
      exact ⟨by rw [broken]; rfl, .inl broken⟩
  · obtain ⟨rfl, -⟩ := Prod.mk.inj read
    refine ⟨going, .inr ?_⟩
    simp [good]

/-- Whatever a section reads, it leaves the stream where it was. -/
theorem IStream.Stuck.parseSection {state result : State} {is after : IStream} {next : Text}
    (stuck : is.Stuck) (parsed : parseSection fn state is = some (result, after, next)) :
    after.Stuck :=
  parseSection_invariant (fun _ is => is.Stuck) (fun stuck read => stuck.getline read)
    (fun stuck _ => stuck) stuck parsed

end Failing

variable {fn : Text → Text} {rounds : Nat} {this : ConfigAddress}

/-- No number of sections brings the loop to an end. -/
theorem IStream.Stuck.readSections {self : MultiConfig.Reading} (stuck : self.is.Stuck)
    (sections : Nat) : MultiConfig.readSections fn rounds this sections self = none := by
  induction sections generalizing self with
  | zero => rfl
  | succ sections continued =>
      rw [MultiConfig.readSections, IStream.eof, stuck.1, if_neg Bool.false_ne_true,
        Option.bind_eq_none_iff]
      intro next once
      obtain ⟨⟨config, after, name⟩, parsed, rfl⟩ := Option.map_eq_some_iff.mp once
      exact continued (stuck.parseSection parsed)

theorem IStream.Stuck.read {is : IStream} (stuck : is.Stuck) (self : MultiConfig) :
    MultiConfig.read fn rounds this self is = none := by
  rw [MultiConfig.read, Option.bind_eq_none_iff]
  rintro ⟨root, after, next⟩ parsed
  have still : after.Stuck := stuck.parseSection parsed
  refine IStream.Stuck.readSections ?_ rounds
  exact still

/-! ## Values that have an end -/

/-- The substitution of a value ends. -/
def ValueEnds (fn : Text → Text) (val : Text) : Prop :=
  ∃ final, Ends (Scan.step fn) (.start val) final

/-- The values that are assigned in a text. -/
def EveryValue (holds : Text → Prop) (text : Text) : Prop :=
  ∀ key val, .assignment key val ∈ configLines text → holds val

theorem valueEnds_of_varSub {val result : Text} (ended : Config.varSub fn rounds val = some result) :
    ValueEnds fn val := by
  obtain ⟨final, ran, -⟩ := Option.map_eq_some_iff.mp ended
  exact ⟨final, .of_runFor ran⟩

/-- So many rounds are enough for every value of some lines. -/
theorem exists_rounds (fn : Text → Text) (lines : List ConfigLine)
    (ends : ∀ key val, .assignment key val ∈ lines → ValueEnds fn val) :
    ∃ rounds, ∀ more, rounds ≤ more → ∀ key val, .assignment key val ∈ lines →
      (Config.varSub fn more val).isSome = true := by
  induction lines with
  | nil => exact ⟨0, fun _ _ _ _ member => nomatch member⟩
  | cons line lines continued =>
      obtain ⟨rounds, enough⟩ := continued fun key val member =>
        ends key val (List.mem_cons_of_mem line member)
      cases line with
      | header name =>
          refine ⟨rounds, fun more within key val member => ?_⟩
          rcases List.mem_cons.mp member with same | later
          · cases same
          · exact enough more within key val later
      | assignment first value =>
          obtain ⟨final, ended⟩ := ends first value List.mem_cons_self
          obtain ⟨steps, ran⟩ := ended.runFor_eq
          refine ⟨max steps rounds, fun more within key val member => ?_⟩
          rcases List.mem_cons.mp member with same | later
          · obtain ⟨-, rfl⟩ := ConfigLine.assignment.inj same
            rw [Config.varSub, ran more ((Nat.le_max_left _ _).trans within)]
            rfl
          · exact enough more ((Nat.le_max_right _ _).trans within) key val later

/-! ## What has been read -/

/-- What a section that is read has taken of a text, and what is left then. -/
inductive Takes {State : Type u} (fn : State → Text → Text → Option State) (text : Text) :
    IStream → Prop where
  | ended {after : IStream} (eof : after.eof = true)
      (taken : ∀ key val, .assignment key val ∈ configLines text →
        ∃ state next, fn state key val = some next) : Takes fn text after
  | more (later : Text)
      (taken : ∀ key val, .assignment key val ∈ configLines text →
        (∃ state next, fn state key val = some next) ∨
          .assignment key val ∈ configLines later) : Takes fn text (.ofText later)

theorem Takes.behind {State : Type u} {fn : State → Text → Text → Option State}
    {text rest : Text} {after : IStream} (takes : Takes fn rest after)
    (front : ∀ key val, .assignment key val ∈ configLines text →
      (∃ state next, fn state key val = some next) ∨ .assignment key val ∈ configLines rest) :
    Takes fn text after := by
  cases takes with
  | ended eof taken =>
      exact .ended eof fun key val member => (front key val member).elim id (taken key val)
  | more later taken =>
      exact .more later fun key val member => (front key val member).elim .inl (taken key val)

theorem parseSection_takes {State : Type u} {fn : State → Text → Text → Option State}
    {state result : State} (text : Text) {after : IStream} {next : Text}
    (parsed : parseSection fn state (.ofText text) = some (result, after, next)) :
    Takes fn text after := by
  induction text using lines_induction generalizing state with
  | last line whole =>
      have lines := configLines_last line whole
      by_cases none_left : line = []
      · subst none_left
        rw [parseSection_failed rfl] at parsed
        cases parsed
        exact .ended rfl fun key val member => nomatch (lines ▸ member)
      · rw [parseSection_line (getline_last line whole none_left)] at parsed
        cases found : classify line with
        | none =>
            rw [found, parseSection_failed rfl] at parsed
            rw [found] at lines
            cases parsed
            exact .ended rfl fun key val member => nomatch (lines ▸ member)
        | some counted =>
            rw [found] at parsed lines
            cases counted with
            | header name =>
                cases parsed
                refine .ended rfl fun key val member => ?_
                rw [lines] at member
                cases List.mem_singleton.mp member
            | assignment key val =>
                obtain ⟨taken, taken_eq, parsed⟩ := Option.bind_eq_some_iff.mp parsed
                rw [parseSection_failed rfl] at parsed
                cases parsed
                refine .ended rfl fun other value member => ?_
                rw [lines] at member
                obtain ⟨rfl, rfl⟩ := ConfigLine.assignment.inj (List.mem_singleton.mp member)
                exact ⟨state, _, taken_eq⟩
  | cons line rest whole continued =>
      have lines := configLines_cons line rest whole
      rw [parseSection_line (getline_cons line rest whole)] at parsed
      cases found : classify line with
      | none =>
          rw [found] at parsed lines
          refine (continued parsed).behind fun key val member => .inr ?_
          rw [lines] at member
          exact member
      | some counted =>
          rw [found] at parsed lines
          cases counted with
          | header name =>
              cases parsed
              refine .more rest fun key val member => ?_
              rw [lines] at member
              rcases List.mem_cons.mp member with same | later
              · cases same
              · exact .inr later
          | assignment key val =>
              obtain ⟨taken, taken_eq, parsed⟩ := Option.bind_eq_some_iff.mp parsed
              refine (continued parsed).behind fun other value member => ?_
              rw [lines] at member
              rcases List.mem_cons.mp member with same | later
              · obtain ⟨rfl, rfl⟩ := ConfigLine.assignment.inj same
                exact .inl ⟨state, taken, taken_eq⟩
              · exact .inr later

theorem valueEnds_of_assign {val : Text}
    (taken : ∃ config next, ∃ key, Config.assign fn rounds config key val = some next) :
    ValueEnds fn val := by
  obtain ⟨config, next, key, assigned⟩ := taken
  obtain ⟨result, ended, -⟩ := Option.map_eq_some_iff.mp assigned
  exact valueEnds_of_varSub ended

/-- Where what is left of a text has values that end, all of its values do. -/
theorem Takes.everyValue {text : Text} {is : IStream}
    (takes : Takes (Config.assign fn rounds) text is)
    (left : ∀ later, is = .ofText later → EveryValue (ValueEnds fn) later) :
    EveryValue (ValueEnds fn) text := by
  intro key val member
  cases takes with
  | ended eof taken =>
      obtain ⟨config, next, assigned⟩ := taken key val member
      exact valueEnds_of_assign ⟨config, next, key, assigned⟩
  | more later taken =>
      rcases taken key val member with ⟨config, next, assigned⟩ | still
      · exact valueEnds_of_assign ⟨config, next, key, assigned⟩
      · exact left later rfl key val still

theorem everyValue_of_readSections {sections : Nat} {text : Text} {config : MultiConfig}
    {next : Text} {final : MultiConfig.Reading}
    (read : MultiConfig.readSections fn rounds this sections
      { config, is := .ofText text, next } = some final) :
    EveryValue (ValueEnds fn) text := by
  induction sections generalizing text config next with
  | zero => cases read
  | succ sections continued =>
      have going : (IStream.ofText text).eof = false := rfl
      rw [MultiConfig.readSections, going, if_neg Bool.false_ne_true] at read
      obtain ⟨after, once, read⟩ := Option.bind_eq_some_iff.mp read
      obtain ⟨⟨own, is, name⟩, parsed, rfl⟩ := Option.map_eq_some_iff.mp once
      refine (parseSection_takes text parsed).everyValue fun later is_eq => ?_
      subst is_eq
      exact continued read

theorem everyValue_of_read {text : Text} {self : MultiConfig} {final : MultiConfig.Reading}
    (read : MultiConfig.read fn rounds this self (.ofText text) = some final) :
    EveryValue (ValueEnds fn) text := by
  obtain ⟨⟨root, is, name⟩, parsed, read⟩ := Option.bind_eq_some_iff.mp read
  refine (parseSection_takes text parsed).everyValue fun later is_eq => ?_
  subst is_eq
  exact everyValue_of_readSections read

/-! ## What can be read -/

/-- The values of a text end within so many rounds. -/
def Within (fn : Text → Text) (rounds : Nat) (text : Text) : Prop :=
  EveryValue (fun val => (Config.varSub fn rounds val).isSome = true) text

theorem Within.readSection {text : Text} (within : Within fn rounds text) (config : Config) :
    ∃ read after next, config.readSection fn rounds (.ofText text) = some (read, after, next) ∧
      Leaves text after next := by
  have assigns : ∀ (config : Config) key val, .assignment key val ∈ configLines text →
      Config.assign fn rounds config key val =
        some { config with
          map_ := emplace config.map_ key ((Config.varSub fn rounds val).getD []) } := by
    intro config key val member
    obtain ⟨result, ended⟩ := Option.isSome_iff_exists.mp (within key val member)
    rw [Config.assign, ended]
    rfl
  obtain ⟨after, next, parsed, left⟩ := parseSection_text text assigns config
  exact ⟨_, after, next, parsed, left⟩

theorem Within.readSections {text : Text} (within : Within fn rounds text) {sections : Nat}
    (more : text.length + 1 < sections) (config : MultiConfig) (next : Text) :
    ∃ final, MultiConfig.readSections fn rounds this sections
      { config, is := .ofText text, next } = some final := by
  induction sections generalizing text config next with
  | zero => cases more
  | succ sections continued =>
      obtain ⟨own, after, following, section_read, left⟩ :=
        within.readSection (Config.empty.setParent this)
      have going : (IStream.ofText text).eof = false := rfl
      have once : MultiConfig.readNext fn rounds this { config, is := .ofText text, next } =
          some { config := { config with map_ := emplace config.map_ next own }
                 is := after
                 next := following } := by
        rw [MultiConfig.readNext, section_read]
        rfl
      rw [MultiConfig.readSections, going, if_neg Bool.false_ne_true, once, Option.bind_some]
      have some_left : 0 < sections := by omega
      cases left with
      | ended eof => exact ⟨_, readSections_ended fn rounds this eof some_left⟩
      | header eof => exact ⟨_, readSections_ended fn rounds this eof some_left⟩
      | more later fewer _ lines =>
          exact continued (fun key val member => within key val (lines _ member)) (by omega) _ _

theorem Within.read {text : Text} (within : Within fn rounds text)
    (more : text.length + 1 < rounds) (self : MultiConfig) :
    ∃ final, MultiConfig.read fn rounds this self (.ofText text) = some final := by
  obtain ⟨root, after, next, root_read, left⟩ := within.readSection self.root_
  rw [MultiConfig.read, root_read, Option.bind_some]
  have some_left : 0 < rounds := Nat.zero_lt_of_lt more
  cases left with
  | ended eof => exact ⟨_, readSections_ended fn rounds this eof some_left⟩
  | header eof => exact ⟨_, readSections_ended fn rounds this eof some_left⟩
  | more later fewer _ lines =>
      exact Within.readSections (fun key val member => within key val (lines _ member)) (by omega)
        _ _

/-! ## When it ends -/

/-- A call of `read` ends. -/
def ReadEnds (fn : Text → Text) (this : ConfigAddress) (self : MultiConfig) (is : IStream) : Prop :=
  ∃ rounds final, MultiConfig.read fn rounds this self is = some final

theorem readEnds_of_eof (fn : Text → Text) (this : ConfigAddress) (self : MultiConfig)
    {is : IStream} (eof : is.eofbit = true) : ReadEnds fn this self is := by
  have unready : ¬is.good = true := by
    simp [IStream.good, eof]
  have line : is.getline = ({ is with failbit := true }, none) := if_neg unready
  refine ⟨1, { config := self, is := { is with failbit := true }, next := [] }, ?_⟩
  rw [MultiConfig.read, Config.readSection, parseSection_failed line, Option.bind_some]
  exact readSections_ended fn 1 this eof Nat.one_pos

theorem ofText_rest {is : IStream} (ready : is.good = true) (whole : is.broken = false) :
    is = .ofText is.rest := by
  obtain ⟨rest, broken, eofbit, failbit, badbit⟩ := is
  rw [IStream.good, Bool.and_eq_true, Bool.and_eq_true, Bool.not_eq_true', Bool.not_eq_true',
    Bool.not_eq_true'] at ready
  obtain ⟨⟨rfl, rfl⟩, rfl⟩ := ready
  obtain rfl := whole
  rfl

/--
`read` ends if and only if the stream is at its end already, or it will come to it
without failing and every value that is assigned on the way has an end.
-/
theorem readEnds_iff (fn : Text → Text) (this : ConfigAddress) (self : MultiConfig)
    (is : IStream) :
    ReadEnds fn this self is ↔
      is.eofbit = true ∨
        is.good = true ∧ is.broken = false ∧ EveryValue (ValueEnds fn) is.rest := by
  constructor
  · rintro ⟨rounds, final, read⟩
    by_cases eof : is.eofbit = true
    · exact .inl eof
    · have unstuck : ¬is.Stuck := fun stuck => by
        rw [stuck.read self] at read
        cases read
      rw [IStream.Stuck, not_and_or, not_or, Bool.not_eq_false, Bool.not_eq_true,
        Bool.not_eq_false] at unstuck
      obtain ⟨whole, ready⟩ := unstuck.resolve_left eof
      rw [ofText_rest ready whole] at read
      exact .inr ⟨ready, whole, everyValue_of_read read⟩
  · rintro (eof | ⟨ready, whole, ends⟩)
    · exact readEnds_of_eof fn this self eof
    · obtain ⟨rounds, enough⟩ := exists_rounds fn (configLines is.rest) ends
      have within : Within fn (max rounds (is.rest.length + 2)) is.rest :=
        enough _ (Nat.le_max_left _ _)
      rw [ofText_rest ready whole]
      exact ⟨_, within.read (Nat.le_max_right _ _) self⟩

/-- A file that could not be opened. -/
def unopened : IStream :=
  { rest := [], broken := false, eofbit := false, failbit := true, badbit := false }

theorem not_readEnds_unopened : ¬ReadEnds id 0 .empty unopened := by
  rintro ⟨rounds, final, read⟩
  have stuck : unopened.Stuck := ⟨rfl, .inr rfl⟩
  rw [stuck.read] at read
  cases read

end ReactiveToolbox.Util
