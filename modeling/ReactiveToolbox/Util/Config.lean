import Mathlib.Data.List.DropRight
import ReactiveToolbox.Util.Argv
import ReactiveToolbox.Util.VarSub

/-!
# Configurations

`parse_section` reads lines from a stream up to a section header or the end, and
`MultiConfig::read` calls it for the root and then for one section after the other, with
the name that the section before has ended in, until the stream is at its end.
-/

namespace ReactiveToolbox.Util

open ReactiveToolbox.Lib
open VarSub (Scan)

universe u

/-! ## Texts -/

/-- `isspace`. -/
def isSpace (ch : Char) : Bool :=
  ch ∈ [' ', '\t', '\n', '\x0b', '\x0c', '\r']

/-- `ltrim`. -/
def ltrim (s : Text) : Text :=
  s.dropWhile isSpace

/-- `rtrim`. -/
def rtrim (s : Text) : Text :=
  s.rdropWhile isSpace

/-- `trim`. -/
def trim (s : Text) : Text :=
  rtrim (ltrim s)

/-- What is in front of the first delimiter and behind it, if there is one. -/
def splitPair (s : Text) (delim : Char) : Text × Text :=
  if delim ∈ s then (s.takeWhile (· ≠ delim), (s.dropWhile (· ≠ delim)).tail) else (s, [])

/-! ## Streams -/

/--
An input stream: the characters that are left, behind which it ends or, where it is
broken, reading fails, and its flags.
-/
structure IStream where
  rest : Text
  broken : Bool
  eofbit : Bool
  failbit : Bool
  badbit : Bool
  deriving DecidableEq

namespace IStream

/-- A stream that reads a text. -/
def ofText (text : Text) : IStream :=
  { rest := text, broken := false, eofbit := false, failbit := false, badbit := false }

/-- `good()`. -/
def good (self : IStream) : Bool :=
  !self.eofbit && !self.failbit && !self.badbit

/-- `fail()`. -/
def fail (self : IStream) : Bool :=
  self.failbit || self.badbit

/-- `eof()`. -/
def eof (self : IStream) : Bool :=
  self.eofbit

/-- `getline`, with the line unless the stream has then failed. -/
def getline (self : IStream) : IStream × Option Text :=
  if self.good then
    if '\n' ∈ self.rest then
      ({ self with rest := (self.rest.dropWhile (· ≠ '\n')).tail },
        some (self.rest.takeWhile (· ≠ '\n')))
    else
      -- nothing extracted is a failure as well
      let ended :=
        { self with
          rest := []
          eofbit := !self.broken
          badbit := self.broken
          failbit := self.rest.isEmpty }
      (ended, if ended.fail then none else some self.rest)
  else ({ self with failbit := true }, none)

/-- How often `getline` can still return a line, at most. -/
def linesLeft (self : IStream) : Nat :=
  self.rest.length + (!self.eofbit).toNat

/-- A text at the first of some character. -/
theorem takeWhile_dropWhile {text : Text} {ch : Char} (member : ch ∈ text) :
    text.takeWhile (· ≠ ch) ++ ch :: (text.dropWhile (· ≠ ch)).tail = text := by
  induction text with
  | nil => cases member
  | cons first text continued =>
      by_cases same : first = ch
      · subst same
        simp
      · have later : ch ∈ text := by
          rcases List.mem_cons.mp member with equal | later
          · exact absurd equal.symm same
          · exact later
        rw [List.takeWhile_cons_of_pos (by simpa using same),
          List.dropWhile_cons_of_pos (by simpa using same), List.cons_append, continued later]

theorem linesLeft_getline {self after : IStream} {line : Text}
    (read : self.getline = (after, some line)) : after.linesLeft < self.linesLeft := by
  unfold getline at read
  split at read
  · rename_i ready
    split at read
    · rename_i member
      obtain ⟨rfl, -⟩ := Prod.mk.inj read
      have lengths := congrArg List.length (takeWhile_dropWhile member)
      rw [List.length_append, List.length_cons] at lengths
      unfold linesLeft
      dsimp only
      omega
    · obtain ⟨rfl, found⟩ := Prod.mk.inj read
      have going : self.eofbit = false := by
        rw [good, Bool.and_eq_true, Bool.and_eq_true, Bool.not_eq_true'] at ready
        exact ready.1.1
      split at found
      · cases found
      · rename_i succeeds
        have whole : self.broken = false := by
          cases broken : self.broken with
          | false => rfl
          | true => simp [fail, broken] at succeeds
        simp only [linesLeft, going, whole, List.length_nil]
        exact Nat.lt_of_lt_of_le Nat.zero_lt_one (Nat.le_add_left _ _)
  · cases (Prod.mk.inj read).2

end IStream

/-! ## Sections -/

/--
The rest of a section: its lines up to a header, of which the name is returned, or to the
end of the stream.  There is no result where `fn` has none.
-/
def parseSection {State : Type u} (fn : State → Text → Text → Option State) (state : State)
    (is : IStream) : Option (State × IStream × Text) :=
  match _read : is.getline with
  | (after, none) => some (state, after, [])
  | (after, some line) =>
      let line := trim line
      if line = [] ∨ line.head? = some '#' then parseSection fn state after
      else if line.head? = some '[' ∧ line.getLast? = some ']' then
        some (state, after, trim (substr line 1 (line.length - 2)))
      else
        let (key, val) := splitPair line '='
        match fn state (rtrim key) (ltrim val) with
        | none => none
        | some next => parseSection fn next after
termination_by is.linesLeft
decreasing_by all_goals exact IStream.linesLeft_getline _read

/-- `emplace` of a map, which keeps the value that is there. -/
def emplace {Value : Type u} (map : List (Text × Value)) (key : Text) (value : Value) :
    List (Text × Value) :=
  if (map.lookup key).isSome then map else map ++ [(key, value)]

/-- Where the root of a `MultiConfig` is in memory. -/
abbrev ConfigAddress := Nat

/-- `Config`, with the address of its parent. -/
structure Config where
  map_ : List (Text × Text)
  parent_ : Option ConfigAddress
  deriving DecidableEq

/-- What a configuration without the key answers with. -/
inductive ConfigError where
  | missingKey (key : Text)
  deriving DecidableEq

namespace ConfigError

/-- `what()`. -/
def what : ConfigError → Text
  | missingKey key => "missing config key: ".toList ++ key

end ConfigError

namespace Config

/-- The default constructor. -/
def empty : Config :=
  { map_ := [], parent_ := none }

/-- `set_parent`. -/
def setParent (self : Config) (parent : ConfigAddress) : Config :=
  { self with parent_ := some parent }

/--
`get`, which asks the parent for a key that is not there, and that one its own parent, at
most so many times.  There is no result where it takes longer, or where there is no
configuration in memory at the parent's address.
-/
def get (memory : ConfigAddress → Option Config) (key : Text) :
    Nat → Config → Option (Except ConfigError Text)
  | depth, self =>
      match self.map_.lookup key with
      | some value => some (.ok value)
      | none =>
          match self.parent_, depth with
          | none, _ => some (.error (.missingKey key))
          | some _, 0 => none
          | some parent, depth + 1 => (memory parent).bind (get memory key depth)

/-- `get` with a default. -/
def getOr (memory : ConfigAddress → Option Config) (key : Text) (dfl : Option Text) :
    Nat → Config → Option (Option Text)
  | depth, self =>
      match self.map_.lookup key with
      | some value => some (some value)
      | none =>
          match self.parent_, depth with
          | none, _ => some dfl
          | some _, 0 => none
          | some parent, depth + 1 => (memory parent).bind (getOr memory key dfl depth)

/-- The value of an assignment, where the substitution takes at most so many rounds. -/
def varSub (fn : Text → Text) (rounds : Nat) (val : Text) : Option Text :=
  (runFor (Scan.step fn) rounds (.start val)).map Scan.s

/-- An assignment, which counts if it is the first one. -/
def assign (fn : Text → Text) (rounds : Nat) (self : Config) (key val : Text) : Option Config :=
  (varSub fn rounds val).map fun val => { self with map_ := emplace self.map_ key val }

/-- `Config::read_section`, which substitutes the values that it reads. -/
def readSection (fn : Text → Text) (rounds : Nat) (self : Config) (is : IStream) :
    Option (Config × IStream × Text) :=
  parseSection (assign fn rounds) self is

end Config

/-! ## Several sections -/

/-- `MultiConfig`. -/
structure MultiConfig where
  root_ : Config
  map_ : List (Text × Config)
  deriving DecidableEq

namespace MultiConfig

/-- The default constructor. -/
def empty : MultiConfig :=
  { root_ := .empty, map_ := [] }

/-- `section`, which is the root where there is no such section. -/
def sectionNamed (self : MultiConfig) (name : Text) : Config :=
  (self.map_.lookup name).getD self.root_

/-- The memory of a `MultiConfig` that is at some address. -/
def memory (self : MultiConfig) (this : ConfigAddress) (address : ConfigAddress) : Option Config :=
  if address = this then some self.root_ else none

/-- The variables of `read` between two sections. -/
structure Reading where
  config : MultiConfig
  is : IStream
  next : Text
  deriving DecidableEq

/-- One section, after its header. -/
def readNext (fn : Text → Text) (rounds : Nat) (this : ConfigAddress) (self : Reading) :
    Option Reading :=
  (Config.empty.setParent this |>.readSection fn rounds self.is).map fun (config, is, next) =>
    { config := { self.config with map_ := emplace self.config.map_ self.next config }
      is
      next }

/-- The loop, for at most so many sections. -/
def readSections (fn : Text → Text) (rounds : Nat) (this : ConfigAddress) :
    Nat → Reading → Option Reading
  | 0, _ => none
  | sections + 1, self =>
      if self.is.eof then some self
      else (readNext fn rounds this self).bind (readSections fn rounds this sections)

/--
`read` into the `MultiConfig` at an address, where each substitution takes at most so many
rounds and the text has at most so many sections.
-/
def read (fn : Text → Text) (rounds : Nat) (this : ConfigAddress) (self : MultiConfig)
    (is : IStream) : Option Reading :=
  (self.root_.readSection fn rounds is).bind fun (root, is, next) =>
    readSections fn rounds this rounds { config := { self with root_ := root }, is, next }

end MultiConfig

end ReactiveToolbox.Util
