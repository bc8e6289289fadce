import ReactiveToolbox.Lib.Machine
import ReactiveToolbox.Lib.TextSearch

/-!
# Variable substitution

`VarSub::substitute` scans a text under a cursor, calls itself where a reference is
opened, and replaces the reference in the text where it is closed, after which its
caller scans the text again from where the reference began.  Each step below is one
round of the loop; the calls that have not returned are kept on a stack.
-/

namespace ReactiveToolbox.Util.VarSub

open ReactiveToolbox.Lib

/-- The characters of a text, and of a name. -/
abbrev Text := List Char

/-- Names are the same if their characters are. -/
scoped instance lawfulText : LawfulBEq Text := inferInstance

/-- The local `state`, which is zero, `$` or a backslash. -/
inductive ScanState where
  | plain
  | dollar
  | backslash
  deriving DecidableEq

/-- The local variables of a call: the cursor, and what was substituted at `last`. -/
structure Frame where
  j : Nat
  last : Nat
  inner : List Text
  state : ScanState
  deriving DecidableEq

/--
The text, the call that scans it, and its callers, the nearest one first.  A caller's
cursor went back to the `$` of the reference that the call is for.
-/
structure Scan where
  s : Text
  frame : Frame
  callers : List Frame
  deriving DecidableEq

/-- A call that begins to scan at `j`. -/
def Frame.begin (j : Nat) : Frame where
  j := j
  last := 0
  inner := []
  state := .plain

/-- The cursor moves on by a character. -/
def Frame.advance (self : Frame) (state : ScanState) : Frame :=
  { self with j := self.j + 1, state := state }

/-- `replace` of some characters at a position, and `erase` where the value is empty. -/
def replace {α : Type} (s : List α) (position count : Nat) (value : List α) : List α :=
  s.take position ++ value ++ s.drop (position + count)

namespace Scan

/-- The cursor of the call moves on by a character. -/
def advance (self : Scan) (state : ScanState) : Scan :=
  { self with frame := self.frame.advance state }

/-- The character after a backslash. -/
def unescape (self : Scan) : Scan :=
  { self with s := replace self.s (self.frame.j - 1) 1 [], frame := self.frame.advance .plain }

/-- The opening brace after a `$`. -/
def descend (self : Scan) : Scan :=
  let j := self.frame.j
  -- where the position has advanced the names are forgotten
  let caller : Frame :=
    if self.frame.last < j then ⟨j - 1, j, [], .plain⟩
    else ⟨j - 1, self.frame.last, self.frame.inner, .plain⟩
  ⟨self.s, .begin (j + 1), caller :: self.callers⟩

/-- The closing brace of the reference that the call is for. -/
def ascend (fn : Text → Text) (self : Scan) (caller : Frame) (callers : List Frame) : Scan :=
  let i := caller.j
  let n := self.frame.j - i
  let name := substr self.s (i + 2) (n - 2)
  if name ∈ caller.inner then
    -- this name has already been substituted at this position
    ⟨replace self.s i (n + 1) [], caller, callers⟩
  else
    ⟨replace self.s i (n + 1) (fn name), { caller with inner := name :: caller.inner }, callers⟩

/-- A character that is neither escaped nor opens a reference. -/
def examine (fn : Text → Text) (self : Scan) (ch : Char) : Scan :=
  if ch = '$' then self.advance .dollar
  else if ch = '\\' then self.advance .backslash
  else if ch = '}' then
    match self.callers with
    | [] => self.advance .plain
    | caller :: callers => self.ascend fn caller callers
  else self.advance .plain

/-- One round of the loop; at the end of the text every call returns false. -/
def step (fn : Text → Text) (self : Scan) : Option Scan :=
  match self.s[self.frame.j]? with
  | none => none
  | some ch =>
      match self.frame.state with
      | .backslash => some self.unescape
      | .dollar => some (if ch = '{' then self.descend else self.examine fn ch)
      | .plain => some (self.examine fn ch)

/-- The call at the top level. -/
def start (s : Text) : Scan :=
  ⟨s, .begin 0, []⟩

end Scan

/-- `operator()` turns a text into another one. -/
def Substitutes (fn : Text → Text) (s result : Text) : Prop :=
  ∃ final, Ends (Scan.step fn) (.start s) final ∧ final.s = result

/-! ## Single steps -/

theorem getElem?_cursor (left right : Text) (ch : Char) :
    (left ++ ch :: right)[left.length]? = some ch := by
  simp

theorem replace_between {α : Type} (left middle right value : List α) :
    replace (left ++ middle ++ right) left.length middle.length value =
      left ++ value ++ right := by
  rw [replace, ← List.length_append, List.drop_left, List.append_assoc left, List.take_left]

variable (fn : Text → Text)

/-- A character that is examined where the cursor is. -/
theorem step_plain (self : Scan) {ch : Char} (found : self.s[self.frame.j]? = some ch)
    (plain : self.frame.state = .plain) : self.step fn = some (self.examine fn ch) := by
  simp [Scan.step, found, plain]

theorem step_backslash (self : Scan) {ch : Char} (found : self.s[self.frame.j]? = some ch)
    (backslash : self.frame.state = .backslash) : self.step fn = some self.unescape := by
  simp [Scan.step, found, backslash]

theorem step_dollar (self : Scan) {ch : Char} (found : self.s[self.frame.j]? = some ch)
    (dollar : self.frame.state = .dollar) :
    self.step fn = some (if ch = '{' then self.descend else self.examine fn ch) := by
  simp [Scan.step, found, dollar]

/-- A character of no meaning to the scan. -/
def Ordinary (ch : Char) : Prop :=
  ch ≠ '\\' ∧ ch ≠ '$' ∧ ch ≠ '{' ∧ ch ≠ '}'

instance (ch : Char) : Decidable (Ordinary ch) :=
  inferInstanceAs (Decidable (_ ∧ _))

theorem examine_ordinary (self : Scan) {ch : Char} (ordinary : Ordinary ch) :
    self.examine fn ch = self.advance .plain := by
  obtain ⟨notBackslash, notDollar, -, notClose⟩ := ordinary
  simp [Scan.examine, notBackslash, notDollar, notClose]

end ReactiveToolbox.Util.VarSub
