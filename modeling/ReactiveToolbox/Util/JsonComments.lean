import Mathlib.Algebra.Group.Nat.Even
import Mathlib.Data.List.Basic

/-!
# Comments in a JSON text

`MutableDocument::cpp_comments_to_whitespace` overwrites the line comments of a text in
place.  It takes a quote behind a backslash for an escaped one, also where the backslash
is itself escaped and where there is no string, so that from there on it may take
strings for code and code for strings.
-/

namespace ReactiveToolbox.Util.Json

/-! ## The function -/

/-- `is_string` and `is_comment`. -/
structure Flags where
  isString : Bool
  isComment : Bool
  deriving DecidableEq

/-- The buffer between two rounds of the loop. -/
structure Whitening where
  buf : List Char
  flags : Flags
  deriving DecidableEq

/-- That `i > 0` and that this character is in front of `i`. -/
def behind (buf : List Char) (i : Nat) (ch : Char) : Bool :=
  decide (0 < i ∧ buf[i - 1]? = some ch)

/-- The `switch` of a round. -/
def Whitening.examine (self : Whitening) (i : Nat) : Whitening :=
  match self.buf[i]? with
  | some '/' =>
      if behind self.buf i '/' ∧ ¬self.flags.isString then
        { buf := (self.buf.set i ' ').set (i - 1) ' '
          flags := { self.flags with isComment := true } }
      else self
  | some '\n' =>
      if self.flags.isString then self
      else { self with flags := { self.flags with isComment := false } }
  | some '"' =>
      if ¬self.flags.isComment ∧ ¬behind self.buf i '\\' then
        { self with flags := { self.flags with isString := !self.flags.isString } }
      else self
  | _ => self

/-- A round of the loop. -/
def Whitening.round (self : Whitening) (i : Nat) : Whitening :=
  let examined := self.examine i
  if examined.flags.isComment then { examined with buf := examined.buf.set i ' ' } else examined

/-- `cpp_comments_to_whitespace`. -/
def cppCommentsToWhitespace (buf : List Char) : List Char :=
  ((List.range buf.length).foldl Whitening.round ⟨buf, false, false⟩).buf

/-! ## The reference lexer -/

/--
Where a text has got to: in normal text, or behind one slash there; in a string, or
behind a backslash there; or in a line comment.
-/
inductive Lexing where
  | normal
  | slash
  | string
  | escape
  | comment
  deriving DecidableEq

/-- The state behind a character. -/
def Lexing.next : Lexing → Char → Lexing
  | .normal, ch => if ch = '/' then .slash else if ch = '"' then .string else .normal
  | .slash, ch => if ch = '/' then .comment else if ch = '"' then .string else .normal
  | .string, ch => if ch = '\\' then .escape else if ch = '"' then .normal else .string
  | .escape, _ => .string
  | .comment, ch => if ch = '\n' then .normal else .comment

/-- Every character of a comment is a blank, from its first slash up to its newline. -/
def Lexing.blank (state : Lexing) : List Char → List Char
  | [] => []
  | ch :: rest =>
      (if state.next ch = .comment ∨ (state.next ch = .slash ∧ rest.head? = some '/') then ' '
        else ch) :: (state.next ch).blank rest

/-- A text with its comments blanked, as the lexer sees them. -/
def blankComments (text : List Char) : List Char :=
  Lexing.normal.blank text

/-! ## Quotes that are misjudged -/

/-- A quote that begins or ends a string, and stands behind a backslash. -/
def Lexing.misjudges (state : Lexing) (last : Option Char) (ch : Char) : Bool :=
  decide (ch = '"' ∧ last = some '\\' ∧ (state = .normal ∨ state = .string))

/-- How many quotes of a text are misjudged. -/
def Lexing.misjudged (state : Lexing) (last : Option Char) : List Char → Nat
  | [] => 0
  | ch :: rest =>
      (state.misjudges last ch).toNat + (state.next ch).misjudged (some ch) rest

/-- In front of every `//` that is not in a comment an even number of quotes is misjudged. -/
def MisjudgedInPairs (text : List Char) : Prop :=
  ∀ before after, text = before ++ '/' :: '/' :: after →
    before.foldl Lexing.next .normal ≠ .comment →
      Even (Lexing.normal.misjudged none before)

/-! ## The loop as one pass -/

/-- The flags behind a character, which stands behind `last` in the buffer. -/
def Flags.next (self : Flags) (last : Option Char) (ch : Char) : Flags :=
  if ch = '/' then
    if last = some '/' ∧ ¬self.isString then { self with isComment := true } else self
  else if ch = '\n' then
    if self.isString then self else { self with isComment := false }
  else if ch = '"' then
    if ¬self.isComment ∧ last ≠ some '\\' then { self with isString := !self.isString } else self
  else self

theorem Flags.next_newline (self : Flags) (last : Option Char) :
    self.next last '\n' = if self.isString then self else { self with isComment := false } := by
  rw [next, if_neg (by decide), if_pos rfl]

theorem Flags.next_quote (self : Flags) (last : Option Char) :
    self.next last '"' =
      if ¬self.isComment ∧ last ≠ some '\\' then { self with isString := !self.isString }
      else self := by
  rw [next, if_neg (by decide), if_neg (by decide), if_pos rfl]

/-- What a round leaves of its character. -/
def Flags.shown (self : Flags) (ch : Char) : Char :=
  if self.isComment then ' ' else ch

/-- That the next round overwrites this character. -/
def Flags.Opens (self : Flags) (last : Option Char) (rest : List Char) : Prop :=
  last = some '/' ∧ rest.head? = some '/' ∧ self.isString = false

instance (flags : Flags) (last : Option Char) (rest : List Char) :
    Decidable (flags.Opens last rest) :=
  inferInstanceAs (Decidable (_ ∧ _))

/-- What the loop makes of the rest of a buffer. -/
def Flags.scan (self : Flags) (last : Option Char) : List Char → List Char
  | [] => []
  | ch :: rest =>
      let now := self.next last ch
      (if now.Opens (some (now.shown ch)) rest then ' ' else now.shown ch) ::
        now.scan (some (now.shown ch)) rest

/-- The part of the buffer that the loop has passed, of which the last character may change. -/
def Flags.passed (self : Flags) (front rest : List Char) : List Char :=
  if self.Opens front.getLast? rest then front.dropLast ++ [' '] else front

theorem behind_append (front rest : List Char) (ch : Char) :
    behind (front ++ rest) front.length ch = decide (front.getLast? = some ch) := by
  rcases List.eq_nil_or_concat front with rfl | ⟨init, last, rfl⟩
  · rfl
  · simp [behind]

theorem set_append (front rest : List Char) (ch other : Char) :
    (front ++ ch :: rest).set front.length other = front ++ other :: rest := by
  rw [List.set_append_right _ _ (le_refl _), Nat.sub_self, List.set_cons_zero]

theorem set_behind {front : List Char} {last : Char} (ends : front.getLast? = some last)
    (rest : List Char) (other : Char) :
    (front ++ rest).set (front.length - 1) other = front.dropLast ++ [other] ++ rest := by
  obtain ⟨init, rfl⟩ := List.getLast?_eq_some_iff.mp ends
  simp

theorem not_opens {flags : Flags} {last : Option Char} {rest : List Char} {ch : Char}
    (other : ch ≠ '/') : ¬flags.Opens last (ch :: rest) :=
  fun opens => other (Option.some.inj opens.2.1)

/-- The buffer and the flags once a character has been examined. -/
theorem examine_append (flags : Flags) (front rest : List Char) (ch : Char) :
    Whitening.examine ⟨front ++ ch :: rest, flags⟩ front.length =
      ⟨flags.passed front (ch :: rest) ++
        (if flags.Opens front.getLast? (ch :: rest) then ' ' else ch) :: rest,
        flags.next front.getLast? ch⟩ := by
  have found : (front ++ ch :: rest)[front.length]? = some ch := by simp
  unfold Whitening.examine
  simp only [found]
  split
  · rename_i same
    obtain rfl := Option.some.inj same
    simp only [behind_append, decide_eq_true_eq, Flags.passed, Flags.next, if_true]
    by_cases opens : front.getLast? = some '/' ∧ ¬flags.isString = true
    · have opened : flags.Opens front.getLast? ('/' :: rest) :=
        ⟨opens.1, rfl, Bool.not_eq_true _ ▸ opens.2⟩
      rw [if_pos opens, if_pos opened, if_pos opens, if_pos opened, set_append,
        set_behind opens.1]
    · have closed : ¬flags.Opens front.getLast? ('/' :: rest) :=
        fun opened => opens ⟨opened.1, by rw [opened.2.2]; decide⟩
      rw [if_neg opens, if_neg closed, if_neg opens, if_neg closed]
  · rename_i same
    obtain rfl := Option.some.inj same
    rw [Flags.passed, if_neg (not_opens (by decide)), if_neg (not_opens (by decide)),
      Flags.next_newline]
    cases flags.isString <;> rfl
  · rename_i same
    obtain rfl := Option.some.inj same
    rw [Flags.passed, if_neg (not_opens (by decide)), if_neg (not_opens (by decide)),
      Flags.next_quote]
    simp only [behind_append, decide_eq_true_eq]
    by_cases toggles : ¬flags.isComment = true ∧ ¬front.getLast? = some '\\'
    · rw [if_pos toggles, if_pos toggles]
    · rw [if_neg toggles, if_neg toggles]
  · rename_i notSlash notNewline notQuote
    have different : ch ≠ '/' := fun same => notSlash (congrArg some same)
    rw [Flags.passed, if_neg (not_opens different), if_neg (not_opens different), Flags.next,
      if_neg different, if_neg fun same => notNewline (congrArg some same),
      if_neg fun same => notQuote (congrArg some same)]

theorem length_passed (flags : Flags) (front rest : List Char) :
    (flags.passed front rest).length = front.length := by
  unfold Flags.passed
  split
  · rename_i opens
    obtain ⟨init, rfl⟩ := List.getLast?_eq_some_iff.mp opens.1
    simp
  · rfl

/-- A round looks at the character before it only. -/
theorem round_append (flags : Flags) (front rest : List Char) (ch : Char) :
    Whitening.round ⟨front ++ ch :: rest, flags⟩ front.length =
      ⟨flags.passed front (ch :: rest) ++ (flags.next front.getLast? ch).shown ch :: rest,
        flags.next front.getLast? ch⟩ := by
  unfold Whitening.round
  simp only [examine_append]
  split
  · rename_i comment
    rw [Flags.shown, if_pos comment, ← length_passed flags front (ch :: rest), set_append]
  · rename_i code
    have closed : ¬flags.Opens front.getLast? (ch :: rest) := by
      intro opens
      obtain rfl := Option.some.inj opens.2.1
      refine code ?_
      rw [Flags.next, if_pos rfl, if_pos ⟨opens.1, by rw [opens.2.2]; decide⟩]
    rw [Flags.shown, if_neg code, if_neg closed]

/-- The loop is one pass, which changes the character behind it at most. -/
theorem foldl_round (flags : Flags) (front rest : List Char) :
    ((List.range' front.length rest.length).foldl Whitening.round ⟨front ++ rest, flags⟩).buf =
      flags.passed front rest ++ flags.scan front.getLast? rest := by
  induction rest generalizing flags front with
  | nil =>
      have closed : ¬flags.Opens front.getLast? [] := fun opens => nomatch opens.2.1
      rw [Flags.passed, if_neg closed]
      rfl
  | cons ch rest continued =>
      have moved := continued (flags.next front.getLast? ch)
        (flags.passed front (ch :: rest) ++ [(flags.next front.getLast? ch).shown ch])
      rw [List.length_append, length_passed, List.length_singleton, List.append_assoc,
        List.singleton_append] at moved
      rw [List.length_cons, List.range'_succ, List.foldl_cons, round_append, moved, Flags.scan,
        List.getLast?_concat, Flags.passed, List.getLast?_concat, List.dropLast_concat]
      split <;> simp

/-- The loop as a scan of the text from the left. -/
theorem cppCommentsToWhitespace_eq (text : List Char) :
    cppCommentsToWhitespace text = (⟨false, false⟩ : Flags).scan none text := by
  rw [cppCommentsToWhitespace, List.range_eq_range']
  exact foldl_round ⟨false, false⟩ [] text

/-! ## The pass and the lexer -/

/-- The state is one within a string. -/
def Lexing.inString (state : Lexing) : Bool :=
  decide (state = .string ∨ state = .escape)

/-- What the flags are where the lexer is in some state, with so many quotes misjudged. -/
structure Tracks (flags : Flags) (state : Lexing) (count : Nat) (last : Option Char)
    (rest : List Char) : Prop where
  isComment : flags.isComment = decide (state = .comment)
  isString : flags.isString = (state.inString != decide (count % 2 = 1))
  comment : state = .comment → count % 2 = 0
  normal : state = .normal → last ≠ some '/'
  slash : state = .slash → last = some '/'
  escape : state = .escape → last = some '\\'
  pair : last = some '/' → rest.head? = some '/' → state ≠ .comment → count % 2 = 0

/-- The two slashes at the front of a text, where an odd number of quotes is misjudged. -/
def Breaks (state : Lexing) (count : Nat) (text : List Char) : Prop :=
  text.head? = some '/' ∧ text.tail.head? = some '/' ∧ state ≠ .comment ∧ count % 2 = 1

variable {flags : Flags} {state : Lexing} {count : Nat} {last shown : Option Char}
  {rest : List Char} {ch : Char}

theorem Tracks.next (tracks : Tracks flags state count last (ch :: rest))
    (sound : ¬Breaks state count (ch :: rest)) :
    Tracks (flags.next last ch) (state.next ch)
      (count + (state.misjudges last ch).toNat) (some ((flags.next last ch).shown ch)) rest := by
  obtain ⟨isComment, isString, comment, normal, slash, escape, pair⟩ := tracks
  -- the lexer's states against the kinds of characters
  cases state <;> constructor <;>
    grind [Flags.next, Lexing.next, Lexing.misjudges, Lexing.inString, Flags.shown, Breaks]

/-- What the pass makes of a character, and the lexer of the same. -/
theorem Tracks.head (tracks : Tracks flags state count last (ch :: rest)) :
    (if (flags.next last ch).Opens (some ((flags.next last ch).shown ch)) rest then ' '
      else (flags.next last ch).shown ch) =
      (if state.next ch = .comment ∨ (state.next ch = .slash ∧ rest.head? = some '/') then ' '
        else ch) ↔ ¬Breaks state count (ch :: rest) := by
  obtain ⟨isComment, isString, comment, normal, slash, escape, pair⟩ := tracks
  cases state <;>
    grind [Flags.next, Lexing.next, Lexing.inString, Flags.shown, Breaks, Flags.Opens]

/-- Whatever of the rest is read before them, no two slashes break it. -/
def Sound (state : Lexing) (last : Option Char) (count : Nat) (text : List Char) : Prop :=
  ∀ before after, text = before ++ after →
    ¬Breaks (before.foldl Lexing.next state) (count + state.misjudged last before) after

/-- Soundness, character by character. -/
theorem sound_cons : Sound state last count (ch :: rest) ↔
    ¬Breaks state count (ch :: rest) ∧
      Sound (state.next ch) (some ch) (count + (state.misjudges last ch).toNat) rest := by
  constructor
  · intro sound
    refine ⟨sound [] _ rfl, fun before after split => ?_⟩
    have later := sound (ch :: before) after (by rw [split, List.cons_append])
    rw [Lexing.misjudged, ← Nat.add_assoc] at later
    exact later
  · rintro ⟨first, later⟩ before after split
    cases before with
    | nil =>
        rw [List.nil_append] at split
        rw [← split]
        exact first
    | cons other before =>
        obtain ⟨rfl, same⟩ := List.cons.inj split
        rw [Lexing.misjudged, ← Nat.add_assoc]
        exact later before after same

/-- What is behind a comment does not depend on how the comment is shown. -/
theorem misjudges_shown (agrees : state ≠ .comment → shown = last) :
    state.misjudges shown ch = state.misjudges last ch := by
  by_cases comment : state = .comment
  · subst comment
    simp [Lexing.misjudges]
  · rw [agrees comment]

/-- The scan blanks what the lexer does exactly if no quote is misjudged for good. -/
theorem scan_eq_blank_iff (tracks : Tracks flags state count shown rest)
    (agrees : state ≠ .comment → shown = last) :
    flags.scan shown rest = state.blank rest ↔ Sound state last count rest := by
  induction rest generalizing flags state count last shown with
  | nil =>
      refine iff_of_true rfl fun before after split breaks => ?_
      obtain ⟨-, rfl⟩ := List.append_eq_nil_iff.mp split.symm
      cases breaks.1
  | cons ch rest continued =>
      rw [sound_cons, Flags.scan, Lexing.blank, List.cons.injEq, tracks.head,
        ← misjudges_shown agrees]
      refine and_congr_right fun sound => ?_
      have next := tracks.next sound
      refine continued next fun code => ?_
      rw [Flags.shown, next.isComment, decide_eq_false code]
      rfl

theorem misjudgedInPairs_iff (text : List Char) :
    MisjudgedInPairs text ↔ Sound .normal none 0 text := by
  constructor
  · rintro pairs before after split ⟨first, second, code, odd⟩
    obtain ⟨after, rfl⟩ := List.head?_eq_some_iff.mp first
    obtain ⟨after, rfl⟩ := List.head?_eq_some_iff.mp second
    have even := Nat.even_iff.mp (pairs before after split code)
    omega
  · intro sound before after split code
    have holds := sound before _ split
    by_contra odd
    rw [Nat.not_even_iff] at odd
    exact holds ⟨rfl, rfl, code, by omega⟩

/--
For every text the function blanks the comments as the lexer does if and only if, in
front of every `//` outside of the comments, an even number of the quotes that begin or
end a string stand behind a backslash.
-/
theorem cppCommentsToWhitespace_eq_iff (text : List Char) :
    cppCommentsToWhitespace text = blankComments text ↔ MisjudgedInPairs text := by
  rw [cppCommentsToWhitespace_eq, misjudgedInPairs_iff, blankComments]
  refine scan_eq_blank_iff ?_ fun _ => rfl
  exact
    { isComment := rfl
      isString := rfl
      comment := fun start => nomatch start
      normal := fun _ same => nomatch same
      slash := fun start => nomatch start
      escape := fun start => nomatch start
      pair := fun same => nomatch same }

/-- A string of one backslash, and a comment behind it. -/
def backslashString : List Char :=
  ['"', '\\', '\\', '"', '/', '/', 'x', '\n']

/-- The comment stays. -/
theorem cppCommentsToWhitespace_backslashString :
    cppCommentsToWhitespace backslashString = backslashString ∧
      blankComments backslashString = ['"', '\\', '\\', '"', ' ', ' ', ' ', '\n'] ∧
      cppCommentsToWhitespace backslashString ≠ blankComments backslashString := by
  decide

end ReactiveToolbox.Util.Json
