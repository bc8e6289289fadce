import ReactiveToolbox.Sys.ParseTime
import ReactiveToolbox.Util.Ston

/-!
# Times in larger messages

A text that is parsed is a view into a message that goes on behind it.  What the
parsers return depends on the text alone, with one exception: `parse_nanos` reads the
first character of a text that has none.  It is called so for a time that ends with
its point.
-/

namespace ReactiveToolbox.Sys

open ReactiveToolbox.Io ReactiveToolbox.Lib ReactiveToolbox.Lib.CheckedInt
open ReactiveToolbox.Util

/-! ## The parsers on a view -/

/-- `int`. -/
def int : IntegerType where
  width := 32
  signed := true
  positive := by decide
  standard := by decide

/--
The loop of `parse_nanos` from a position on.  It ends at the end of the view, unless
it has begun behind it.
-/
def nanosLoopIn (sv : Slice Byte) (it : Nat) (ns : CInt) : Option (CInt × Nat) :=
  if it = sv.size then some (ns, it)
  else
    match access : sv.read it with
    | none => none
    | some c =>
        if isDigit c then nanosLoopIn sv (it + 1) (ns * 10 + num 32 (digitOf c))
        else some (ns, it)
termination_by sv.buffer.length - it
decreasing_by
  obtain ⟨inside, -⟩ := List.getElem?_eq_some_iff.mp access
  omega

/-- `parse_nanos`, undefined where it reads behind the message or its table of scales. -/
def parseNanosIn (sv : Slice Byte) : Option Nanos :=
  let sv := sv.substr 0 9
  (sv.read 0).bind fun c =>
    (if isDigit c then nanosLoopIn sv 1 (num 32 (digitOf c)) else some (0, 0)).bind fun result =>
      fractionScale[result.2]?.map fun scale => (result.1 * scale).widen 64

/-- `parse_time_only`. -/
def parseTimeOnlyIn (sv : Slice Byte) : Option (Option Nanos) :=
  if sv.size < 8 then some none
  else do
    let h₁ ← sv.read 0
    let h₀ ← sv.read 1
    let c₂ ← sv.read 2
    let m₁ ← sv.read 3
    let m₀ ← sv.read 4
    let c₅ ← sv.read 5
    let s₁ ← sv.read 6
    let s₀ ← sv.read 7
    if !isDigit h₁ || !isDigit h₀ || c₂ ≠ ':'.toUInt8 || !isDigit m₁ || !isDigit m₀ ||
        c₅ ≠ ':'.toUInt8 || !isDigit s₁ || !isDigit s₀ then
      some none
    else
      let h : Nanos := num 64 (digitOf h₁ * 10 + digitOf h₀)
      let m : Nanos := num 64 (digitOf m₁ * 10 + digitOf m₀)
      let s : Nanos := num 64 (digitOf s₁ * 10 + digitOf s₀)
      let ns := ((h * 60 + m) * 60 + s) * 1000000000
      if 8 < sv.size then
        let c₈ ← sv.read 8
        if c₈ ≠ '.'.toUInt8 then some none
        else (parseNanosIn (sv.substr 9 sv.size)).map fun fraction => some (ns + fraction)
      else some (some ns)

/-- The time of a date that was parsed. -/
def timeOfDate (d : ℤ) : Nanos :=
  -- Julian days start at noon.
  if d ≠ 0 then jdToTime (isoToJd (num 32 d)) - 43200000000000 else 0

/-- `parse_time`, with `parse_date`, which is `ston<int>`. -/
def parseTimeIn (sv : Slice Byte) : Option (Option Nanos) :=
  if sv.size < 8 then some none
  else
    (Util.ston int (sv.substr 0 8)).bind fun d =>
      if 8 < sv.size then
        (sv.read 8).bind fun c₈ =>
          if c₈ ≠ '-'.toUInt8 && c₈ ≠ 'T'.toUInt8 then some none
          else
            (parseTimeOnlyIn (sv.substr 9 sv.size)).map fun t =>
              t.map fun t => timeOfDate d + t
      else some (some (timeOfDate d))

/-- `HH:MM:SS.`, without a digit behind the point. -/
def EndsAtPoint : List Byte → Prop
  | [h₁, h₀, c₂, m₁, m₀, c₅, s₁, s₀, c₈] =>
      (!isDigit h₁ || !isDigit h₀ || c₂ ≠ ':'.toUInt8 || !isDigit m₁ || !isDigit m₀ ||
        c₅ ≠ ':'.toUInt8 || !isDigit s₁ || !isDigit s₀) = false ∧ c₈ = '.'.toUInt8
  | _ => False

variable {sv : Slice Byte}

/-! ## Fractions -/

/-- From within the view on, the loop takes the digits of its text. -/
theorem nanosLoopIn_eq {it : Nat} (within : it ≤ sv.size) (ns : CInt) :
    nanosLoopIn sv it ns = some (nanosLoop ns it (sv.text.drop it)) := by
  induction left : sv.size - it generalizing it ns with
  | zero =>
      have atEnd : it = sv.size := by omega
      have none : sv.text.drop it = [] := by
        rw [List.drop_eq_nil_iff, Slice.length_text]
        omega
      rw [nanosLoopIn, if_pos atEnd, none]
      rfl
  | succ left ih =>
      obtain ⟨c, access, split⟩ := Slice.exists_read (show it < sv.size by omega)
      rw [nanosLoopIn, if_neg (by omega), split, nanosLoop]
      split
      · rename_i missing
        rw [access] at missing
        cases missing
      · rename_i found same
        obtain rfl := Option.some.inj (access.symm.trans same)
        by_cases digit : isDigit c = true
        · rw [if_pos digit, if_pos digit, ih (by omega) _ (by omega)]
        · rw [if_neg digit, if_neg digit]

/-- It reads no more than it is given. -/
theorem nanosLoop_read_le (ns : CInt) (read : Nat) (text : List Byte) :
    (nanosLoop ns read text).2 ≤ read + text.length := by
  induction text generalizing ns read with
  | nil => exact Nat.le_refl _
  | cons c rest ih =>
      rw [nanosLoop, List.length_cons]
      split
      · have later := ih (ns * 10 + num 32 (digitOf c)) (read + 1)
        omega
      · exact Nat.le_add_right _ _

/-- At most nine digits have a scale. -/
theorem fractionScale_of_le {read : Nat} (few : read ≤ 9) :
    fractionScale[read]? = some (fractionScale.getD read undefined) := by
  have inside : read < fractionScale.length := Nat.lt_succ_of_le few
  rw [List.getD_eq_getElem?_getD, List.getElem?_eq_getElem inside, Option.getD_some]

/-- A text that has a first character decides its fraction. -/
theorem parseNanosIn_eq (begins : sv.text ≠ []) (behind : Option Byte) :
    parseNanosIn sv = some (parseNanos sv.text behind) := by
  have is_text : (sv.substr 0 9).text = sv.text.take 9 := Slice.text_substr (Nat.zero_le _) 9
  have size : (sv.substr 0 9).size = (sv.text.take 9).length := by
    rw [← is_text, Slice.length_text]
  have few : (sv.text.take 9).length ≤ 9 := List.length_take_le _ _
  unfold parseNanosIn parseNanos
  cases first : sv.text.take 9 with
  | nil => exact absurd first (by simpa using begins)
  | cons c rest =>
      rw [first, List.length_cons] at size few
      rw [first] at is_text
      have access : (sv.substr 0 9).read 0 = some c := by
        rw [Slice.read_of_lt (by omega), is_text, List.getElem?_cons_zero]
      dsimp only
      rw [access, Option.bind_some]
      split
      · have read := nanosLoop_read_le (num 32 (digitOf c)) 1 rest
        rw [nanosLoopIn_eq (by omega), is_text, List.drop_one, List.tail_cons, Option.bind_some,
          fractionScale_of_le (by omega), Option.map_some]
      · rw [Option.bind_some, fractionScale_of_le (Nat.zero_le _), Option.map_some]

/-! ## Times of the day -/

theorem parseTimeOnly_of_short {text : List Byte} (short : text.length < 8)
    (behind : Option Byte) : parseTimeOnly text behind = none := by
  unfold parseTimeOnly
  split
  · simp only [List.length_cons] at short
    omega
  · rfl

/-- The first eight accesses within a view, and what its text is then. -/
theorem exists_clock (long : 8 ≤ sv.size) :
    ∃ h₁ h₀ c₂ m₁ m₀ c₅ s₁ s₀, sv.read 0 = some h₁ ∧ sv.read 1 = some h₀ ∧
      sv.read 2 = some c₂ ∧ sv.read 3 = some m₁ ∧ sv.read 4 = some m₀ ∧ sv.read 5 = some c₅ ∧
        sv.read 6 = some s₁ ∧ sv.read 7 = some s₀ ∧
          sv.text = h₁ :: h₀ :: c₂ :: m₁ :: m₀ :: c₅ :: s₁ :: s₀ :: sv.text.drop 8 := by
  obtain ⟨h₁, access₀, split₀⟩ := Slice.exists_read (show 0 < sv.size by omega)
  obtain ⟨h₀, access₁, split₁⟩ := Slice.exists_read (show 1 < sv.size by omega)
  obtain ⟨c₂, access₂, split₂⟩ := Slice.exists_read (show 2 < sv.size by omega)
  obtain ⟨m₁, access₃, split₃⟩ := Slice.exists_read (show 3 < sv.size by omega)
  obtain ⟨m₀, access₄, split₄⟩ := Slice.exists_read (show 4 < sv.size by omega)
  obtain ⟨c₅, access₅, split₅⟩ := Slice.exists_read (show 5 < sv.size by omega)
  obtain ⟨s₁, access₆, split₆⟩ := Slice.exists_read (show 6 < sv.size by omega)
  obtain ⟨s₀, access₇, split₇⟩ := Slice.exists_read (show 7 < sv.size by omega)
  refine ⟨h₁, h₀, c₂, m₁, m₀, c₅, s₁, s₀, access₀, access₁, access₂, access₃, access₄, access₅,
    access₆, access₇, ?_⟩
  rw [← split₇, ← split₆, ← split₅, ← split₄, ← split₃, ← split₂, ← split₁, ← split₀,
    List.drop_zero]

/-- Behind the point of a time there is a fraction, unless the text ends with the point. -/
theorem parseTimeOnlyIn_eq (complete : ¬EndsAtPoint sv.text) (behind : Option Byte) :
    parseTimeOnlyIn sv = some (parseTimeOnly sv.text behind) := by
  by_cases short : sv.size < 8
  · rw [parseTimeOnlyIn, if_pos short, parseTimeOnly_of_short (by rwa [Slice.length_text])]
  · obtain ⟨h₁, h₀, c₂, m₁, m₀, c₅, s₁, s₀, access₀, access₁, access₂, access₃, access₄, access₅,
      access₆, access₇, is_text⟩ := exists_clock (Nat.le_of_not_lt short)
    rw [parseTimeOnlyIn, if_neg short, access₀, access₁, access₂, access₃, access₄, access₅,
      access₆, access₇, is_text]
    simp only [Option.bind_eq_bind, Option.bind_some, parseTimeOnly]
    split
    · rfl
    · rename_i clock
      by_cases point : 8 < sv.size
      · obtain ⟨c₈, access₈, split₈⟩ := Slice.exists_read point
        rw [if_pos point, access₈, Option.bind_some, split₈]
        dsimp only
        split
        · rfl
        · rename_i is_point
          have fraction : (sv.substr 9 sv.size).text = sv.text.drop 9 :=
            Slice.text_substr_size point
          have begins : sv.text.drop 9 ≠ [] := by
            intro ends
            rw [split₈, ends] at is_text
            rw [is_text] at complete
            exact complete ⟨Bool.eq_false_of_not_eq_true clock, not_not.mp is_point⟩
          rw [parseNanosIn_eq (by rwa [fraction]) behind, fraction, Option.map_some]
      · have ends : sv.text.drop 8 = [] := by
          rw [List.drop_eq_nil_iff, Slice.length_text]
          omega
        rw [if_neg point, ends]

/-! ## Dates -/

theorem digit_eq_ofInt (c : Byte) : digit c = BitVec.ofInt 64 (digitOf c) := by
  rw [digit, digitOf, Int.sub_eq_add_neg, BitVec.ofInt_add, BitVec.ofInt_neg, BitVec.ofInt_natCast,
    BitVec.ofInt_natCast, BitVec.sub_eq_add_neg]

theorem foldl_digitRun (n : BitVec 64) (text : List Byte) :
    (digitRun text).foldl (fun n c => n * 10 + digit c) n = stonLoop n text := by
  induction text generalizing n with
  | nil => rfl
  | cons c rest ih =>
      rw [stonLoop]
      by_cases digit : isDigit c = true
      · rw [if_pos digit, digitRun_cons digit, List.foldl_cons, ih, digit_eq_ofInt]
      · rw [if_neg digit, digitRun_stop digit, List.foldl_nil]

theorem stonDigits_in {it : Nat} (within : it < sv.size) :
    Util.stonDigits sv it = some (stonDigits (sv.text.drop it)) := by
  obtain ⟨c, access, split⟩ := Slice.exists_read within
  rw [Util.stonDigits, access, Option.bind_some, split, stonDigits]
  by_cases digit : isDigit c = true
  · rw [if_pos digit, ← digit_eq_ofInt, ← foldl_digitRun, ← stonLoop_eq within]
    exact if_pos digit
  · rw [if_neg digit]
    exact if_neg digit

/-- `ston<int>` on a view is that of its text. -/
theorem ston_in (sv : Slice Byte) : Util.ston int sv = some (ston sv.text) := by
  cases is_text : sv.text with
  | nil =>
      have empty : sv.size = 0 := size_of_text is_text
      rw [Util.ston, if_pos empty]
      rfl
  | cons c rest =>
      have size : sv.size = rest.length + 1 := size_of_text is_text
      have access : sv.read 0 = some c := by
        rw [Slice.read_of_lt (by omega), is_text, List.getElem?_cons_zero]
      rw [Util.ston, if_neg (by omega), access, Option.bind_some, ston]
      by_cases minus : c = '-'.toUInt8
      · rw [if_pos ⟨rfl, minus⟩, if_pos minus]
        by_cases single : rest = []
        · rw [if_pos (by rw [size, single, List.length_nil]), if_pos single]
        · have more : 0 < rest.length := List.length_pos_of_ne_nil single
          rw [if_neg (by omega), if_neg single, stonDigits_in (by omega), is_text,
            List.drop_one, List.tail_cons]
          rfl
      · rw [if_neg (fun both => minus both.2), if_neg minus, stonDigits_in (by omega), is_text,
          List.drop_zero]
        rfl

/-- Behind a date there is a time of the day, with the same exception. -/
theorem parseTimeIn_eq
    (complete : ¬((sv.text[8]? = some '-'.toUInt8 ∨ sv.text[8]? = some 'T'.toUInt8) ∧
      EndsAtPoint (sv.text.drop 9))) (behind : Option Byte) :
    parseTimeIn sv = some (parseTime sv.text behind) := by
  unfold parseTimeIn parseTime
  rw [Slice.length_text]
  split
  · rfl
  · have date : (sv.substr 0 8).text = sv.text.take 8 := Slice.text_substr (Nat.zero_le _) 8
    rw [ston_in, date, Option.bind_some]
    by_cases more : 8 < sv.size
    · obtain ⟨c₈, access₈, split₈⟩ := Slice.exists_read more
      have item : sv.text[8]? = some c₈ := by rw [← Slice.read_of_lt more, access₈]
      have time : (sv.substr 9 sv.size).text = sv.text.drop 9 :=
        Slice.text_substr_size more
      rw [if_pos more, access₈, Option.bind_some, split₈]
      dsimp only
      split
      · rfl
      · rename_i delimiter
        have complete_time : ¬EndsAtPoint (sv.substr 9 sv.size).text := by
          rw [time]
          intro ends
          refine complete ⟨?_, ends⟩
          rw [item]
          by_cases minus : c₈ = '-'.toUInt8
          · exact .inl (congrArg some minus)
          · refine .inr (congrArg some ?_)
            by_contra other
            exact delimiter (by simp [minus, other])
        rw [parseTimeOnlyIn_eq complete_time behind, time, Option.map_some]
        cases parseTimeOnly (sv.text.drop 9) behind <;> rfl
    · have ends : sv.text.drop 8 = [] := by
        rw [List.drop_eq_nil_iff, Slice.length_text]
        omega
      rw [if_neg more, ends]
      rfl

/-! ## The end of the message -/

/-- Nothing follows the view. -/
def Last (sv : Slice Byte) : Prop :=
  sv.first + sv.size = sv.buffer.length

theorem last_alone (text : List Byte) : Last (.alone text) :=
  Nat.zero_add _

theorem Last.substr (last : Last sv) {position : Nat} (inside : position ≤ sv.size) :
    Last (sv.substr position sv.size) := by
  unfold Last at last ⊢
  simp only [Slice.substr]
  omega

/-- The first access of `parse_nanos` lies behind a message that the view ends with. -/
theorem parseNanosIn_of_empty (last : Last sv) (empty : sv.size = 0) : parseNanosIn sv = none := by
  have behind : sv.buffer.length ≤ (sv.substr 0 9).first + 0 := by
    unfold Last at last
    simp only [Slice.substr]
    omega
  have undefined : (sv.substr 0 9).read 0 = none := List.getElem?_eq_none behind
  unfold parseNanosIn
  dsimp only
  rw [undefined, Option.bind_none]

theorem parseTimeOnlyIn_of_endsAtPoint (last : Last sv) (ends : EndsAtPoint sv.text) :
    parseTimeOnlyIn sv = none := by
  unfold EndsAtPoint at ends
  split at ends
  · rename_i is_text
    have size : sv.size = 9 := size_of_text is_text
    obtain ⟨clock, point⟩ := ends
    obtain ⟨c₈, access₈, split₈⟩ := Slice.exists_read (show 8 < sv.size by omega)
    obtain ⟨_, _, _, _, _, _, _, _, access₀, access₁, access₂, access₃, access₄, access₅,
      access₆, access₇, split⟩ := exists_clock (show 8 ≤ sv.size by omega)
    have rest : sv.text.drop 9 = [] := by rw [is_text]; rfl
    rw [split₈, rest, is_text] at split
    cases split
    have empty : (sv.substr 9 sv.size).size = 0 := by
      simp only [Slice.substr]
      omega
    rw [parseTimeOnlyIn, if_neg (by omega), access₀, access₁, access₂, access₃, access₄, access₅,
      access₆, access₇]
    simp only [Option.bind_eq_bind, Option.bind_some]
    rw [if_neg (Bool.eq_false_iff.mp clock), if_pos (by omega), access₈, Option.bind_some,
      if_neg (not_not.mpr point),
      parseNanosIn_of_empty (last.substr (by omega)) empty, Option.map_none]
  · exact ends.elim

theorem parseTimeIn_of_endsAtPoint (last : Last sv)
    (delimiter : sv.text[8]? = some '-'.toUInt8 ∨ sv.text[8]? = some 'T'.toUInt8)
    (ends : EndsAtPoint (sv.text.drop 9)) : parseTimeIn sv = none := by
  have more : 8 < sv.size := by
    by_contra short
    have missing : sv.text[8]? = none := by
      rw [List.getElem?_eq_none_iff, Slice.length_text]
      omega
    rw [missing] at delimiter
    exact delimiter.elim nofun nofun
  have time : (sv.substr 9 sv.size).text = sv.text.drop 9 :=
    Slice.text_substr_size more
  have undefined := parseTimeOnlyIn_of_endsAtPoint (last.substr (show 9 ≤ sv.size from more))
    (by rwa [time])
  rw [parseTimeIn, if_neg (by omega), ston_in, Option.bind_some, if_pos more, undefined,
    Slice.read_of_lt more]
  rcases delimiter with minus | letter
  · rw [minus]
    rfl
  · rw [letter]
    rfl

/-! ## What encloses a time -/

theorem parseNanosIn_confined_iff (text : List Byte) :
    Slice.Confined parseNanosIn text ↔ text ≠ [] := by
  constructor
  · rintro confined rfl
    exact Slice.not_confined_of_alone (parseNanosIn_of_empty (last_alone []) rfl) confined
  · intro begins
    refine ⟨parseNanos text none, fun sv is_text => ?_⟩
    rw [parseNanosIn_eq (by rwa [is_text]) none, is_text]

theorem parseTimeOnlyIn_confined_iff (text : List Byte) :
    Slice.Confined parseTimeOnlyIn text ↔ ¬EndsAtPoint text := by
  constructor
  · intro confined ends
    refine Slice.not_confined_of_alone ?_ confined
    exact parseTimeOnlyIn_of_endsAtPoint (last_alone text) (by rwa [Slice.text_alone])
  · intro complete
    refine ⟨parseTimeOnly text none, fun sv is_text => ?_⟩
    rw [parseTimeOnlyIn_eq (by rwa [is_text]) none, is_text]

theorem parseTimeIn_confined_iff (text : List Byte) :
    Slice.Confined parseTimeIn text ↔
      ¬((text[8]? = some '-'.toUInt8 ∨ text[8]? = some 'T'.toUInt8) ∧
        EndsAtPoint (text.drop 9)) := by
  constructor
  · rintro confined ⟨delimiter, ends⟩
    refine Slice.not_confined_of_alone ?_ confined
    exact parseTimeIn_of_endsAtPoint (last_alone text) (by rwa [Slice.text_alone])
      (by rwa [Slice.text_alone])
  · intro complete
    refine ⟨parseTime text none, fun sv is_text => ?_⟩
    rw [parseTimeIn_eq (by rwa [is_text]) none, is_text]

/--
Whatever encloses a text, each parser is defined and returns the same, exactly if no
time in it ends with its point, and, for `parse_nanos` itself, if there is a text.
-/
theorem parse_confined_iff (text : List Byte) :
    (Slice.Confined parseNanosIn text ↔ text ≠ []) ∧
      (Slice.Confined parseTimeOnlyIn text ↔ ¬EndsAtPoint text) ∧
        (Slice.Confined parseTimeIn text ↔
          ¬((text[8]? = some '-'.toUInt8 ∨ text[8]? = some 'T'.toUInt8) ∧
            EndsAtPoint (text.drop 9))) :=
  ⟨parseNanosIn_confined_iff text, parseTimeOnlyIn_confined_iff text,
    parseTimeIn_confined_iff text⟩

/-- Behind `12:00:00.` there is a field that begins with a digit, or one that does not. -/
theorem not_confined_noon :
    let noon : List Byte := [49, 50, 58, 48, 48, 58, 48, 48, 46]
    let before : Slice Byte := ⟨noon ++ [53, 1], 0, 9, by decide⟩
    let after : Slice Byte := ⟨noon ++ [1, 53], 0, 9, by decide⟩
    before.text = noon ∧ after.text = noon ∧
      parseTimeOnlyIn before = some (some (num 64 43200500000000)) ∧
        parseTimeOnlyIn after = some (some (num 64 43200000000000)) ∧
          ¬Slice.Confined parseTimeOnlyIn noon := by
  intro noon before after
  have beforeText : before.text = noon := by decide +kernel
  have afterText : after.text = noon := by decide +kernel
  have beforeTime : parseTimeOnlyIn before = some (some (num 64 43200500000000)) := by
    decide +kernel
  have afterTime : parseTimeOnlyIn after = some (some (num 64 43200000000000)) := by
    decide +kernel
  refine ⟨beforeText, afterText, beforeTime, afterTime, fun confined => ?_⟩
  have same := (Slice.confined_iff.mp confined).2 before after beforeText afterText
  rw [beforeTime, afterTime] at same
  exact absurd same (by decide)

end ReactiveToolbox.Sys
