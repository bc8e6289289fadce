import ReactiveToolbox.Sys.ParsedInstant

/-!
# The forms of parsed times

Every text of the documented form is given a value, also with a date of zeros, which
stands for the epoch, and with a point that no digits follow.  A text is given a value
if and only if it has the separators of the form in their places, with a time that has
its digits, and nothing behind it but a point and what follows: the digits of the date,
all ranges, and what follows the point are not checked.
-/

namespace ReactiveToolbox.Sys

open ReactiveToolbox.Io ReactiveToolbox.Lib ReactiveToolbox.Lib.CheckedInt

/-- The date that stands for the epoch. -/
def zeroDate : List Byte :=
  List.replicate 8 '0'.toUInt8

/-- The texts of dates that stand for something. -/
inductive DateForm : List Byte → Prop where
  | text (date : DateText) : DateForm date.text
  | zero : DateForm zeroDate

/-- The texts of times, which a point may end if what is behind it is not a digit. -/
inductive TimeForm (behind : Option Byte) : List Byte → Prop where
  | text (time : TimeText) : TimeForm behind time.text
  | point (time : TimeText) (c : Byte) (readable : behind = some c)
      (not_digit : isDigit c = false) : TimeForm behind (time.whole ++ ['.'.toUInt8])

/-- The documented texts, and those that the parser takes besides. -/
inductive UtcForm (behind : Option Byte) : List Byte → Prop where
  | date {date : List Byte} (form : DateForm date) : UtcForm behind date
  | time {date time : List Byte} (form : DateForm date) (separator : Separator)
      (timeForm : TimeForm behind time) : UtcForm behind (date ++ separator.char :: time)

/-- What is certain of a time that is given a value. -/
inductive TimeShape : List Byte → Prop where
  | intro {h₁ h₀ m₁ m₀ s₁ s₀ : Byte} {rest : List Byte}
      (digits : AllDigits [h₁, h₀, m₁, m₀, s₁, s₀])
      (end_or_point : rest = [] ∨ rest.head? = some '.'.toUInt8) :
      TimeShape (h₁ :: h₀ :: ':'.toUInt8 :: m₁ :: m₀ :: ':'.toUInt8 :: s₁ :: s₀ :: rest)

/-- What is certain of a text that is given a value. -/
inductive UtcShape : List Byte → Prop where
  | date {date : List Byte} (length : date.length = 8) : UtcShape date
  | time {date time : List Byte} (length : date.length = 8) (separator : Separator)
      (shape : TimeShape time) : UtcShape (date ++ separator.char :: time)

theorem DateForm.length {date : List Byte} (form : DateForm date) : date.length = 8 := by
  cases form with
  | text date => exact date.length_text
  | zero => rfl

theorem TimeForm.parsed {behind : Option Byte} {text : List Byte} (form : TimeForm behind text) :
    ∃ ns, parseTimeOnly text behind = some ⟨some ns⟩ := by
  cases form with
  | text time =>
      have seconds := time.seconds_bounds
      have nanos := time.nanos_bounds
      refine ⟨time.nanos, ?_⟩
      rw [time.parseTimeOnly_text, num_eq_some_iff.mpr (by omega)]
  | point time c readable not_digit =>
      have seconds := time.seconds_bounds
      refine ⟨time.seconds * 1000000000, ?_⟩
      rw [readable, time.parseTimeOnly_point not_digit, num_eq_some_iff.mpr (by omega)]

theorem UtcForm.parsed {behind : Option Byte} {text : List Byte} (form : UtcForm behind text) :
    (parseTime text behind).isSome = true := by
  cases form with
  | date form =>
      have ended := parseTime_append form.length [] behind
      rw [List.append_nil] at ended
      rw [ended]
      rfl
  | time form separator timeForm =>
      obtain ⟨ns, parsed⟩ := timeForm.parsed
      rw [parseTime_append form.length]
      simp only [parsed]
      cases separator <;> rfl

/-- The digits and the colons are checked one by one. -/
theorem TimeShape.of_parsed {behind : Option Byte} {text : List Byte}
    (parsed : (parseTimeOnly text behind).isSome = true) : TimeShape text := by
  unfold parseTimeOnly at parsed
  split at parsed
  · rename_i h₁ h₀ c₂ m₁ m₀ c₅ s₁ s₀ rest
    split_ifs at parsed with invalid
    · cases parsed
    · simp only [Bool.or_eq_true, Bool.not_eq_true', decide_eq_true_eq, not_or,
        Bool.not_eq_false, ne_eq, not_not] at invalid
      obtain ⟨⟨⟨⟨⟨⟨⟨h₁_digit, h₀_digit⟩, colon₂⟩, m₁_digit⟩, m₀_digit⟩, colon₅⟩, s₁_digit⟩,
        s₀_digit⟩ := invalid
      subst colon₂ colon₅
      constructor
      · intro c member
        simp only [List.mem_cons, List.not_mem_nil, or_false] at member
        rcases member with rfl | rfl | rfl | rfl | rfl | rfl <;> assumption
      · cases rest with
        | nil => exact .inl rfl
        | cons c fraction =>
            by_cases point : c = '.'.toUInt8
            · exact .inr (congrArg some point)
            · simp [point] at parsed
  · cases parsed

theorem UtcShape.of_parsed {behind : Option Byte} {text : List Byte}
    (parsed : (parseTime text behind).isSome = true) : UtcShape text := by
  have long : 8 ≤ text.length := by
    by_contra short
    rw [parseTime, if_pos (by omega)] at parsed
    cases parsed
  have length : (text.take 8).length = 8 := by
    rw [List.length_take]
    omega
  have split := List.take_append_drop 8 text
  rw [← split, parseTime_append length] at parsed
  cases rest : text.drop 8 with
  | nil =>
      rw [rest, List.append_nil] at split
      rw [← split]
      exact .date length
  | cons c time =>
      rw [rest] at parsed split
      rw [← split]
      cases only : parseTimeOnly time behind with
      | none => simp [only] at parsed
      | some ns =>
          have shape : TimeShape time := .of_parsed (by rw [only]; rfl)
          by_cases dash : c = '-'.toUInt8
          · rw [dash]
            exact .time length .dash shape
          · by_cases letter : c = 'T'.toUInt8
            · rw [letter]
              exact .time length .letter shape
            · simp [dash, letter] at parsed

/-- What is given a value, by `parse_time_only` and by `parse_time`. -/
theorem parsed_forms (text : List Byte) (behind : Option Byte) :
    (TimeForm behind text → ∃ ns, parseTimeOnly text behind = some ⟨some ns⟩) ∧
      ((parseTimeOnly text behind).isSome = true → TimeShape text) ∧
      (UtcForm behind text → (parseTime text behind).isSome = true) ∧
      ((parseTime text behind).isSome = true → UtcShape text) :=
  ⟨TimeForm.parsed, TimeShape.of_parsed, UtcForm.parsed, UtcShape.of_parsed⟩

/-- Zeros are given a value, although no date is written so. -/
theorem parseTime_zeroDate :
    parseTime zeroDate none = some 0 ∧ ¬ ∃ date : DateText, date.text = zeroDate := by
  constructor
  · decide
  · rintro ⟨date, text⟩
    have month : date.month = (zeroDate.drop 4).take 2 := by
      rw [← text, DateText.text, List.append_assoc, List.drop_left' date.year_field.length,
        List.take_left' date.month_field.length]
    have least := date.month_field.least
    rw [month] at least
    exact absurd least (by decide)

/-! ## The documented texts -/

/-- A time of the documentation, with digits behind the point if there is one. -/
def IsTime (text : List Byte) : Prop :=
  ∃ time : TimeText, time.text = text

/-- A date of the documentation, on its own or with such a time. -/
inductive IsTimestamp : List Byte → Prop where
  | date (date : DateText) : IsTimestamp date.text
  | time (date : DateText) (separator : Separator) {time : List Byte} (isTime : IsTime time) :
      IsTimestamp (date.text ++ separator.char :: time)

/-- A field of two digits has a number of a range. -/
def FieldWithin (least most : ℤ) (field : List Byte) : Prop :=
  least ≤ number field ∧ number field ≤ most

instance (least most : ℤ) (field : List Byte) : Decidable (FieldWithin least most field) :=
  instDecidableAnd

/-- What the parser leaves unchecked in a time: its ranges, and what is behind its point. -/
structure TimeRanges (text : List Byte) : Prop where
  hour : FieldWithin 0 23 (text.take 2)
  minute : FieldWithin 0 59 ((text.drop 3).take 2)
  second : FieldWithin 0 60 ((text.drop 6).take 2)
  fraction : text.drop 8 = [] ∨ (text.drop 9 ≠ [] ∧ AllDigits (text.drop 9))

/-- What the parser leaves unchecked in a date: its digits and its ranges. -/
structure DateRanges (text : List Byte) : Prop where
  digits : AllDigits (text.take 8)
  month : FieldWithin 1 12 ((text.drop 4).take 2)
  day : FieldWithin 1 31 ((text.drop 6).take 2)

/-- Both parsers return a value exactly for the documented texts. -/
structure AcceptsDocumented (text : List Byte) (behind : Option Byte) : Prop where
  timestamp : (parseTime text behind).isSome = true ↔ IsTimestamp text
  time : (parseTimeOnly text behind).isSome = true ↔ IsTime text

/-- A text of the shape that is checked is as documented in what is not checked. -/
structure Kept (text : List Byte) : Prop where
  time : TimeShape text → TimeRanges text
  date : UtcShape text → DateRanges text
  timeBehind : UtcShape text → 8 < text.length → TimeRanges (text.drop 9)

theorem Field.within {least most : ℤ} {field : List Byte} (is_ : Field 2 least most field) :
    FieldWithin least most field :=
  is_.bounds

theorem Field.of_within {least most : ℤ} {field : List Byte} (length : field.length = 2)
    (digits : AllDigits field) (within : FieldWithin least most field) :
    Field 2 least most field :=
  ⟨length, digits, within.1, within.2⟩

/-- Only the shape is asked for. -/
theorem parseTimeOnly_isSome_iff (text : List Byte) (behind : Option Byte) :
    (parseTimeOnly text behind).isSome = true ↔ TimeShape text := by
  refine ⟨TimeShape.of_parsed, ?_⟩
  rintro ⟨digits, ending⟩
  rename_i h₁ h₀ m₁ m₀ s₁ s₀ rest
  have each : ∀ c ∈ [h₁, h₀, m₁, m₀, s₁, s₀], isDigit c = true := digits
  simp only [List.forall_mem_cons] at each
  obtain ⟨hour₁, hour₀, minute₁, minute₀, second₁, second₀, -⟩ := each
  simp only [parseTimeOnly, hour₁, hour₀, minute₁, minute₀, second₁, second₀]
  cases rest with
  | nil => rfl
  | cons c fraction =>
      have point : c = '.'.toUInt8 := by
        rcases ending with none | point
        · cases none
        · exact Option.some.inj point
      rw [point]
      rfl

theorem isTime_iff (text : List Byte) : IsTime text ↔ TimeShape text ∧ TimeRanges text := by
  constructor
  · rintro ⟨time, rfl⟩
    obtain ⟨h₁, h₀, hour, h₁_digit, h₀_digit, -⟩ := time.hour_field.two_digits
    obtain ⟨m₁, m₀, minute, m₁_digit, m₀_digit, -⟩ := time.minute_field.two_digits
    obtain ⟨s₁, s₀, second, s₁_digit, s₀_digit, -⟩ := time.second_field.two_digits
    have hours := time.hour_field.within
    have minutes := time.minute_field.within
    have seconds := time.second_field.within
    have digits : AllDigits [h₁, h₀, m₁, m₀, s₁, s₀] := by
      simp [AllDigits, h₁_digit, h₀_digit, m₁_digit, m₀_digit, s₁_digit, s₀_digit]
    rw [hour] at hours
    rw [minute] at minutes
    rw [second] at seconds
    rw [TimeText.text, TimeText.whole, hour, minute, second]
    by_cases none : time.fraction = []
    · rw [if_pos none]
      exact ⟨⟨digits, .inl rfl⟩, hours, minutes, seconds, .inl rfl⟩
    · rw [if_neg none]
      exact ⟨⟨digits, .inr rfl⟩, hours, minutes, seconds, .inr ⟨none, time.fraction_digits⟩⟩
  · rintro ⟨⟨digits, ending⟩, ranges⟩
    rename_i h₁ h₀ m₁ m₀ s₁ s₀ rest
    have each : ∀ c ∈ [h₁, h₀, m₁, m₀, s₁, s₀], isDigit c = true := digits
    simp only [List.forall_mem_cons] at each
    obtain ⟨hour₁, hour₀, minute₁, minute₀, second₁, second₀, -⟩ := each
    have pair {c d : Byte} (first : isDigit c = true) (second : isDigit d = true) :
        AllDigits [c, d] := by
      simp [AllDigits, first, second]
    have fraction : AllDigits (rest.drop 1) ∧
        rest = if rest.drop 1 = [] then [] else '.'.toUInt8 :: rest.drop 1 := by
      rcases ranges.fraction with none | ⟨some_, all⟩
      · have nothing : rest = [] := none
        rw [nothing]
        exact ⟨by simp [AllDigits], rfl⟩
      · refine ⟨all, ?_⟩
        rw [if_neg (by exact some_)]
        cases rest with
        | nil => exact absurd rfl some_
        | cons c fraction =>
            rcases ending with none | point
            · cases none
            · rw [Option.some.inj point]
              rfl
    refine ⟨{
      hour := [h₁, h₀], minute := [m₁, m₀], second := [s₁, s₀], fraction := rest.drop 1
      hour_field := .of_within rfl (pair hour₁ hour₀) ranges.hour
      minute_field := .of_within rfl (pair minute₁ minute₀) ranges.minute
      second_field := .of_within rfl (pair second₁ second₀) ranges.second
      fraction_digits := fraction.1 }, ?_⟩
    conv_rhs => rw [fraction.2]
    rfl

theorem parseTime_isSome_iff (text : List Byte) (behind : Option Byte) :
    (parseTime text behind).isSome = true ↔ UtcShape text := by
  refine ⟨UtcShape.of_parsed, ?_⟩
  intro shape
  cases shape with
  | date length =>
      have ended := parseTime_append length [] behind
      rw [List.append_nil] at ended
      rw [ended]
      rfl
  | time length separator shape =>
      obtain ⟨ns, parsed⟩ :=
        Option.isSome_iff_exists.mp ((parseTimeOnly_isSome_iff _ behind).mpr shape)
      rw [parseTime_append length]
      simp only [parsed]
      cases separator <;> rfl

/-- Eight characters are a date where they are as documented. -/
theorem dateText_iff {text : List Byte} (length : text.length = 8) :
    (∃ date : DateText, date.text = text) ↔ DateRanges text := by
  constructor
  · rintro ⟨date, rfl⟩
    have year := date.year_field
    have month := date.month_field
    have day := date.day_field
    have split : date.text = date.year ++ (date.month ++ date.day) := List.append_assoc ..
    refine ⟨?_, ?_, ?_⟩
    · rw [List.take_of_length_le (Nat.le_of_eq length), DateText.text]
      exact List.forall_mem_append.mpr
        ⟨List.forall_mem_append.mpr ⟨year.digits, month.digits⟩, day.digits⟩
    · rw [split, List.drop_left' year.length, List.take_left' month.length]
      exact month.within
    · rw [DateText.text, List.drop_left' (by rw [List.length_append, year.length, month.length]),
        List.take_of_length_le (Nat.le_of_eq day.length)]
      exact day.within
  · intro ranges
    have all : AllDigits text := by
      have digits := ranges.digits
      rwa [List.take_of_length_le (Nat.le_of_eq length)] at digits
    have part {part : List Byte} (sub : part.Sublist text) : AllDigits part :=
      fun c member => all c (sub.subset member)
    have year : AllDigits (text.take 4) := part (List.take_sublist 4 text)
    have years := number_bounds year
    have four : (text.take 4).length = 4 := by
      rw [List.length_take]
      omega
    rw [four] at years
    have rest : text.drop 6 = (text.drop 6).take 2 := by
      rw [List.take_of_length_le]
      rw [List.length_drop]
      omega
    refine ⟨{
      year := text.take 4, month := (text.drop 4).take 2, day := (text.drop 6).take 2
      year_field := ⟨four, year, years.1, Int.le_of_lt_add_one years.2⟩
      month_field := .of_within ?_ (part ?_) ranges.month
      day_field := .of_within ?_ (part ?_) ranges.day }, ?_⟩
    · rw [List.length_take, List.length_drop]
      omega
    · exact (List.take_sublist 2 _).trans (List.drop_sublist 4 text)
    · rw [List.length_take, List.length_drop]
      omega
    · exact (List.take_sublist 2 _).trans (List.drop_sublist 6 text)
    · change text.take 4 ++ (text.drop 4).take 2 ++ (text.drop 6).take 2 = text
      rw [← rest, List.append_assoc, ← List.drop_drop (i := 2) (j := 4), List.take_append_drop,
        List.take_append_drop]

theorem dateRanges_append {date : List Byte} (length : date.length = 8) (rest : List Byte) :
    DateRanges (date ++ rest) ↔ DateRanges date := by
  have whole : (date ++ rest).take 8 = date.take 8 := by
    rw [List.take_left' length, List.take_of_length_le (Nat.le_of_eq length)]
  have part {places : Nat} (within : places ≤ 6) :
      ((date ++ rest).drop places).take 2 = (date.drop places).take 2 := by
    rw [List.drop_append_of_le_length (by omega), List.take_append_of_le_length]
    rw [List.length_drop]
    omega
  have month := part (Nat.le.intro rfl : 4 ≤ 4 + 2)
  have day := part (Nat.le_refl 6)
  constructor
  · rintro ⟨digits, months, days⟩
    exact ⟨whole ▸ digits, month ▸ months, day ▸ days⟩
  · rintro ⟨digits, months, days⟩
    exact ⟨whole ▸ digits, month ▸ months, day ▸ days⟩

theorem isTimestamp_iff (text : List Byte) :
    IsTimestamp text ↔
      UtcShape text ∧ DateRanges text ∧ (8 < text.length → TimeRanges (text.drop 9)) := by
  constructor
  · intro isTimestamp
    cases isTimestamp with
    | date date =>
        have length := date.length_text
        refine ⟨.date length, (dateText_iff length).mp ⟨date, rfl⟩, fun longer => ?_⟩
        exact absurd length (Nat.ne_of_gt longer)
    | @time date separator time isTime =>
        have length := date.length_text
        obtain ⟨shape, ranges⟩ := (isTime_iff time).mp isTime
        refine ⟨.time length separator shape, ?_, fun _ => ?_⟩
        · exact (dateRanges_append length _).mpr ((dateText_iff length).mp ⟨date, rfl⟩)
        · rw [List.drop_append, length]
          rw [List.drop_eq_nil_of_le (by omega)]
          exact ranges
  · rintro ⟨shape, ranges, times⟩
    cases shape with
    | date length =>
        obtain ⟨date, rfl⟩ := (dateText_iff length).mpr ranges
        exact .date date
    | @time date time length separator shape =>
        obtain ⟨date, rfl⟩ := (dateText_iff length).mpr ((dateRanges_append length _).mp ranges)
        have longer : 8 < (date.text ++ separator.char :: time).length := by
          rw [List.length_append, List.length_cons, length]
          omega
        have behind : (date.text ++ separator.char :: time).drop 9 = time := by
          rw [List.drop_append, length, List.drop_eq_nil_of_le (by omega)]
          rfl
        have within := times longer
        rw [behind] at within
        exact .time date separator ((isTime_iff time).mpr ⟨shape, within⟩)

/-- The parsers and the documentation differ exactly where a range or a digit is unchecked. -/
theorem acceptsDocumented_iff (text : List Byte) (behind : Option Byte) :
    AcceptsDocumented text behind ↔ Kept text := by
  have time : ((parseTimeOnly text behind).isSome = true ↔ IsTime text) ↔
      (TimeShape text → TimeRanges text) := by
    rw [parseTimeOnly_isSome_iff, isTime_iff]
    exact iff_self_and
  have timestamp : ((parseTime text behind).isSome = true ↔ IsTimestamp text) ↔
      (UtcShape text → DateRanges text ∧ (8 < text.length → TimeRanges (text.drop 9))) := by
    rw [parseTime_isSome_iff, isTimestamp_iff]
    exact iff_self_and
  constructor
  · intro accepts
    have dates := timestamp.mp accepts.timestamp
    exact ⟨time.mp accepts.time, fun shape => (dates shape).1, fun shape => (dates shape).2⟩
  · intro kept
    exact ⟨timestamp.mpr fun shape => ⟨kept.date shape, kept.timeBehind shape⟩,
      time.mpr kept.time⟩

/-- A day of a thirteenth month. -/
def thirteenthMonth : List Byte :=
  ['2', '0', '1', '8', '1', '3', '9', '9'].map Char.toUInt8

theorem parseTime_thirteenthMonth :
    (parseTime thirteenthMonth none).isSome = true ∧ ¬ AcceptsDocumented thirteenthMonth none := by
  have accepted : (parseTime thirteenthMonth none).isSome = true := by decide
  refine ⟨accepted, fun accepts => ?_⟩
  have ranges := ((isTimestamp_iff _).mp (accepts.timestamp.mp accepted)).2.1
  exact absurd ranges.month (by decide)

end ReactiveToolbox.Sys
