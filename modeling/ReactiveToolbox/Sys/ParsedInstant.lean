import ReactiveToolbox.Sys.TimeText

/-!
# The instants of parsed times

The instant of a text is counted from the epoch in nanoseconds.  The parser goes by
the noon and then the midnight of its day, so that it finds the instant exactly when
these are in the range of 64 bits along with it.
-/

namespace ReactiveToolbox.Sys

open ReactiveToolbox.Io ReactiveToolbox.Lib ReactiveToolbox.Lib.CheckedInt

/-- What separates the time from the date. -/
inductive Separator where
  | dash
  | letter
  deriving DecidableEq

/-- The character of a separator. -/
def Separator.char : Separator → Byte
  | .dash => '-'.toUInt8
  | .letter => 'T'.toUInt8

/-- The text of a date from the year 1 on, with a time to the nanosecond at most. -/
structure UtcText extends DateText where
  date : GregorianDate
  year_eq : number year = date.year
  month_eq : number month = date.month
  day_eq : number day = date.day
  year_first : 1 ≤ date.year
  time : Option (Separator × TimeText)
  fraction_short : ∀ part ∈ time, part.2.fraction.length ≤ 9

namespace UtcText

/-- A date and a time as they are written. -/
def text (utc : UtcText) : List Byte :=
  utc.toDateText.text ++
    match utc.time with
    | none => []
    | some (separator, time) => separator.char :: time.text

/-- The nanoseconds from the epoch to the midnight that a date begins with. -/
def midnight (utc : UtcText) : ℤ :=
  (jdOf utc.date - 2440588) * 86400000000000

/-- The nanoseconds from the epoch to the instant of a text. -/
def instant (utc : UtcText) : ℤ :=
  utc.midnight +
    match utc.time with
    | none => 0
    | some (_, time) => time.nanos

end UtcText

/-! ## Dates -/

theorem DateText.length_text (date : DateText) : date.text.length = 8 := by
  rw [DateText.text, List.length_append, List.length_append, date.year_field.length,
    date.month_field.length, date.day_field.length]

theorem DateText.parseDate_text (date : DateText) :
    parseDate date.text =
      number date.year * 10000 + number date.month * 100 + number date.day := by
  have all : AllDigits date.text :=
    List.forall_mem_append.mpr
      ⟨List.forall_mem_append.mpr ⟨date.year_field.digits, date.month_field.digits⟩,
        date.day_field.digits⟩
  have value : number date.text =
      number date.year * 10000 + number date.month * 100 + number date.day := by
    rw [DateText.text, number_append, number_append, date.month_field.length,
      date.day_field.length]
    omega
  have year := date.year_field.most
  have month := date.month_field.most
  have day := date.day_field.most
  rw [parseDate, ston_digits all (by omega), value]

theorem jdToTime_num {jd : ℤ} (least : 0 ≤ jd) (most : jd < 100000000) :
    jdToTime (num 32 jd) =
      num 64 ((jd - 2440588) * 86400000000000 + 43200000000000) := by
  have msInDay : (24 * 60 * 60 * 1000 : CheckedInt 64) = num 64 86400000 := by
    decide
  have halfDay : num 64 86400000 / 2 = num 64 43200000 := by
    decide
  simp only [jdToTime, msInDay, halfDay]
  simp (disch := omega) only [ofNat_eq_num, num_sub, widen_num, num_mul, num_add]
  congr 1
  omega

namespace UtcText

variable (utc : UtcText)

theorem jd_bounds : 1721060 ≤ jdOf utc.date ∧ jdOf utc.date ≤ 80156521 := by
  have first := utc.year_first
  have most := utc.year_field.most
  have year := utc.year_eq
  exact jdOf_bounds (by omega) (by omega)

/-- The midnight is undefined also when the noon after it is. -/
theorem dateTime_text :
    dateTime utc.toDateText.text =
      if InRange 64 (utc.midnight + 43200000000000) then num 64 utc.midnight else undefined := by
  have first := utc.year_first
  have most := utc.year_field.most
  have year := utc.year_eq
  have bounds := utc.jd_bounds
  have iso : parseDate utc.toDateText.text = isoOf utc.date := by
    rw [DateText.parseDate_text, utc.year_eq, utc.month_eq, utc.day_eq]
    rfl
  have iso_bounds := isoOf_bounds utc.date (by omega) (by omega)
  rw [dateTime, iso, if_pos (by omega), isoToJd_num utc.date (by omega) (by omega),
    jdToTime_num (by omega) (by omega)]
  change num 64 (utc.midnight + 43200000000000) - _ = _
  by_cases noon : InRange 64 (utc.midnight + 43200000000000)
  · rw [if_pos noon]
    simp (disch := omega) only [ofNat_eq_num, num_sub]
    rw [Int.add_sub_cancel]
  · rw [if_neg noon, num_of_not noon, undefined_sub]

theorem parseTime_text (behind : Option Byte) :
    parseTime utc.text behind =
      match utc.time with
      | none => some (dateTime utc.toDateText.text)
      | some (_, time) => some (dateTime utc.toDateText.text + num 64 time.nanos) := by
  rw [text, parseTime_append utc.toDateText.length_text]
  cases utc.time with
  | none => rfl
  | some part =>
      obtain ⟨separator, time⟩ := part
      simp only [time.parseTimeOnly_text]
      cases separator <;> rfl

/-- The time of the day is added to a midnight in range. -/
theorem parseTime_eq (behind : Option Byte) (noon : InRange 64 (utc.midnight + 43200000000000))
    (midnight : InRange 64 utc.midnight) :
    parseTime utc.text behind = some (num 64 utc.instant) := by
  rw [utc.parseTime_text, utc.dateTime_text, if_pos noon, instant]
  cases utc.time with
  | none =>
      simp only
      rw [Int.add_zero]
  | some part =>
      have seconds := part.2.seconds_bounds
      have nanos := part.2.nanos_bounds
      simp only
      rw [num_add midnight (by omega)]

theorem parseTime_undefined (behind : Option Byte)
    (date : dateTime utc.toDateText.text = undefined) :
    parseTime utc.text behind = some undefined := by
  rw [utc.parseTime_text, date]
  cases utc.time with
  | none => rfl
  | some part => simp only [undefined_add]

theorem instant_bounds :
    utc.midnight ≤ utc.instant ∧ utc.instant ≤ utc.midnight + 86401000000000 := by
  unfold instant
  cases utc.time with
  | none =>
      simp only
      omega
  | some part =>
      have seconds := part.2.seconds_bounds
      have nanos := part.2.nanos_bounds
      simp only
      omega

/--
The instant is found exactly if the midnight before it and the instant itself have
64 bits, which is from 1677-09-22 on and up to 2262-04-11T23:47:16.854775807.
-/
theorem parseTime_exact_iff (behind : Option Byte) :
    parseTime utc.text behind = some ⟨some utc.instant⟩ ↔
      -2 ^ 63 ≤ utc.midnight ∧ utc.instant < 2 ^ 63 := by
  have bounds := utc.instant_bounds
  have days : utc.midnight = (jdOf utc.date - 2440588) * 86400000000000 := rfl
  have date := utc.dateTime_text
  by_cases exact_date : InRange 64 (utc.midnight + 43200000000000) ∧ InRange 64 utc.midnight
  · rw [utc.parseTime_eq behind exact_date.1 exact_date.2, Option.some_inj, num_eq_some_iff]
    omega
  · have undefined_date : dateTime utc.toDateText.text = undefined := by
      rw [date]
      split_ifs with noon
      · exact num_of_not fun midnight => exact_date ⟨noon, midnight⟩
      · rfl
    rw [utc.parseTime_undefined behind undefined_date]
    constructor
    · intro same
      cases same
    · rintro ⟨least, most⟩
      exact absurd ⟨by omega, by omega⟩ exact_date

/-- The last midnight of the documented years overflows. -/
theorem parseTime_last_year :
    ∃ utc : UtcText,
      utc.text = ['9', '9', '9', '9', '1', '2', '3', '1'].map Char.toUInt8 ∧
        parseTime utc.text none = some undefined := by
  let utc : UtcText :=
    { year := ['9', '9', '9', '9'].map Char.toUInt8
      month := ['1', '2'].map Char.toUInt8
      day := ['3', '1'].map Char.toUInt8
      year_field := ⟨rfl, by decide, by decide, by decide⟩
      month_field := ⟨rfl, by decide, by decide, by decide⟩
      day_field := ⟨rfl, by decide, by decide, by decide⟩
      date := ⟨9999, 12, 31, by decide, by decide, by decide, by decide⟩
      year_eq := by decide
      month_eq := by decide
      day_eq := by decide
      year_first := by decide
      time := none
      fraction_short := by simp }
  exact ⟨utc, rfl, by decide⟩

end UtcText

end ReactiveToolbox.Sys
