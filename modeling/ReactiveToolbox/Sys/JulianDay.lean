import Mathlib.Logic.Function.Iterate
import ReactiveToolbox.Lib.CheckedInt
import ReactiveToolbox.Lib.Gregorian

/-!
# Julian days

Conversions between dates in the form of ISO 8601 and Julian days, with the
arithmetic of `int`.  The formulas count the years from March on, so that the day
that a leap year adds is the last of its year.
-/

namespace ReactiveToolbox.Sys

open ReactiveToolbox.Lib ReactiveToolbox.Lib.CheckedInt

/-- An `int`. -/
abbrev CInt := CheckedInt 32

/-- `ymd_to_jd`. -/
def ymdToJd (year mon mday : CInt) : CInt :=
  let i := year
  let j := mon
  let k := mday
  k - 32075 + 1461 * (i + 4800 + (j - 14) / 12) / 4
    + 367 * (j - 2 - (j - 14) / 12 * 12) / 12
    - 3 * ((i + 4900 + (j - 14) / 12) / 100) / 4

/-- `iso_to_jd`. -/
def isoToJd (iso : CInt) : CInt :=
  let n := iso
  let year := n / 10000
  let mon := n / 100 % 100
  let mday := n % 100
  ymdToJd year mon mday

/-- `jd_to_iso`. -/
def jdToIso (jd : CInt) : CInt :=
  let l := jd + 68569
  let n := 4 * l / 146097
  let l := l - (146097 * n + 3) / 4
  let i := 4000 * (l + 1) / 1461001
  let l := l - 1461 * i / 4 + 31
  let j := 80 * l / 2447
  let k := l - 2447 * j / 80
  let l := j / 11
  let j := j + 2 - 12 * l
  let i := 100 * (n - 49) + i + l
  i * 10000 + j * 100 + k

/-! ## Years from March on -/

/-- The years before March belong to the year before. -/
def marchYear (date : GregorianDate) : ℤ :=
  date.year - (14 - date.month) / 12

/-- The months from March on. -/
def marchMonth (date : GregorianDate) : ℤ :=
  date.month - 2 + (14 - date.month) / 12 * 12

/-- A year from March on, in its four hundred years, its century, and its four years. -/
structure YearParts (year era century olympiad rest : ℤ) : Prop where
  century_first : 0 ≤ century
  century_last : century ≤ 3
  olympiad_first : 0 ≤ olympiad
  olympiad_last : olympiad ≤ 24
  rest_first : 0 ≤ rest
  rest_last : rest ≤ 3
  year_eq : year + 4800 = 400 * era + 100 * century + 4 * olympiad + rest

/-- The days of the years before one. -/
def yearDays (year : ℤ) : ℤ :=
  1461 * (year + 4800) / 4 - 3 * ((year + 4900) / 100) / 4

/-- Every year has its era, century, four years and the rest. -/
theorem exists_yearParts (year : ℤ) :
    ∃ era century olympiad rest, YearParts year era century olympiad rest := by
  refine ⟨(year + 4800) / 400, (year + 4800) % 400 / 100, (year + 4800) % 100 / 4,
    (year + 4800) % 4, ?_⟩
  constructor <;> omega

variable {year era century olympiad rest : ℤ}

theorem yearDays_parts (parts : YearParts year era century olympiad rest) :
    yearDays year = 146097 * era + 36524 * century + 1461 * olympiad + 365 * rest := by
  obtain ⟨century_first, century_last, olympiad_first, olympiad_last, rest_first, rest_last,
    year_eq⟩ := parts
  have days : 1461 * (year + 4800) / 4 =
      146100 * era + 36525 * century + 1461 * olympiad + 365 * rest := by
    rw [year_eq]
    omega
  have centuries : (year + 4900) / 100 = 4 * era + century + 1 := by
    omega
  have skipped : 3 * (4 * era + century + 1) / 4 = 3 * era + century := by
    omega
  rw [yearDays, days, centuries, skipped]
  omega

theorem isLeap_parts (parts : YearParts year era century olympiad rest) :
    IsLeap (year + 1) ↔ rest = 3 ∧ (olympiad = 24 → century = 3) := by
  obtain ⟨century_first, century_last, olympiad_first, olympiad_last, rest_first, rest_last,
    year_eq⟩ := parts
  unfold IsLeap
  constructor
  · intro leap
    omega
  · rintro ⟨last, whole⟩
    omega

/-- A year that ends with the February of a leap year is a day longer. -/
theorem yearDays_succ (year : ℤ) :
    yearDays (year + 1) = yearDays year + if IsLeap (year + 1) then 366 else 365 := by
  obtain ⟨era, century, olympiad, rest, parts⟩ := exists_yearParts year
  have leap := isLeap_parts parts
  rw [yearDays_parts parts]
  obtain ⟨century_first, century_last, olympiad_first, olympiad_last, rest_first, rest_last,
    year_eq⟩ := parts
  by_cases rest_more : rest < 3
  · have next : YearParts (year + 1) era century olympiad (rest + 1) := by
      constructor <;> omega
    rw [yearDays_parts next, if_neg (by rw [leap]; omega)]
    omega
  by_cases olympiad_more : olympiad < 24
  · have next : YearParts (year + 1) era century (olympiad + 1) 0 := by
      constructor <;> omega
    rw [yearDays_parts next, if_pos (by rw [leap]; omega)]
    omega
  by_cases century_more : century < 3
  · have next : YearParts (year + 1) era (century + 1) 0 0 := by
      constructor <;> omega
    rw [yearDays_parts next, if_neg (by rw [leap]; omega)]
    omega
  · have next : YearParts (year + 1) (era + 1) 0 0 0 := by
      constructor <;> omega
    rw [yearDays_parts next, if_pos (by rw [leap]; omega)]
    omega

/-! ## Dates -/

/-- The form of a date that its digits have. -/
def isoOf (date : GregorianDate) : ℤ :=
  date.year * 10000 + date.month * 100 + date.day

/-- The Julian day of a date. -/
def jdOf (date : GregorianDate) : ℤ :=
  date.day - 32075 + 367 * marchMonth date / 12 + yearDays (marchYear date)

theorem marchMonth_bounds (date : GregorianDate) :
    1 ≤ marchMonth date ∧ marchMonth date ≤ 12 := by
  have first := date.month_first
  have last := date.month_last
  unfold marchMonth
  omega

/-- The length of the months from March on, which a formula without cases counts. -/
theorem marchMonth_length (year : ℤ) {month : ℤ} (first : 1 ≤ month) (last : month < 12)
    (not_february : month ≠ 2) :
    367 * (month + 1 - 2 + (14 - (month + 1)) / 12 * 12) / 12 =
      367 * (month - 2 + (14 - month) / 12 * 12) / 12 + daysInMonth year month := by
  have months : month = 1 ∨ month = 3 ∨ month = 4 ∨ month = 5 ∨ month = 6 ∨ month = 7 ∨
      month = 8 ∨ month = 9 ∨ month = 10 ∨ month = 11 := by
    omega
  rcases months with rfl | rfl | rfl | rfl | rfl | rfl | rfl | rfl | rfl | rfl <;> rfl

/-- The next day has the next number. -/
theorem jdOf_next (date : GregorianDate) : jdOf date.next = jdOf date + 1 := by
  have first := date.month_first
  rcases date.next_cases with
    ⟨-, year, month, day⟩ | ⟨length, within, year, month, day⟩ |
    ⟨length, december, year, month, day⟩
  · simp only [jdOf, marchMonth, marchYear, year, month, day]
    omega
  · by_cases february : date.month = 2
    · have longer := yearDays_succ (date.year - 1)
      rw [Int.sub_add_cancel] at longer
      rw [february, daysInMonth, if_pos rfl] at length
      have years : marchYear date = date.year - 1 ∧ marchYear date.next = date.year := by
        unfold marchYear
        omega
      have months : marchMonth date = 12 ∧ marchMonth date.next = 1 := by
        unfold marchMonth
        omega
      rw [jdOf, jdOf, years.1, years.2, months.1, months.2, day, longer]
      split_ifs at length ⊢ <;> omega
    · have longer := marchMonth_length date.year first within february
      have years : marchYear date.next = marchYear date := by
        unfold marchYear
        omega
      rw [← month] at longer
      change 367 * marchMonth date.next / 12 = 367 * marchMonth date / 12 + _ at longer
      rw [jdOf, jdOf, years, longer, day]
      omega
  · have thirty_one : daysInMonth date.year 12 = 31 := rfl
    rw [december, thirty_one] at length
    have years : marchYear date.next = marchYear date := by
      unfold marchYear
      omega
    have months : marchMonth date = 10 ∧ marchMonth date.next = 11 := by
      unfold marchMonth
      omega
    rw [jdOf, jdOf, years, months.1, months.2, day, length]
    omega

/-- The Julian days count the dates. -/
theorem jdOf_iterate (count : Nat) (date : GregorianDate) :
    jdOf (GregorianDate.next^[count] date) = jdOf date + count := by
  induction count generalizing date with
  | zero => exact (Int.add_zero _).symm
  | succ count continued =>
      rw [Function.iterate_succ_apply, continued, jdOf_next]
      omega

/-! ## The formulas -/

theorem shift_num {month : ℤ} (first : 1 ≤ month) (last : month ≤ 12) :
    (num 32 month - 14) / 12 = num 32 (-((14 - month) / 12)) := by
  have towards_zero : (month - 14).tdiv 12 = -((14 - month) / 12) := by
    rw [show month - 14 = -(14 - month) by omega, Int.neg_tdiv,
      Int.tdiv_eq_ediv_of_nonneg (by omega)]
  rw [← towards_zero]
  simp (disch := omega) only [ofNat_eq_num, num_sub, num_div]

/-- `ymd_to_jd` is exact for dates up to the year 214749. -/
theorem ymdToJd_num (date : GregorianDate) (since : 0 ≤ date.year) (most : date.year ≤ 214749) :
    ymdToJd (num 32 date.year) (num 32 date.month) (num 32 date.day) = num 32 (jdOf date) := by
  obtain ⟨month_first, month_last⟩ := date.month_bounds
  obtain ⟨day_first, day_last⟩ := date.day_bounds
  simp only [ymdToJd, shift_num month_first month_last]
  simp (disch := omega) only [ofNat_eq_num, num_sub, num_add,
    num_mul, num_div_of_nonneg]
  rw [jdOf, yearDays, marchYear, marchMonth]
  have years : date.year + 4800 + -((14 - date.month) / 12) =
      date.year - (14 - date.month) / 12 + 4800 := by
    omega
  have centuries : date.year + 4900 + -((14 - date.month) / 12) =
      date.year - (14 - date.month) / 12 + 4900 := by
    omega
  have months : date.month - 2 - -((14 - date.month) / 12) * 12 =
      date.month - 2 + (14 - date.month) / 12 * 12 := by
    omega
  rw [years, centuries, months]
  congr 1
  omega

theorem isoOf_bounds (date : GregorianDate) (since : 0 ≤ date.year) (most : date.year ≤ 214748) :
    101 ≤ isoOf date ∧ isoOf date ≤ 2147481231 := by
  obtain ⟨month_first, month_last⟩ := date.month_bounds
  obtain ⟨day_first, day_last⟩ := date.day_bounds
  unfold isoOf
  omega

/-- `iso_to_jd` is exact for dates up to the year 214748. -/
theorem isoToJd_num (date : GregorianDate) (since : 0 ≤ date.year) (most : date.year ≤ 214748) :
    isoToJd (num 32 (isoOf date)) = num 32 (jdOf date) := by
  obtain ⟨month_first, month_last⟩ := date.month_bounds
  obtain ⟨day_first, day_last⟩ := date.day_bounds
  have bounds := isoOf_bounds date since most
  have year : isoOf date / 10000 = date.year := by
    unfold isoOf
    omega
  have month : isoOf date / 100 % 100 = date.month := by
    unfold isoOf
    omega
  have day : isoOf date % 100 = date.day := by
    unfold isoOf
    omega
  rw [← ymdToJd_num date since (by omega), ← year, ← month, ← day, isoToJd]
  simp (disch := omega) only [ofNat_eq_num, num_div_of_nonneg, num_mod_of_nonneg]

/-! ## The way back -/

/-- The day of a date in its year from March on, the first of March being day 31. -/
def marchDay (date : GregorianDate) : ℤ :=
  date.day + 367 * marchMonth date / 12

theorem jdOf_eq (date : GregorianDate) :
    jdOf date = marchDay date - 32075 + yearDays (marchYear date) := by
  unfold jdOf marchDay
  omega

theorem daysInMonth_of_ne {year month : ℤ} (not_february : month ≠ 2) :
    daysInMonth year month =
      if month = 4 ∨ month = 6 ∨ month = 9 ∨ month = 11 then 30 else 31 := by
  rw [daysInMonth, if_neg not_february]

/-- The last day of a year from March on is the last of February. -/
theorem marchDay_bounds (date : GregorianDate) :
    31 ≤ marchDay date ∧
      marchDay date ≤ if IsLeap (marchYear date + 1) then 396 else 395 := by
  obtain ⟨month_first, month_last⟩ := date.month_bounds
  have day_first := date.day_first
  have day_last := date.day_last
  by_cases february : date.month = 2
  · have year : marchYear date + 1 = date.year := by
      unfold marchYear
      omega
    have month : marchMonth date = 12 := by
      unfold marchMonth
      omega
    rw [february, daysInMonth, if_pos rfl] at day_last
    rw [marchDay, month, year]
    split_ifs at day_last ⊢ <;> omega
  · have length := date.day_bounds.2
    have months : 1 ≤ marchMonth date ∧ marchMonth date ≤ 11 := by
      unfold marchMonth
      omega
    unfold marchDay
    split_ifs <;> omega

/-- The days of the months are counted in two ways. -/
theorem marchMonth_days (date : GregorianDate) :
    2447 * marchMonth date / 80 = 367 * marchMonth date / 12 := by
  obtain ⟨first, last⟩ := marchMonth_bounds date
  omega

/-- The month of a day of the year from March on. -/
theorem marchMonth_of_day (date : GregorianDate) :
    80 * marchDay date / 2447 = marchMonth date := by
  obtain ⟨month_first, month_last⟩ := date.month_bounds
  have day_first := date.day_first
  have day_last := date.day_last
  by_cases february : date.month = 2
  · have month : marchMonth date = 12 := by
      unfold marchMonth
      omega
    rw [february, daysInMonth, if_pos rfl] at day_last
    rw [marchDay, month]
    split_ifs at day_last <;> omega
  · rw [daysInMonth_of_ne february] at day_last
    have months : date.month = 1 ∨ date.month = 3 ∨ date.month = 4 ∨ date.month = 5 ∨
        date.month = 6 ∨ date.month = 7 ∨ date.month = 8 ∨ date.month = 9 ∨ date.month = 10 ∨
        date.month = 11 ∨ date.month = 12 := by
      omega
    unfold marchDay marchMonth
    rcases months with month | month | month | month | month | month | month | month | month |
      month | month <;> rw [month] at day_last ⊢ <;> omega

theorem marchYear_eq (date : GregorianDate) :
    marchYear date = date.year - marchMonth date / 11 := by
  obtain ⟨month_first, month_last⟩ := date.month_bounds
  unfold marchYear marchMonth
  omega

theorem month_eq (date : GregorianDate) :
    date.month = marchMonth date + 2 - 12 * (marchMonth date / 11) := by
  obtain ⟨month_first, month_last⟩ := date.month_bounds
  unfold marchMonth
  omega

/-- Later years have begun later. -/
theorem yearDays_mono {first second : ℤ} (ordered : first ≤ second) :
    yearDays first ≤ yearDays second := by
  induction second, ordered using Int.leInduction with
  | base => exact Int.le_refl _
  | succ second _ continued =>
      have longer := yearDays_succ second
      split_ifs at longer <;> omega

/-- The days of the dates whose forms fit. -/
theorem jdOf_bounds {date : GregorianDate} (since : 0 ≤ date.year) (most : date.year ≤ 214748) :
    1721060 ≤ jdOf date ∧ jdOf date ≤ 80156521 := by
  obtain ⟨day_first, day_last⟩ := date.day_bounds
  have year := marchYear_eq date
  have days := jdOf_eq date
  obtain ⟨month_first, month_last⟩ := marchMonth_bounds date
  have day : marchDay date = date.day + 367 * marchMonth date / 12 := rfl
  have last := (marchDay_bounds date).2
  have first_winter : yearDays (-1) = 1752798 := rfl
  have first_summer : yearDays 0 = 1753164 := rfl
  have last_winter : yearDays 214747 = 80187894 := rfl
  have last_summer : yearDays 214748 = 80188260 := rfl
  by_cases winter : marchMonth date ≤ 10
  · have after : yearDays 0 ≤ yearDays (marchYear date) := yearDays_mono (by omega)
    have before : yearDays (marchYear date) ≤ yearDays 214748 := yearDays_mono (by omega)
    omega
  · have after : yearDays (-1) ≤ yearDays (marchYear date) := yearDays_mono (by omega)
    have before : yearDays (marchYear date) ≤ yearDays 214747 := yearDays_mono (by omega)
    split_ifs at last <;> omega

/-- A date with the parts of its year from March on. -/
structure DateParts (date : GregorianDate) (era century olympiad rest : ℤ) : Prop extends
    YearParts (marchYear date) era century olympiad rest where
  day_first : 31 ≤ marchDay date
  /-- The last day of a year from March on is there in leap years only. -/
  day_last : marchDay date ≤ 395 ∨
    marchDay date = 396 ∧ rest = 3 ∧ (olympiad = 24 → century = 3)

theorem exists_dateParts (date : GregorianDate) :
    ∃ era century olympiad rest, DateParts date era century olympiad rest := by
  obtain ⟨era, century, olympiad, rest, parts⟩ := exists_yearParts (marchYear date)
  have leap := isLeap_parts parts
  obtain ⟨first, last⟩ := marchDay_bounds date
  refine ⟨era, century, olympiad, rest, parts, first, ?_⟩
  split_ifs at last with is_leap
  · have whole := leap.mp is_leap
    omega
  · exact .inl last

namespace DateParts

variable {date : GregorianDate}

/-- The day behind the centuries before it. -/
def dayOfCentury (date : GregorianDate) (olympiad rest : ℤ) : ℤ :=
  marchDay date - 31 + 1461 * olympiad + 365 * rest

theorem jd_eq (parts : DateParts date era century olympiad rest) :
    jdOf date + 68569 =
      dayOfCentury date olympiad rest + 146097 * era + 36524 * century + 36525 := by
  rw [jdOf_eq, yearDays_parts parts.toYearParts]
  unfold dayOfCentury
  omega

theorem dayOfCentury_bounds (parts : DateParts date era century olympiad rest) :
    0 ≤ dayOfCentury date olympiad rest ∧
      (dayOfCentury date olympiad rest < 36524 ∨
        dayOfCentury date olympiad rest = 36524 ∧ century = 3) := by
  obtain ⟨⟨-, -, olympiad_first, olympiad_last, rest_first, rest_last, -⟩, day_first,
    day_last⟩ := parts
  unfold dayOfCentury
  omega

/-- The first division finds the century. -/
theorem century_num (parts : DateParts date era century olympiad rest)
    (first : 1721060 ≤ jdOf date) (last : jdOf date ≤ 80156521) :
    4 * (num 32 (jdOf date) + 68569) / 146097 = num 32 (4 * era + century + 1) := by
  have century_first := parts.century_first
  have century_last := parts.century_last
  have day := parts.dayOfCentury_bounds
  have jd := parts.jd_eq
  have quotient : 4 * (jdOf date + 68569) / 146097 = 4 * era + century + 1 := by
    omega
  rw [← quotient]
  simp (disch := omega) only [ofNat_eq_num, num_add, num_mul, num_div_of_nonneg]

theorem dayOfCentury_num (parts : DateParts date era century olympiad rest)
    (first : 1721060 ≤ jdOf date) (last : jdOf date ≤ 80156521) :
    num 32 (jdOf date) + 68569 - (146097 * num 32 (4 * era + century + 1) + 3) / 4 =
      num 32 (dayOfCentury date olympiad rest) := by
  have century_first := parts.century_first
  have century_last := parts.century_last
  have day := parts.dayOfCentury_bounds
  have jd := parts.jd_eq
  have left : jdOf date + 68569 - (146097 * (4 * era + century + 1) + 3) / 4 =
      dayOfCentury date olympiad rest := by
    omega
  rw [← left]
  simp (disch := omega) only [ofNat_eq_num, num_add, num_sub, num_mul, num_div_of_nonneg]

/-- The second division finds the year. -/
theorem year_num (parts : DateParts date era century olympiad rest) :
    4000 * (num 32 (dayOfCentury date olympiad rest) + 1) / 1461001 =
      num 32 (4 * olympiad + rest) := by
  have day := parts.dayOfCentury_bounds
  have quotient :
      4000 * (dayOfCentury date olympiad rest + 1) / 1461001 = 4 * olympiad + rest := by
    obtain ⟨⟨-, -, olympiad_first, olympiad_last, rest_first, rest_last, -⟩, day_first,
      day_last⟩ := parts
    unfold dayOfCentury
    omega
  rw [← quotient]
  simp (disch := omega) only [ofNat_eq_num, num_add, num_mul, num_div_of_nonneg]

/-- The third division finds the day since March. -/
theorem marchDay_num (parts : DateParts date era century olympiad rest) :
    num 32 (dayOfCentury date olympiad rest) - 1461 * num 32 (4 * olympiad + rest) / 4 + 31 =
      num 32 (marchDay date) := by
  have day := parts.dayOfCentury_bounds
  obtain ⟨⟨-, -, olympiad_first, olympiad_last, rest_first, rest_last, -⟩, -, -⟩ := parts
  have left : dayOfCentury date olympiad rest - 1461 * (4 * olympiad + rest) / 4 + 31 =
      marchDay date := by
    unfold dayOfCentury
    omega
  rw [← left]
  simp (disch := omega) only [ofNat_eq_num, num_add, num_sub, num_mul, num_div_of_nonneg]

end DateParts

/-- `jd_to_iso` gives the date back. -/
theorem jdToIso_num (date : GregorianDate) (since : 0 ≤ date.year) (most : date.year ≤ 214748) :
    jdToIso (num 32 (jdOf date)) = num 32 (isoOf date) := by
  obtain ⟨first, last⟩ := jdOf_bounds since most
  obtain ⟨era, century, olympiad, rest, parts⟩ := exists_dateParts date
  obtain ⟨month_first, month_last⟩ := marchMonth_bounds date
  obtain ⟨day_first, day_last⟩ := date.day_bounds
  have month_of_day := marchMonth_of_day date
  have month_days := marchMonth_days date
  have day : marchDay date = date.day + 367 * marchMonth date / 12 := rfl
  have month_num : 80 * num 32 (marchDay date) / 2447 = num 32 (marchMonth date) := by
    rw [← month_of_day]
    simp (disch := omega) only [ofNat_eq_num, num_mul, num_div_of_nonneg]
  have year_of_century : 0 ≤ 4 * olympiad + rest ∧ 4 * olympiad + rest ≤ 99 := by
    obtain ⟨⟨-, -, olympiad_first, olympiad_last, rest_first, rest_last, -⟩, -, -⟩ := parts
    omega
  have year : 100 * (4 * era + century + 1 - 49) + (4 * olympiad + rest) +
      marchMonth date / 11 = date.year := by
    have year_eq := parts.year_eq
    rw [marchYear_eq] at year_eq
    omega
  have iso : (100 * (4 * era + century + 1 - 49) + (4 * olympiad + rest) +
        marchMonth date / 11) * 10000 +
      (marchMonth date + 2 - 12 * (marchMonth date / 11)) * 100 +
      (marchDay date - 2447 * marchMonth date / 80) = isoOf date := by
    rw [year, isoOf, month_eq date]
    omega
  simp only [jdToIso, parts.century_num first last, parts.dayOfCentury_num first last,
    parts.year_num, parts.marchDay_num, month_num]
  rw [← iso]
  simp (disch := omega) only [ofNat_eq_num, num_add, num_sub, num_mul, num_div_of_nonneg]

/-! ## All days -/

/-- The year of a date whose form fits. -/
theorem year_of_fits {date : GregorianDate} (fits : InRange 32 (isoOf date)) :
    date.year ≤ 214748 := by
  have month_first := date.month_first
  have day_first := date.day_first
  unfold isoOf at fits
  omega

theorem jdOf_of_eq {date : GregorianDate} {year month day : ℤ} (year_eq : date.year = year)
    (month_eq : date.month = month) (day_eq : date.day = day) :
    jdOf date = day - 32075 + 367 * (month - 2 + (14 - month) / 12 * 12) / 12 +
      yearDays (year - (14 - month) / 12) := by
  rw [jdOf, marchMonth, marchYear, year_eq, month_eq, day_eq]

/-- The first of January of the year 0. -/
def firstDate : GregorianDate :=
  .newYear 0

/-- Every day from the first on is that of a date. -/
theorem exists_date (count : Nat) (within : 1721060 + (count : ℤ) ≤ 80156521) :
    ∃ date, 0 ≤ date.year ∧ date.year ≤ 214748 ∧ jdOf date = 1721060 + count := by
  induction count with
  | zero => exact ⟨firstDate, by decide, by decide, rfl⟩
  | succ count continued =>
      obtain ⟨date, since, most, jd⟩ := continued (by omega)
      refine ⟨date.next, Int.le_trans since date.year_le_next, ?_, ?_⟩
      · rcases date.next_cases with ⟨-, year, -⟩ | ⟨-, -, year, -⟩ | ⟨length, december, year, -⟩
        · omega
        · omega
        · -- The last day of the last year is the last in range.
          by_cases last_year : date.year = 214748
          · have thirty_one : date.day = 31 := by
              rw [length, december]
              rfl
            have last : jdOf date = 80156521 := jdOf_of_eq last_year december thirty_one
            omega
          · omega
      · rw [jdOf_next, jd]
        omega

/--
The dates whose forms fit in an `int` and their Julian days are converted into each
other, the next date into the next day, and nothing overflows on the way.
-/
theorem julianDays_of_dates :
    (∀ date : GregorianDate, 0 ≤ date.year → InRange 32 (isoOf date) →
      ∃ jd, 1721060 ≤ jd ∧ jd ≤ 80156521 ∧
        isoToJd (num 32 (isoOf date)) = num 32 jd ∧
        jdToIso (num 32 jd) = num 32 (isoOf date) ∧
        ymdToJd (num 32 date.next.year) (num 32 date.next.month) (num 32 date.next.day) =
          num 32 (jd + 1) ∧
        (InRange 32 (isoOf date.next) → isoToJd (num 32 (isoOf date.next)) = num 32 (jd + 1))) ∧
    (∀ jd : ℤ, 1721060 ≤ jd → jd ≤ 80156521 →
      ∃ date : GregorianDate, 0 ≤ date.year ∧ InRange 32 (isoOf date) ∧
        jdToIso (num 32 jd) = num 32 (isoOf date) ∧
        isoToJd (num 32 (isoOf date)) = num 32 jd) ∧
    isoToJd 19700101 = 2440588 := by
  refine ⟨?_, ?_, by decide⟩
  · intro date since fits
    have most := year_of_fits fits
    have bounds := jdOf_bounds since most
    have next_since := Int.le_trans since date.year_le_next
    have next_most : date.next.year ≤ 214749 := by
      rcases date.next_cases with ⟨-, year, -⟩ | ⟨-, -, year, -⟩ | ⟨-, -, year, -⟩ <;> omega
    refine ⟨jdOf date, bounds.1, bounds.2, isoToJd_num date since most,
      jdToIso_num date since most, ?_, ?_⟩
    · rw [ymdToJd_num date.next next_since next_most, jdOf_next]
    · intro next_fits
      rw [isoToJd_num date.next next_since (year_of_fits next_fits), jdOf_next]
  · intro jd first last
    obtain ⟨date, since, most, jd_eq⟩ := exists_date (jd - 1721060).toNat (by omega)
    have same : jdOf date = jd := by omega
    have bounds := isoOf_bounds date since most
    rw [← same]
    exact ⟨date, since, by omega, jdToIso_num date since most, isoToJd_num date since most⟩

/-- The epoch of Unix time, both ways. -/
theorem julianDays_of_dates_epoch :
    isoToJd (num 32 19700101) = num 32 2440588 ∧ jdToIso (num 32 2440588) = num 32 19700101 := by
  obtain ⟨jd, first, last, forth, back, -⟩ :=
    julianDays_of_dates.1 (.newYear 1970) (by decide) (by decide)
  have day : jd = 2440588 :=
    num_inj (by omega) (forth.symm.trans julianDays_of_dates.2.2)
  rw [day] at forth back
  exact ⟨forth, back⟩

end ReactiveToolbox.Sys
