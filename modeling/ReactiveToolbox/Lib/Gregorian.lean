import Mathlib.Data.Int.Init
import Mathlib.Tactic.SplitIfs

/-!
# The Gregorian calendar

The dates of the calendar that is extended to all years, each followed by the next.
-/

namespace ReactiveToolbox.Lib

/-- A leap year. -/
def IsLeap (year : ℤ) : Prop :=
  year % 4 = 0 ∧ year % 100 ≠ 0 ∨ year % 400 = 0

instance (year : ℤ) : Decidable (IsLeap year) :=
  inferInstanceAs (Decidable (_ ∨ _))

/-- The number of days of a month. -/
def daysInMonth (year month : ℤ) : ℤ :=
  if month = 2 then if IsLeap year then 29 else 28
  else if month = 4 ∨ month = 6 ∨ month = 9 ∨ month = 11 then 30
  else 31

/-- A date of the calendar. -/
structure GregorianDate where
  year : ℤ
  month : ℤ
  day : ℤ
  month_first : 1 ≤ month
  month_last : month ≤ 12
  day_first : 1 ≤ day
  day_last : day ≤ daysInMonth year month

theorem daysInMonth_bounds (year month : ℤ) :
    28 ≤ daysInMonth year month ∧ daysInMonth year month ≤ 31 := by
  unfold daysInMonth
  split_ifs <;> omega

namespace GregorianDate

/-- The first day of a month. -/
def firstOfMonth (year month : ℤ) (first : 1 ≤ month) (last : month ≤ 12) : GregorianDate where
  year := year
  month := month
  day := 1
  month_first := first
  month_last := last
  day_first := Int.le_refl 1
  day_last := by
    have bounds := daysInMonth_bounds year month
    omega

/-- The first day of a year. -/
def newYear (year : ℤ) : GregorianDate :=
  firstOfMonth year 1 (by decide) (by decide)

theorem month_bounds (date : GregorianDate) : 1 ≤ date.month ∧ date.month ≤ 12 :=
  ⟨date.month_first, date.month_last⟩

theorem day_bounds (date : GregorianDate) : 1 ≤ date.day ∧ date.day ≤ 31 :=
  ⟨date.day_first, Int.le_trans date.day_last (daysInMonth_bounds date.year date.month).2⟩

/-- The day after a date. -/
def next (date : GregorianDate) : GregorianDate :=
  if within : date.day < daysInMonth date.year date.month then
    { date with
      day := date.day + 1
      day_first := Int.le_trans date.day_first (by omega)
      day_last := within }
  else if month : date.month < 12 then
    firstOfMonth date.year (date.month + 1) (Int.le_trans date.month_first (by omega)) month
  else newYear (date.year + 1)

/-- What the day after a date is. -/
theorem next_cases (date : GregorianDate) :
    (date.day < daysInMonth date.year date.month ∧ date.next.year = date.year ∧
      date.next.month = date.month ∧ date.next.day = date.day + 1) ∨
    (date.day = daysInMonth date.year date.month ∧ date.month < 12 ∧
      date.next.year = date.year ∧ date.next.month = date.month + 1 ∧ date.next.day = 1) ∨
    (date.day = daysInMonth date.year date.month ∧ date.month = 12 ∧
      date.next.year = date.year + 1 ∧ date.next.month = 1 ∧ date.next.day = 1) := by
  have last := date.day_last
  have month_last := date.month_last
  unfold next
  split_ifs with within month
  · exact .inl ⟨within, rfl, rfl, rfl⟩
  · exact .inr (.inl ⟨by omega, month, rfl, rfl, rfl⟩)
  · exact .inr (.inr ⟨by omega, by omega, rfl, rfl, rfl⟩)

/-- The years do not go back from a date to the next. -/
theorem year_le_next (date : GregorianDate) : date.year ≤ date.next.year := by
  rcases next_cases date with ⟨-, year, -⟩ | ⟨-, -, year, -⟩ | ⟨-, -, year, -⟩ <;> omega

end GregorianDate

end ReactiveToolbox.Lib
