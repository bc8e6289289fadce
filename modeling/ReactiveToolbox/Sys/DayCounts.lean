import ReactiveToolbox.Sys.JulianDay

/-!
# Days from an epoch

`jd_to_mjd` and `jd_to_tjd` subtract whole days from the Julian day, although the
Modified and the Truncated Julian day begin half a day later than the Julian day.  The
epochs that are documented for them are therefore the days 1 and not 0.
-/

namespace ReactiveToolbox.Sys

open ReactiveToolbox.Lib ReactiveToolbox.Lib.CheckedInt

/-- `jd_to_mjd`. -/
def jdToMjd (jd : CInt) : CInt :=
  jd - 2400000

/-- `mjd_to_jd`. -/
def mjdToJd (mjd : CInt) : CInt :=
  mjd + 2400000

/-- `jd_to_tjd`. -/
def jdToTjd (jd : CInt) : CInt :=
  jd - 2440000

/-- `tjd_to_jd`. -/
def tjdToJd (tjd : CInt) : CInt :=
  tjd + 2440000

/-- November 17, 1858. -/
def mjdEpoch : GregorianDate where
  year := 1858
  month := 11
  day := 17
  month_first := by decide
  month_last := by decide
  day_first := by decide
  day_last := by decide

/-- May 24, 1968. -/
def tjdEpoch : GregorianDate where
  year := 1968
  month := 5
  day := 24
  month_first := by decide
  month_last := by decide
  day_first := by decide
  day_last := by decide

/-- The number of days from an epoch to a date, which is negative for an earlier date. -/
def DaysFrom (epoch date : GregorianDate) (days : ℤ) : Prop :=
  (0 ≤ days ∧ date = GregorianDate.next^[days.toNat] epoch) ∨
    (days ≤ 0 ∧ epoch = GregorianDate.next^[(-days).toNat] date)

/-- What is documented of the day counts of a date. -/
structure CountsFromEpochs (date : GregorianDate) : Prop where
  mjd : ∃ days, DaysFrom mjdEpoch date days ∧
    jdToMjd (isoToJd (num 32 (isoOf date))) = num 32 days
  tjd : ∃ days, DaysFrom tjdEpoch date days ∧
    jdToTjd (isoToJd (num 32 (isoOf date))) = num 32 days
  mjd_inverse : mjdToJd (jdToMjd (isoToJd (num 32 (isoOf date)))) = isoToJd (num 32 (isoOf date))
  tjd_inverse : tjdToJd (jdToTjd (isoToJd (num 32 (isoOf date)))) = isoToJd (num 32 (isoOf date))

/-! ## Days between dates -/

/-- A year from March on is over before the next one begins. -/
theorem jdOf_lt_of_marchYear {first second : GregorianDate}
    (earlier : marchYear first < marchYear second) : jdOf first < jdOf second := by
  have days := jdOf_eq first
  have later_days := jdOf_eq second
  have last := (marchDay_bounds first).2
  have begins := (marchDay_bounds second).1
  have longer := yearDays_succ (marchYear first)
  have behind : yearDays (marchYear first + 1) ≤ yearDays (marchYear second) :=
    yearDays_mono earlier
  split_ifs at last longer <;> omega

/-- Different dates have different Julian days. -/
theorem jdOf_injective : Function.Injective jdOf := by
  intro first second same
  have year : marchYear first = marchYear second := by
    rcases Int.lt_trichotomy (marchYear first) (marchYear second) with earlier | equal | later
    · exact absurd same (Int.ne_of_lt (jdOf_lt_of_marchYear earlier))
    · exact equal
    · exact absurd same (Int.ne_of_gt (jdOf_lt_of_marchYear later))
  have day : marchDay first = marchDay second := by
    rw [jdOf_eq, jdOf_eq, year] at same
    omega
  have month : marchMonth first = marchMonth second := by
    rw [← marchMonth_of_day, ← marchMonth_of_day, day]
  have months : first.month = second.month := by
    rw [month_eq, month_eq, month]
  have years : first.year = second.year := by
    rw [marchYear_eq, marchYear_eq, month] at year
    omega
  have days : first.day = second.day := by
    unfold marchDay at day
    rw [month] at day
    omega
  cases first
  cases second
  cases years
  cases months
  cases days
  rfl

/-- Dates are as many days apart as their Julian days. -/
theorem daysFrom_iff (epoch date : GregorianDate) (days : ℤ) :
    DaysFrom epoch date days ↔ days = jdOf date - jdOf epoch := by
  constructor
  · rintro (⟨since, rfl⟩ | ⟨before, rfl⟩)
    · rw [jdOf_iterate]
      omega
    · rw [jdOf_iterate]
      omega
  · intro apart
    rcases Int.le_total 0 days with since | before
    · refine .inl ⟨since, jdOf_injective ?_⟩
      rw [jdOf_iterate]
      omega
    · refine .inr ⟨before, jdOf_injective ?_⟩
      rw [jdOf_iterate]
      omega

/-! ## The day counts -/

theorem jdOf_mjdEpoch : jdOf mjdEpoch = 2400001 :=
  rfl

theorem jdOf_tjdEpoch : jdOf tjdEpoch = 2440001 :=
  rfl

/-- What has been subtracted without an overflow can be added again. -/
theorem num_sub_add {jd start : ℤ} (within : InRange 32 jd) (constant : InRange 32 start)
    (before : InRange 32 (jd - start)) :
    num 32 jd - num 32 start = num 32 (jd - start) ∧
      num 32 (jd - start) + num 32 start = num 32 jd := by
  refine ⟨num_sub within constant, ?_⟩
  rw [num_add before constant, Int.sub_add_cancel]

/--
No date has the day counts that are documented: each is the number of days from the
epoch and one more.  The way back is right.
-/
theorem countsFromEpochs_never (date : GregorianDate) (since : 0 ≤ date.year)
    (fits : InRange 32 (isoOf date)) :
    ¬CountsFromEpochs date ∧
      (∃ days, DaysFrom mjdEpoch date days ∧
        jdToMjd (isoToJd (num 32 (isoOf date))) = num 32 (days + 1)) ∧
      (∃ days, DaysFrom tjdEpoch date days ∧
        jdToTjd (isoToJd (num 32 (isoOf date))) = num 32 (days + 1)) ∧
      mjdToJd (jdToMjd (isoToJd (num 32 (isoOf date)))) = isoToJd (num 32 (isoOf date)) ∧
      tjdToJd (jdToTjd (isoToJd (num 32 (isoOf date)))) = isoToJd (num 32 (isoOf date)) := by
  have most := year_of_fits fits
  obtain ⟨first, last⟩ := jdOf_bounds since most
  have within : InRange 32 (jdOf date) := by omega
  obtain ⟨mjd, mjd_back⟩ : jdToMjd (num 32 (jdOf date)) = num 32 (jdOf date - 2400000) ∧
      mjdToJd (num 32 (jdOf date - 2400000)) = num 32 (jdOf date) :=
    num_sub_add within (by decide) (by omega)
  obtain ⟨tjd, tjd_back⟩ : jdToTjd (num 32 (jdOf date)) = num 32 (jdOf date - 2440000) ∧
      tjdToJd (num 32 (jdOf date - 2440000)) = num 32 (jdOf date) :=
    num_sub_add within (by decide) (by omega)
  rw [isoToJd_num date since most, mjd, tjd]
  refine ⟨?_, ⟨jdOf date - 2400001, ?_, ?_⟩, ⟨jdOf date - 2440001, ?_, ?_⟩, mjd_back, tjd_back⟩
  · intro counts
    obtain ⟨days, apart, counted⟩ := counts.mjd
    rw [isoToJd_num date since most, mjd] at counted
    rw [daysFrom_iff, jdOf_mjdEpoch] at apart
    have same := num_inj (by omega) counted
    omega
  · rw [daysFrom_iff, jdOf_mjdEpoch]
  · congr 1
    omega
  · rw [daysFrom_iff, jdOf_tjdEpoch]
  · congr 1
    omega

theorem countsFromEpochs_never_unix : ¬CountsFromEpochs (.newYear 1970) :=
  (countsFromEpochs_never (.newYear 1970) (by decide) (by decide)).1

/-- The epoch itself, which is 0 days from itself. -/
theorem not_countsFromEpochs_epoch :
    ¬CountsFromEpochs mjdEpoch ∧ DaysFrom mjdEpoch mjdEpoch 0 ∧
      jdToMjd (isoToJd (num 32 18581117)) = num 32 1 ∧
      jdToTjd (isoToJd (num 32 19680524)) = num 32 1 := by
  refine ⟨fun counts => ?_, .inl ⟨Int.le_refl 0, rfl⟩, by decide, by decide⟩
  obtain ⟨days, apart, counted⟩ := counts.mjd
  have one : jdToMjd (isoToJd (num 32 (isoOf mjdEpoch))) = num 32 1 := by decide
  have same : days = 0 := ((daysFrom_iff _ _ _).mp apart).trans (Int.sub_self _)
  rw [one, same] at counted
  exact absurd counted (by decide)

end ReactiveToolbox.Sys
