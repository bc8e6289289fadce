import Mathlib.Algebra.BigOperators.Intervals
import ReactiveToolbox.Hdr.Percentile

/-!
# Linear iteration

`HdrLinearIterator` walks over the counts in steps of equal width.  A step moves on
to the first bucket that reaches the next reporting level and adds up the counts on
its way; the last step may run out of buckets before it reaches its level.
-/

namespace ReactiveToolbox.Hdr

open ReactiveToolbox.Lib

namespace HdrIterator

/-- `has_next`: not all that was recorded has been passed. -/
def hasNext (iter : HdrIterator) : Prop :=
  iter.cumulativeCount < iter.totalCount

instance (iter : HdrIterator) : Decidable iter.hasNext :=
  inferInstanceAs (Decidable (_ < _))

/-- The lowest value of the next position. -/
def peekNextValueFromIndex (iter : HdrIterator) : Int :=
  iter.h.config.valueAtIndex (iter.countsIndex + 1)

/-- The next position is beyond the level that is reported. -/
def nextValueGreaterThanReportingLevelUpperBound (iter : HdrIterator)
    (reportingLevelUpperBound : Int) : Prop :=
  ¬iter.h.countsLen ≤ iter.countsIndex ∧ reportingLevelUpperBound < iter.peekNextValueFromIndex

instance (iter : HdrIterator) (bound : Int) :
    Decidable (iter.nextValueGreaterThanReportingLevelUpperBound bound) :=
  inferInstanceAs (Decidable (_ ∧ _))

end HdrIterator

/-- `HdrLinearIterator`, with the `HdrCountAddedIterator` that it is derived from. -/
structure HdrLinearIterator extends HdrIterator where
  countAddedInThisIterationStep : Int
  valueUnitsPerBucket : Int
  nextValueReportingLevel : Int
  nextValueReportingLevelLowestEquivalent : Int

namespace HdrLinearIterator

/-- The constructor, before the first step. -/
def create (h : HdrHistogram) (valueUnitsPerBucket : Int64) : HdrLinearIterator where
  toHdrIterator := HdrIterator.create h
  countAddedInThisIterationStep := 0
  valueUnitsPerBucket := valueUnitsPerBucket.toInt
  nextValueReportingLevel := valueUnitsPerBucket.toInt
  nextValueReportingLevelLowestEquivalent :=
    h.config.lowestEquivalentValue valueUnitsPerBucket.toInt

/-- What a step does once its reporting level is reached. -/
def report (iter : HdrLinearIterator) : HdrLinearIterator :=
  let nextValueReportingLevel := int64 (iter.nextValueReportingLevel + iter.valueUnitsPerBucket)
  { iter with
    toHdrIterator := iter.updateIteratedValues iter.nextValueReportingLevel
    nextValueReportingLevel := nextValueReportingLevel
    nextValueReportingLevelLowestEquivalent :=
      iter.h.config.lowestEquivalentValue nextValueReportingLevel }

/-- The loop of `do_next`, for some number of rounds; `none` when it has not ended by then. -/
def seekLevel (rounds : Nat) (iter : HdrLinearIterator) : Option HdrLinearIterator :=
  match rounds with
  | 0 => none
  | rounds + 1 =>
      if iter.nextValueReportingLevelLowestEquivalent ≤ iter.value then some iter.report
      else
        let moved := iter.moveNext
        if moved.1 then
          seekLevel rounds
            { iter with
              toHdrIterator := moved.2
              countAddedInThisIterationStep :=
                int64 (iter.countAddedInThisIterationStep + moved.2.count) }
        else some { iter with toHdrIterator := moved.2 }

/--
`next`, which is `do_next` of the linear iterator: whether there was another step,
and the iterator behind it.  The loop gives up behind the last of the counts.
-/
def next (iter : HdrLinearIterator) : Option (Bool × HdrLinearIterator) :=
  let iter := { iter with countAddedInThisIterationStep := 0 }
  if iter.hasNext ∨ iter.nextValueGreaterThanReportingLevelUpperBound
      iter.nextValueReportingLevelLowestEquivalent then
    (seekLevel (iter.h.counts.length + 1) iter).map fun iter => (true, iter)
  else some (false, iter)

/-- The iterator behind each step, when the iteration has ended after so many calls. -/
def iterate (calls : Nat) (iter : HdrLinearIterator) : Option (List HdrLinearIterator) :=
  match calls with
  | 0 => none
  | calls + 1 =>
      match iter.next with
      | none => none
      | some (false, _) => some []
      | some (true, next) => (iterate calls next).map fun steps => next :: steps

/-- The iterator behind so many steps, where there are so many. -/
def afterSteps (steps : Nat) (iter : HdrLinearIterator) : Option HdrLinearIterator :=
  match steps with
  | 0 => some iter
  | steps + 1 =>
      match iter.next with
      | some (true, next) => afterSteps steps next
      | _ => none

/-- The reporting levels stay below `2 ^ 63`: so does the one behind each that is reported. -/
def LevelsFit (iter : HdrLinearIterator) : Prop :=
  ∀ steps after, afterSteps steps iter = some after →
    after.valueIteratedTo + after.valueUnitsPerBucket < 2 ^ 63

end HdrLinearIterator

/--
The steps of a linear iteration, from a reporting level and a bucket on: each adds
the counts of the buckets behind those of the step before and reaches the next
level; the last one may run out of buckets instead.
-/
inductive LinearSteps (h : HdrHistogram) (units : Int) :
    Nat → Nat → List HdrLinearIterator → Prop where
  | done
      (empty : ∀ index, visited ≤ index → index < h.counts.length → h.countAtIndex index = 0) :
      LinearSteps h units level visited []
  | reached
      (forwards : visited ≤ next)
      (within : next ≤ h.counts.length)
      (added : step.countAddedInThisIterationStep =
        ∑ index ∈ Finset.Ico visited next, h.countAtIndex index)
      (reports : step.valueIteratedTo = units * (level + 1 : Nat))
      (rest : LinearSteps h units (level + 1) next steps) :
      LinearSteps h units level visited (step :: steps)
  | ranOut
      (within : visited ≤ h.counts.length)
      (added : step.countAddedInThisIterationStep =
        ∑ index ∈ Finset.Ico visited h.counts.length, h.countAtIndex index)
      (runOut : step.countsIndex = h.countsLen)
      (stays : step.valueIteratedTo = units * (level : Nat)) :
      LinearSteps h units level visited [step]

theorem LinearSteps.sum_added {h : HdrHistogram} {units : Int} {level visited : Nat}
    {steps : List HdrLinearIterator} (walk : LinearSteps h units level visited steps)
    (within : visited ≤ h.counts.length) :
    (steps.map HdrLinearIterator.countAddedInThisIterationStep).sum =
      ∑ index ∈ Finset.Ico visited h.counts.length, h.countAtIndex index := by
  induction walk with
  | done empty =>
      refine (Finset.sum_eq_zero fun index member => ?_).symm
      rcases Finset.mem_Ico.mp member with ⟨least, most⟩
      exact empty index least most
  | reached forwards inside added _ _ continued =>
      rw [List.map_cons, List.sum_cons, added, continued inside,
        Finset.sum_Ico_consecutive _ forwards inside]
  | ranOut _ added _ _ =>
      rw [List.map_singleton, List.sum_singleton, added]

/-! ## One step -/

/-- A histogram of a valid configuration whose counts add up to its total. -/
structure Counted (h : HdrHistogram) (half unit buckets : Nat) : Prop where
  shape : h.config.Shape half unit buckets
  length : (h.counts.length : Int) = h.config.countsLen
  nonneg : ∀ index : Nat, index < h.counts.length → 0 ≤ h.countAtIndex index
  total : countBefore h h.counts.length = h.totalCount
  small : h.totalCount < 2 ^ 63

section

variable {h : HdrHistogram} {half unit buckets : Nat}

theorem Counted.countBefore_bounds (counted : Counted h half unit buckets) {visited : Nat}
    (within : visited ≤ h.counts.length) :
    0 ≤ countBefore h visited ∧ countBefore h visited < 2 ^ 63 := by
  have least : countBefore h 0 ≤ countBefore h visited :=
    countBefore_mono counted.nonneg (Nat.zero_le _) within
  have most : countBefore h visited ≤ countBefore h h.counts.length :=
    countBefore_mono counted.nonneg within le_rfl
  have nothing : countBefore h 0 = 0 := Finset.sum_range_zero _
  have total := counted.total
  have small := counted.small
  omega

theorem Counted.valueAtIndex (counted : Counted h half unit buckets) {index : Nat}
    (within : index < h.counts.length) :
    h.config.valueAtIndex index = LogLinear.lower half unit index := by
  have length := counted.length
  rcases counted.shape.cell_bounds (by omega : index < h.config.countsLen.toNat) with
    ⟨short, small⟩
  exact counted.shape.valueAtIndex_natCast short small

theorem moveNext_within {iter : HdrIterator} {visited : Nat}
    (index_eq : iter.countsIndex = visited - 1) (within : visited < iter.h.counts.length) :
    iter.moveNext = (true, { iter with countsIndex := visited }.load) := by
  have moved : iter.countsIndex + 1 = visited := by omega
  have more : (visited : Int) < iter.h.countsLen := by
    simp only [HdrHistogram.countsLen]
    omega
  simp only [HdrIterator.moveNext, HdrIterator.hasBuckets, moved, if_pos more]

theorem moveNext_end {iter : HdrIterator}
    (index_eq : iter.countsIndex = (iter.h.counts.length : Int) - 1) :
    iter.moveNext = (false, { iter with countsIndex := iter.h.counts.length }) := by
  have moved : iter.countsIndex + 1 = iter.h.counts.length := by omega
  have noMore : ¬(iter.h.counts.length : Int) < iter.h.countsLen := by
    simp only [HdrHistogram.countsLen]
    omega
  simp only [HdrIterator.moveNext, HdrIterator.hasBuckets, moved, if_neg noMore]

/-- An iterator that has reached a level and has visited so many buckets. -/
structure Walks (h : HdrHistogram) (half unit units level visited : Nat)
    (iter : HdrLinearIterator) : Prop where
  histogram : iter.h = h
  unitsPerBucket : iter.valueUnitsPerBucket = units
  index : iter.countsIndex = visited - 1
  within : visited ≤ h.counts.length
  totalCount : iter.totalCount = h.totalCount
  cumulativeCount : iter.cumulativeCount = countBefore h visited
  value : iter.value = LogLinear.lower half unit (visited - 1)
  nextLevel : iter.nextValueReportingLevel = (units * (level + 1) : Nat)
  nextLevel_lt : units * (level + 1) < 2 ^ 63
  nextLowest : iter.nextValueReportingLevelLowestEquivalent =
    LogLinear.lower half unit (LogLinear.cell half unit (units * (level + 1)))
  reported : iter.valueIteratedTo = (units * level : Nat)

/-- An iterator that has run out of buckets behind a level. -/
structure Exhausted (h : HdrHistogram) (units level : Nat) (iter : HdrLinearIterator) : Prop where
  histogram : iter.h = h
  index : iter.countsIndex = h.counts.length
  totalCount : iter.totalCount = h.totalCount
  cumulativeCount : iter.cumulativeCount = countBefore h h.counts.length
  reported : iter.valueIteratedTo = (units * level : Nat)

variable {units level visited : Nat} {iter : HdrLinearIterator}

/-- Moving on to a bucket that is left. -/
theorem Walks.move (counted : Counted h half unit buckets)
    (walks : Walks h half unit units level visited iter) (more : visited < h.counts.length)
    (added : Int) :
    iter.moveNext = (true, { iter.toHdrIterator with countsIndex := visited }.load) ∧
      { iter.toHdrIterator with countsIndex := visited }.load.count = h.countAtIndex visited ∧
      Walks h half unit units level (visited + 1)
        { iter with
          toHdrIterator := { iter.toHdrIterator with countsIndex := visited }.load
          countAddedInThisIterationStep := added } := by
  have histogram := walks.histogram
  have next_bounds := counted.countBefore_bounds (show visited + 1 ≤ h.counts.length from more)
  have moved := moveNext_within walks.index (by rwa [histogram])
  refine ⟨moved, ?_, ?_⟩
  · simp only [HdrIterator.load, histogram]
    rfl
  · refine
      { histogram := histogram
        unitsPerBucket := walks.unitsPerBucket
        index := ?_
        within := more
        totalCount := walks.totalCount
        cumulativeCount := ?_
        value := ?_
        nextLevel := walks.nextLevel
        nextLevel_lt := walks.nextLevel_lt
        nextLowest := walks.nextLowest
        reported := walks.reported }
    · simp only [HdrIterator.load]
      omega
    · have count_eq : h.countsGetNormalised visited = h.countAtIndex visited := rfl
      simp only [HdrIterator.load, histogram, walks.cumulativeCount, count_eq]
      rw [← countBefore_succ]
      exact int64_eq (by omega) next_bounds.2
    · simp only [HdrIterator.load, histogram, Nat.add_sub_cancel]
      exact counted.valueAtIndex more

/-- Reaching a level behind which another one fits. -/
theorem Walks.report (counted : Counted h half unit buckets)
    (walks : Walks h half unit units level visited iter)
    (fits : units * (level + 1 + 1) < 2 ^ 63) :
    Walks h half unit units (level + 1) visited iter.report := by
  have level_eq : int64 (iter.nextValueReportingLevel + iter.valueUnitsPerBucket) =
      (units * (level + 1 + 1) : Nat) := by
    rw [walks.nextLevel, walks.unitsPerBucket, ← Nat.cast_add, ← Nat.mul_succ]
    exact int64_natCast fits
  refine
    { histogram := walks.histogram
      unitsPerBucket := walks.unitsPerBucket
      index := walks.index
      within := walks.within
      totalCount := walks.totalCount
      cumulativeCount := walks.cumulativeCount
      value := walks.value
      nextLevel := level_eq
      nextLevel_lt := fits
      nextLowest := ?_
      reported := walks.nextLevel }
  simp only [HdrLinearIterator.report]
  rw [level_eq, walks.histogram]
  exact counted.shape.lowestEquivalentValue_natCast fits

/-- Moving on from the last bucket. -/
theorem Walks.runOut (walks : Walks h half unit units level h.counts.length iter) :
    iter.moveNext.1 = false ∧
      Exhausted h units level { iter with toHdrIterator := iter.moveNext.2 } := by
  have histogram := walks.histogram
  have last : iter.countsIndex = (iter.h.counts.length : Int) - 1 := by
    rw [histogram, walks.index]
  have moved := moveNext_end last
  rw [moved]
  refine ⟨rfl, ?_⟩
  exact
    { histogram := histogram
      index := by rw [histogram]
      totalCount := walks.totalCount
      cumulativeCount := walks.cumulativeCount
      reported := walks.reported }

/--
The loop of a step ends: at the first bucket that reaches the level, or behind the
last one.
-/
theorem seekLevel_spec (counted : Counted h half unit buckets) {rounds first : Nat}
    (walks : Walks h half unit units level visited iter) (forwards : first ≤ visited)
    (added : iter.countAddedInThisIterationStep = countBefore h visited - countBefore h first)
    (enough : h.counts.length < visited + rounds) :
    (∃ next before, visited ≤ next ∧ Walks h half unit units level next before ∧
      LogLinear.cell half unit (units * (level + 1)) ≤ next - 1 ∧
      before.countAddedInThisIterationStep = countBefore h next - countBefore h first ∧
      iter.seekLevel rounds = some before.report) ∨
    ∃ after, Exhausted h units level after ∧
      after.countAddedInThisIterationStep =
        countBefore h h.counts.length - countBefore h first ∧
      iter.seekLevel rounds = some after := by
  induction rounds generalizing visited iter with
  | zero =>
      have within := walks.within
      omega
  | succ rounds continued =>
      simp only [HdrLinearIterator.seekLevel]
      by_cases reached : iter.nextValueReportingLevelLowestEquivalent ≤ iter.value
      · rw [if_pos reached]
        rw [walks.nextLowest, walks.value] at reached
        have begins := LogLinear.lower_strictMono.le_iff_le.mp (Int.ofNat_le.mp reached)
        exact Or.inl ⟨visited, iter, le_rfl, walks, begins, added, rfl⟩
      · rw [if_neg reached]
        rcases Nat.lt_or_ge visited h.counts.length with more | last
        · rcases walks.move counted more
            (int64 (iter.countAddedInThisIterationStep + h.countAtIndex visited)) with
            ⟨moved, count_eq, walksOn⟩
          have ordered : countBefore h first ≤ countBefore h (visited + 1) :=
            countBefore_mono counted.nonneg (by omega) more
          have first_bounds := counted.countBefore_bounds (forwards.trans walks.within)
          have next_bounds :=
            counted.countBefore_bounds (show visited + 1 ≤ h.counts.length from more)
          have addedOn : int64 (iter.countAddedInThisIterationStep + h.countAtIndex visited) =
              countBefore h (visited + 1) - countBefore h first := by
            have next_eq := countBefore_succ h visited
            rw [int64_eq (by omega) (by omega)]
            omega
          rw [moved, if_pos rfl, count_eq]
          rcases continued walksOn (by omega) addedOn (by omega) with
            ⟨next, before, further, rest⟩ | ranOut
          · exact Or.inl ⟨next, before, by omega, rest⟩
          · exact Or.inr ranOut
        · have atEnd : visited = h.counts.length := le_antisymm walks.within last
          subst atEnd
          rcases walks.runOut with ⟨moved, exhausted⟩
          rw [moved]
          exact Or.inr ⟨_, exhausted, added, rfl⟩

/-! ## Whole iterations -/

theorem Counted.empty_of_total (counted : Counted h half unit buckets)
    (all : h.totalCount ≤ countBefore h visited) {index : Nat}
    (least : visited ≤ index) (most : index < h.counts.length) : h.countAtIndex index = 0 := by
  have total := counted.total
  have before : countBefore h visited ≤ countBefore h index :=
    countBefore_mono counted.nonneg least most.le
  have behind : countBefore h (index + 1) ≤ countBefore h h.counts.length :=
    countBefore_mono counted.nonneg most le_rfl
  have nonneg := counted.nonneg index most
  have split := countBefore_succ h index
  omega

theorem sum_Ico_countAtIndex {first last : Nat} (ordered : first ≤ last) :
    ∑ index ∈ Finset.Ico first last, h.countAtIndex index =
      countBefore h last - countBefore h first :=
  Finset.sum_Ico_eq_sub (fun index : Nat => h.countAtIndex index) ordered

/-- A level that a bucket reaches lies below the end of the last one. -/
theorem Counted.level_lt (counted : Counted h half unit buckets) {value next : Nat}
    (within : next ≤ h.counts.length) (begins : LogLinear.cell half unit value ≤ next - 1) :
    value < 2 ^ (unit + half + buckets) := by
  have len_eq := counted.shape.countsLen
  have length := counted.length
  have positive : 0 < (buckets + 1) * 2 ^ half :=
    Nat.mul_pos (Nat.succ_pos _) (Nat.two_pow_pos _)
  refine counted.shape.cell_lt_countsLen_iff.mp ?_
  omega

theorem Exhausted.next_eq (counted : Counted h half unit buckets)
    (exhausted : Exhausted h units level iter) : ∃ last, iter.next = some (false, last) := by
  have total := counted.total
  have noMore : ¬iter.hasNext := by
    unfold HdrIterator.hasNext
    rw [exhausted.cumulativeCount, exhausted.totalCount]
    omega
  have behind : iter.h.countsLen ≤ iter.countsIndex := by
    rw [exhausted.histogram, exhausted.index]
    exact le_rfl
  refine ⟨_, if_neg ?_⟩
  rintro (more | ⟨before, -⟩)
  · exact noMore more
  · exact before behind

/-- What one call does: it ends the iteration, reaches the next level or runs out of buckets. -/
theorem Walks.next_cases (counted : Counted h half unit buckets)
    (walks : Walks h half unit units level visited iter) :
    (h.totalCount ≤ countBefore h visited ∧ ∃ last, iter.next = some (false, last)) ∨
    (∃ next before, visited ≤ next ∧ Walks h half unit units level next before ∧
      LogLinear.cell half unit (units * (level + 1)) ≤ next - 1 ∧
      before.countAddedInThisIterationStep = countBefore h next - countBefore h visited ∧
      iter.next = some (true, before.report)) ∨
    ∃ after, Exhausted h units level after ∧
      after.countAddedInThisIterationStep =
        countBefore h h.counts.length - countBefore h visited ∧
      iter.next = some (true, after) := by
  have cleared : Walks h half unit units level visited
      { iter with countAddedInThisIterationStep := 0 } := { walks with }
  have histogram := walks.histogram
  by_cases goesOn : iter.hasNext ∨ iter.nextValueGreaterThanReportingLevelUpperBound
      iter.nextValueReportingLevelLowestEquivalent
  · have next_eq : iter.next =
        (HdrLinearIterator.seekLevel (iter.h.counts.length + 1)
          { iter with countAddedInThisIterationStep := 0 }).map fun iter => (true, iter) :=
      if_pos goesOn
    rw [histogram] at next_eq
    have enough : h.counts.length < visited + (h.counts.length + 1) := by omega
    rcases seekLevel_spec counted cleared le_rfl (sub_self _).symm enough with
      ⟨next, before, forwards, walksOn, begins, added, sought⟩ | ⟨after, exhausted, added, sought⟩
    · rw [sought] at next_eq
      exact Or.inr (Or.inl ⟨next, before, forwards, walksOn, begins, added, next_eq⟩)
    · rw [sought] at next_eq
      exact Or.inr (Or.inr ⟨after, exhausted, added, next_eq⟩)
  · have next_eq : iter.next = some (false, { iter with countAddedInThisIterationStep := 0 }) :=
      if_neg goesOn
    have noMore : ¬iter.cumulativeCount < iter.totalCount := fun more => goesOn (Or.inl more)
    rw [walks.cumulativeCount, walks.totalCount] at noMore
    exact Or.inl ⟨not_lt.mp noMore, _, next_eq⟩

theorem HdrLinearIterator.LevelsFit.behind {next : HdrLinearIterator} (fits : iter.LevelsFit)
    (stepped : iter.next = some (true, next)) : next.LevelsFit := by
  intro steps after reached
  refine fits (steps + 1) after ?_
  rw [HdrLinearIterator.afterSteps, stepped]
  exact reached

theorem afterSteps_add (first second : Nat) (iter : HdrLinearIterator) :
    iter.afterSteps (first + second) =
      (iter.afterSteps first).bind (HdrLinearIterator.afterSteps second) := by
  induction first generalizing iter with
  | zero => rw [Nat.zero_add, HdrLinearIterator.afterSteps, Option.bind_some]
  | succ first continued =>
      rw [Nat.succ_add, HdrLinearIterator.afterSteps, HdrLinearIterator.afterSteps]
      split
      · exact continued _
      · rfl

/-- The levels of an iteration that ends fit, if those of its steps do. -/
theorem HdrLinearIterator.LevelsFit.of_ended {ended : Nat}
    (noMore : (iter.afterSteps ended).isNone)
    (fit : ∀ steps < ended, (iter.afterSteps steps).all fun after =>
      after.valueIteratedTo + after.valueUnitsPerBucket < 2 ^ 63) : iter.LevelsFit := by
  intro steps after reached
  rcases Nat.lt_or_ge steps ended with before | behind
  · have fits := fit steps before
    rw [reached] at fits
    exact of_decide_eq_true fits
  · obtain ⟨further, rfl⟩ := Nat.exists_eq_add_of_le behind
    rw [afterSteps_add, Option.isNone_iff_eq_none.mp noMore] at reached
    cases reached

/-- An iteration ends, and its steps are those of a linear iteration. -/
theorem iterate_spec (counted : Counted h half unit buckets) (positive : 0 < units)
    {remaining : Nat} (remaining_eq : remaining = 2 ^ (unit + half + buckets) - level)
    (walks : Walks h half unit units level visited iter) (fits : iter.LevelsFit) :
    ∃ calls steps, iter.iterate calls = some steps ∧ LinearSteps h units level visited steps := by
  induction remaining using Nat.strong_induction_on generalizing level visited iter with
  | _ remaining continued =>
      rcases walks.next_cases counted with
        ⟨all, last, stepped⟩ | ⟨next, before, forwards, walksOn, begins, added, stepped⟩ |
          ⟨after, exhausted, added, stepped⟩
      · refine ⟨1, [], ?_, .done fun index least most => ?_⟩
        · rw [HdrLinearIterator.iterate, stepped]
        · exact counted.empty_of_total all least most
      · have reported : before.report.valueIteratedTo = (units * (level + 1) : Nat) :=
          walksOn.nextLevel
        have fitsOn := HdrLinearIterator.LevelsFit.behind fits stepped
        have short : units * (level + 1 + 1) < 2 ^ 63 := by
          have behind := fitsOn 0 before.report rfl
          have bucket : before.report.valueUnitsPerBucket = units := walksOn.unitsPerBucket
          rw [reported, bucket, ← Nat.cast_add, ← Nat.mul_succ, Nat.succ_eq_add_one] at behind
          omega
        have below := counted.level_lt walksOn.within begins
        have larger : level + 1 ≤ units * (level + 1) := Nat.le_mul_of_pos_left _ positive
        rcases continued _ (by omega) rfl (walksOn.report counted short) fitsOn with
          ⟨calls, steps, iterated, rest⟩
        refine ⟨calls + 1, before.report :: steps, ?_, .reached forwards walksOn.within ?_ ?_ rest⟩
        · simp only [HdrLinearIterator.iterate, stepped, iterated, Option.map_some]
        · rw [sum_Ico_countAtIndex forwards]
          exact added
        · rw [reported]
          push_cast
          rfl
      · rcases exhausted.next_eq counted with ⟨last, ended⟩
        refine ⟨2, [after], ?_, .ranOut walks.within ?_ exhausted.index ?_⟩
        · simp only [HdrLinearIterator.iterate, stepped, ended, Option.map_some]
        · rw [sum_Ico_countAtIndex walks.within]
          exact added
        · rw [exhausted.reported]
          push_cast
          rfl

end

/-! ## Iterations over recorded values -/

theorem int64_sum_int64 (cells : Nat) (counts : Nat → Int) :
    int64 (∑ index ∈ Finset.range cells, int64 (counts index)) =
      int64 (∑ index ∈ Finset.range cells, counts index) := by
  induction cells with
  | zero => rfl
  | succ cells continued =>
      rw [Finset.sum_range_succ, Finset.sum_range_succ]
      unfold int64 at continued ⊢
      rw [Int.add_bmod_bmod, ← Int.bmod_add_bmod, continued, Int.bmod_add_bmod]

section

variable {config : HdrBucketConfig} {h : HdrHistogram} {recorded : List Recorded}
  {half unit buckets : Nat}

/-- The counts add up to the total count, both as 64-bit numbers. -/
theorem Tracks.totalCount_eq (shape : config.Shape half unit buckets)
    (tracks : Tracks config h recorded) :
    h.totalCount = int64 (countBefore h h.counts.length) := by
  have length := tracks.length
  simp only [HdrHistogram.countsLen] at length
  have cells : ∀ entry ∈ recorded, 0 ≤ config.countsIndexFor entry.value ∧
      config.countsIndexFor entry.value < h.counts.length := by
    intro entry member
    have index := tracks.indices shape entry member
    omega
  have sum_eq : countBefore h h.counts.length = ∑ index ∈ Finset.range h.counts.length,
      int64 (countOf recorded fun value => config.countsIndexFor value = index) := by
    refine Finset.sum_congr rfl fun index member => ?_
    simp only [HdrHistogram.countAtIndex, HdrHistogram.countsGetNormalised]
    rw [tracks.normalizeIndex, Int.toNat_natCast,
      tracks.counts index (Finset.mem_range.mp member)]
  rw [tracks.total, ← sum_countOf_cells cells, ← int64_sum_int64, ← sum_eq]

/-- Counts that are not negative add up to the total count, as far as it can hold them. -/
theorem Tracks.counted (shape : config.Shape half unit buckets)
    (tracks : Tracks config h recorded)
    (nonneg : ∀ index : Nat, index < h.counts.length → 0 ≤ h.countAtIndex index)
    (small : countBefore h h.counts.length < 2 ^ 63) : Counted h half unit buckets := by
  have length := tracks.length
  simp only [HdrHistogram.countsLen] at length
  have nothing : countBefore h 0 = 0 := Finset.sum_range_zero _
  have least : countBefore h 0 ≤ countBefore h h.counts.length :=
    countBefore_mono nonneg (Nat.zero_le _) le_rfl
  have total_eq : h.totalCount = countBefore h h.counts.length := by
    rw [tracks.totalCount_eq shape]
    exact int64_eq (by omega) small
  exact
    { shape := by rw [tracks.configured]; exact shape
      length := by rw [tracks.configured]; exact length
      nonneg := nonneg
      total := total_eq.symm
      small := by rw [total_eq]; exact small }

end

/--
Every linear iteration over a histogram ends: it adds the count of each bucket in one
step, so that the counts of the steps add up to the total, and it reaches the
multiples of its width in order.
-/
theorem run_iterate_linear {lowest highest : Int64} {figures : Int32} {config : HdrBucketConfig}
    (created : HdrBucketConfig.create lowest highest figures = some (.ok config))
    (ops : List Op)
    (nonneg : ∀ index : Nat, index < ((HdrHistogram.create config).run ops).counts.length →
      0 ≤ ((HdrHistogram.create config).run ops).countAtIndex index)
    (small : countBefore ((HdrHistogram.create config).run ops)
      ((HdrHistogram.create config).run ops).counts.length < 2 ^ 63)
    (valueUnitsPerBucket : Int64) (positive : 0 < valueUnitsPerBucket.toInt)
    (fits : (HdrLinearIterator.create ((HdrHistogram.create config).run ops)
      valueUnitsPerBucket).LevelsFit) :
    ∃ calls steps,
      (HdrLinearIterator.create ((HdrHistogram.create config).run ops)
        valueUnitsPerBucket).iterate calls = some steps ∧
      LinearSteps ((HdrHistogram.create config).run ops) valueUnitsPerBucket.toInt 0 0 steps ∧
      (steps.map HdrLinearIterator.countAddedInThisIterationStep).sum =
        ((HdrHistogram.create config).run ops).totalCount := by
  rcases HdrBucketConfig.create_shape created with ⟨half, unit, buckets, shape⟩
  have tracks := tracks_run shape ops
  have units_lt := Int64.toInt_lt valueUnitsPerBucket
  generalize (HdrHistogram.create config).run ops = h at *
  have whole := tracks.counted shape nonneg small
  obtain ⟨units, units_eq⟩ : ∃ units : Nat, valueUnitsPerBucket.toInt = units :=
    ⟨_, (Int.toNat_of_nonneg positive.le).symm⟩
  have start : Walks h half unit units 0 0 (HdrLinearIterator.create h valueUnitsPerBucket) :=
    { histogram := rfl
      unitsPerBucket := units_eq
      index := rfl
      within := Nat.zero_le _
      totalCount := rfl
      cumulativeCount := (Finset.sum_range_zero _).symm
      value := by simp [HdrLinearIterator.create, HdrIterator.create, LogLinear.lower]
      nextLevel := by rw [Nat.zero_add, Nat.mul_one]; exact units_eq
      nextLevel_lt := by omega
      nextLowest := by
        rw [Nat.zero_add, Nat.mul_one]
        simp only [HdrLinearIterator.create]
        rw [units_eq]
        exact whole.shape.lowestEquivalentValue_natCast (by omega)
      reported := by rw [Nat.mul_zero]; rfl }
  rcases iterate_spec whole (by omega) rfl start fits with ⟨calls, steps, iterated, walk⟩
  refine ⟨calls, steps, iterated, ?_, ?_⟩
  · rw [units_eq]
    exact walk
  · rw [walk.sum_added (Nat.zero_le _), ← whole.total, ← Finset.range_eq_Ico]
    rfl

theorem HdrLinearIterator.iterate_of_ended {iter : HdrLinearIterator} {calls : Nat}
    {steps : List HdrLinearIterator} (ended : iter.next.map Prod.fst = some false)
    (iterated : iter.iterate calls = some steps) : steps = [] := by
  obtain ⟨⟨more, last⟩, stepped, rfl⟩ := Option.map_eq_some_iff.mp ended
  cases calls with
  | zero => cases iterated
  | succ calls =>
      rw [HdrLinearIterator.iterate, stepped] at iterated
      exact (Option.some.inj iterated).symm

/-- A count of less than zero hides the others, which are added in no step. -/
theorem run_iterate_linear_negative :
    ∃ config, HdrBucketConfig.create 1 255 2 = some (.ok config) ∧
      (HdrLinearIterator.create ((HdrHistogram.create config).run
        [.recordValues 1 5, .recordValues 200 (-5)]) 64).LevelsFit ∧
      ¬∃ calls steps,
        (HdrLinearIterator.create ((HdrHistogram.create config).run
          [.recordValues 1 5, .recordValues 200 (-5)]) 64).iterate calls = some steps ∧
        LinearSteps ((HdrHistogram.create config).run
          [.recordValues 1 5, .recordValues 200 (-5)]) 64 0 0 steps := by
  have created : HdrBucketConfig.create 1 255 2 =
      some (.ok ⟨1, 255, 2, 0, 7, 256, 128, 255, 1, 256⟩) := by
    decide +kernel
  refine ⟨_, created, ?_, ?_⟩
  · exact HdrLinearIterator.LevelsFit.of_ended
      (show Option.isNone (HdrLinearIterator.afterSteps 1 _) by decide +kernel) (by decide +kernel)
  · rintro ⟨calls, steps, iterated, walk⟩
    obtain rfl := HdrLinearIterator.iterate_of_ended (by decide +kernel) iterated
    cases walk with
    | done empty =>
        have none := empty 1 (Nat.zero_le _) (by decide +kernel)
        revert none
        decide +kernel

theorem run_iterate_linear_byte :
    ∃ config, HdrBucketConfig.create 1 255 2 = some (.ok config) ∧
      ∃ calls steps,
        (HdrLinearIterator.create ((HdrHistogram.create config).run
          [.recordValue 193, .recordValue 255, .recordValue 1]) 64).iterate calls = some steps ∧
        (steps.map HdrLinearIterator.countAddedInThisIterationStep).sum = 3 := by
  have created : HdrBucketConfig.create 1 255 2 =
      some (.ok ⟨1, 255, 2, 0, 7, 256, 128, 255, 1, 256⟩) := by
    decide +kernel
  have total : ((HdrHistogram.create ⟨1, 255, 2, 0, 7, 256, 128, 255, 1, 256⟩).run
      [.recordValue 193, .recordValue 255, .recordValue 1]).totalCount = 3 := by
    decide +kernel
  have fits : (HdrLinearIterator.create
      ((HdrHistogram.create ⟨1, 255, 2, 0, 7, 256, 128, 255, 1, 256⟩).run
        [.recordValue 193, .recordValue 255, .recordValue 1]) 64).LevelsFit :=
    HdrLinearIterator.LevelsFit.of_ended (show Option.isNone (HdrLinearIterator.afterSteps 5 _) by
      decide +kernel) (by decide +kernel)
  rcases run_iterate_linear created [.recordValue 193, .recordValue 255, .recordValue 1]
    (by decide +kernel) (by decide +kernel) 64 (by decide) fits with
    ⟨calls, steps, iterated, -, sum_eq⟩
  refine ⟨_, created, calls, steps, iterated, ?_⟩
  rw [sum_eq, total]

end ReactiveToolbox.Hdr
