import ReactiveToolbox.Hdr.LinearIterator

/-!
# Iteration over recorded values

`HdrRecordedIterator` stops at the indices with a count other than zero.  It gives up
once the counts that it has passed add up to the total, so that a count of less than
zero, which `record_values` accepts, can hide the ones behind it.
-/

namespace ReactiveToolbox.Hdr

open ReactiveToolbox.Lib

namespace HdrIterator

/-- `basic_next`, which does not look at what `move_next` returns. -/
def basicNext (iter : HdrIterator) : Bool × HdrIterator :=
  if ¬iter.hasNext ∨ iter.h.countsLen ≤ iter.countsIndex then (false, iter)
  else (true, iter.moveNext.2)

end HdrIterator

/-- `HdrRecordedIterator`, with the `HdrCountAddedIterator` that it is derived from. -/
structure HdrRecordedIterator extends HdrIterator where
  countAddedInThisIterationStep : Int

namespace HdrRecordedIterator

/-- The constructor, before the first step. -/
def create (h : HdrHistogram) : HdrRecordedIterator where
  toHdrIterator := HdrIterator.create h
  countAddedInThisIterationStep := 0

/-- What a step does at an index with a count. -/
def report (moved : HdrIterator) : HdrRecordedIterator where
  toHdrIterator := moved.updateIteratedValues moved.value
  countAddedInThisIterationStep := moved.count

/-- The loop of `do_next`, for some number of rounds; `none` when it has not ended by then. -/
def seekRecorded (rounds : Nat) (iter : HdrRecordedIterator) :
    Option (Bool × HdrRecordedIterator) :=
  match rounds with
  | 0 => none
  | rounds + 1 =>
      let moved := iter.basicNext
      if moved.1 then
        if moved.2.count ≠ 0 then some (true, report moved.2)
        else seekRecorded rounds { iter with toHdrIterator := moved.2 }
      else some (false, { iter with toHdrIterator := moved.2 })

/--
`next`, which is `do_next` of the recorded iterator: whether there was another step,
and the iterator behind it.  No round begins behind the last of the counts.
-/
def next (iter : HdrRecordedIterator) : Option (Bool × HdrRecordedIterator) :=
  seekRecorded (iter.h.counts.length + 2) iter

/-- The iterator behind each step, when the iteration has ended after so many calls. -/
def iterate (calls : Nat) (iter : HdrRecordedIterator) : Option (List HdrRecordedIterator) :=
  match calls with
  | 0 => none
  | calls + 1 =>
      match iter.next with
      | none => none
      | some (false, _) => some []
      | some (true, next) => (iterate calls next).map fun steps => next :: steps

end HdrRecordedIterator

/-! ## What an iteration should visit -/

/-- The indices from one on that have a count other than zero, in ascending order. -/
def recordedFrom (h : HdrHistogram) (first : Nat) : List Nat :=
  (List.range' first (h.counts.length - first)).filter fun index => h.countAtIndex index ≠ 0

/-- The step at an index, behind the value of the step before. -/
structure StepAt (h : HdrHistogram) (previous : Int) (place : Nat) (step : HdrRecordedIterator) :
    Prop where
  index : step.countsIndex = place
  added : step.countAddedInThisIterationStep = h.countAtIndex place
  value : step.value = h.config.valueAtIndex place
  iteratedFrom : step.valueIteratedFrom = previous

/-- One step at each of the indices, in their order. -/
inductive RecordedSteps (h : HdrHistogram) :
    Int → List Nat → List HdrRecordedIterator → Prop where
  | done : RecordedSteps h previous [] []
  | visited
      (first : StepAt h previous index step)
      (rest : RecordedSteps h (h.config.valueAtIndex index) indices steps) :
      RecordedSteps h previous (index :: indices) (step :: steps)

/-- An iterator that has seen all counts, and stays where it is. -/
structure Complete (h : HdrHistogram) (iter : HdrRecordedIterator) : Prop where
  cumulativeCount : iter.cumulativeCount = h.totalCount
  ended : iter.next = some (false, iter)

/--
An iteration that visits the given indices, one after another, from an iterator that
has come from a value, and that is complete behind the last one.
-/
def Visits (h : HdrHistogram) (indices : List Nat) (iter : HdrRecordedIterator) : Prop :=
  ∃ calls steps, iter.iterate calls = some steps ∧
    RecordedSteps h iter.valueIteratedTo indices steps ∧ Complete h (steps.getLastD iter)

/-- The iteration over a histogram visits the indices with a count other than zero. -/
def VisitsRecorded (h : HdrHistogram) : Prop :=
  Visits h (recordedFrom h 0) (.create h)

/-- The counts before an index, added up as the iterator does, are less than the total. -/
def Within (h : HdrHistogram) (index : Nat) : Prop :=
  int64 (countBefore h index) < h.totalCount

section

variable {h : HdrHistogram} {first index visited : Nat} {iter : HdrRecordedIterator}

/-! ## Indices with a count -/

theorem recordedFrom_end (h : HdrHistogram) : recordedFrom h h.counts.length = [] := by
  rw [recordedFrom, Nat.sub_self, List.range'_zero, List.filter_nil]

theorem recordedFrom_range (within : first < h.counts.length) :
    List.range' first (h.counts.length - first) =
      first :: List.range' (first + 1) (h.counts.length - (first + 1)) := by
  have length : h.counts.length - first = h.counts.length - (first + 1) + 1 := by omega
  rw [length, List.range'_succ]

theorem recordedFrom_zero (within : first < h.counts.length) (zero : h.countAtIndex first = 0) :
    recordedFrom h first = recordedFrom h (first + 1) := by
  rw [recordedFrom, recordedFrom_range within, List.filter_cons_of_neg (by simpa using zero)]
  rfl

theorem recordedFrom_count (within : first < h.counts.length) (count : h.countAtIndex first ≠ 0) :
    recordedFrom h first = first :: recordedFrom h (first + 1) := by
  rw [recordedFrom, recordedFrom_range within, List.filter_cons_of_pos (by simpa using count)]
  rfl

/-- Nothing is added on the way to the first index with a count. -/
theorem countBefore_recordedFrom (within : first ≤ h.counts.length) :
    (recordedFrom h first = [] ∧ countBefore h first = countBefore h h.counts.length) ∨
      ∃ index, index < h.counts.length ∧ h.countAtIndex index ≠ 0 ∧
        recordedFrom h first = index :: recordedFrom h (index + 1) ∧
        countBefore h first = countBefore h index := by
  induction remaining : h.counts.length - first generalizing first with
  | zero =>
      obtain rfl : first = h.counts.length := by omega
      exact .inl ⟨recordedFrom_end h, rfl⟩
  | succ remaining continued =>
      have more : first < h.counts.length := by omega
      by_cases zero : h.countAtIndex first = 0
      · have added := countBefore_succ h first
        rw [zero, add_zero] at added
        rw [recordedFrom_zero more zero, ← added]
        exact continued more (by omega)
      · exact .inr ⟨first, more, zero, recordedFrom_count more zero, rfl⟩

/-! ## One step -/

/-- An iterator over a histogram that has visited so many indices. -/
structure Passed (h : HdrHistogram) (visited : Nat) (iter : HdrIterator) : Prop where
  histogram : iter.h = h
  index : iter.countsIndex = visited - 1
  within : visited ≤ h.counts.length
  totalCount : iter.totalCount = h.totalCount
  cumulativeCount : iter.cumulativeCount = int64 (countBefore h visited)

theorem passed_create (h : HdrHistogram) : Passed h 0 (.create h) where
  histogram := rfl
  index := rfl
  within := Nat.zero_le _
  totalCount := rfl
  cumulativeCount := by
    have nothing : countBefore h 0 = 0 := Finset.sum_range_zero _
    rw [nothing]
    rfl

theorem Passed.hasNext_iff {iter : HdrIterator} (passed : Passed h visited iter) :
    iter.hasNext ↔ Within h visited := by
  rw [HdrIterator.hasNext, passed.cumulativeCount, passed.totalCount, Within]

theorem Passed.basicNext_stop {iter : HdrIterator} (passed : Passed h visited iter)
    (stops : ¬Within h visited) : iter.basicNext = (false, iter) :=
  if_pos (.inl (passed.hasNext_iff.not.mpr stops))

/-- Where there is a next count, it is loaded. -/
theorem Passed.basicNext_move {iter : HdrIterator} (passed : Passed h visited iter)
    (goesOn : Within h visited) (more : visited < h.counts.length) :
    iter.basicNext = (true, { iter with countsIndex := visited }.load) ∧
      { iter with countsIndex := visited }.load.count = h.countAtIndex visited ∧
      { iter with countsIndex := visited }.load.value = h.config.valueAtIndex visited ∧
      Passed h (visited + 1) { iter with countsIndex := visited }.load := by
  have histogram := passed.histogram
  have before : ¬(¬iter.hasNext ∨ iter.h.countsLen ≤ iter.countsIndex) := by
    have index := passed.index
    rw [not_or, not_not, passed.hasNext_iff, histogram]
    refine ⟨goesOn, ?_⟩
    simp only [HdrHistogram.countsLen]
    omega
  have moved := moveNext_within passed.index (by rwa [histogram])
  refine ⟨?_, ?_, ?_, ?_⟩
  · rw [HdrIterator.basicNext, if_neg before, moved]
  · simp only [HdrIterator.load, histogram]
    rfl
  · simp only [HdrIterator.load, histogram]
  · refine
      { histogram := histogram
        index := ?_
        within := more
        totalCount := passed.totalCount
        cumulativeCount := ?_ }
    · simp only [HdrIterator.load]
      omega
    · have count_eq : h.countsGetNormalised visited = h.countAtIndex visited := rfl
      simp only [HdrIterator.load, histogram, passed.cumulativeCount, count_eq]
      rw [countBefore_succ]
      exact Int.bmod_add_bmod

theorem Passed.report {moved : HdrIterator} (passed : Passed h visited moved) :
    Passed h visited (HdrRecordedIterator.report moved).toHdrIterator where
  histogram := passed.histogram
  index := passed.index
  within := passed.within
  totalCount := passed.totalCount
  cumulativeCount := passed.cumulativeCount

/-- A step ends at once where the counts so far are not less than the total. -/
theorem Passed.next_stop (passed : Passed h visited iter.toHdrIterator)
    (stops : ¬Within h visited) : iter.next = some (false, iter) := by
  rw [HdrRecordedIterator.next, HdrRecordedIterator.seekRecorded, passed.basicNext_stop stops]
  rfl

/-- Otherwise the loop of a step ends at the next index with a count. -/
theorem Passed.seekRecorded_spec (total : h.totalCount = int64 (countBefore h h.counts.length))
    {rounds : Nat} (passed : Passed h visited iter.toHdrIterator) (goesOn : Within h visited)
    (enough : h.counts.length < visited + rounds) :
    ∃ index step, iter.seekRecorded rounds = some (true, step) ∧
      recordedFrom h visited = index :: recordedFrom h (index + 1) ∧
      countBefore h visited = countBefore h index ∧ visited ≤ index ∧ index < h.counts.length ∧
      StepAt h iter.valueIteratedTo index step ∧
      step.valueIteratedTo = h.config.valueAtIndex index ∧
      Passed h (index + 1) step.toHdrIterator := by
  have more : visited < h.counts.length := by
    refine lt_of_le_of_ne passed.within ?_
    rintro rfl
    rw [Within, total] at goesOn
    exact lt_irrefl _ goesOn
  induction rounds generalizing visited iter with
  | zero => omega
  | succ rounds continued =>
      rcases passed.basicNext_move goesOn more with ⟨moved, count_eq, value_eq, passedOn⟩
      by_cases zero : h.countAtIndex visited = 0
      · have added := countBefore_succ h visited
        rw [zero, add_zero] at added
        have goesFurther : Within h (visited + 1) := by rwa [Within, added]
        have evenMore : visited + 1 < h.counts.length := by
          refine lt_of_le_of_ne passedOn.within fun atEnd => ?_
          rw [Within, total, atEnd] at goesFurther
          exact lt_irrefl _ goesFurther
        have passedLater : Passed h (visited + 1) (HdrRecordedIterator.toHdrIterator { iter with
            toHdrIterator := { iter.toHdrIterator with countsIndex := visited }.load }) :=
          passedOn
        rcases continued passedLater goesFurther (by omega) evenMore with
          ⟨index, step, sought, rest⟩
        rcases rest with ⟨indices, same, further, rest⟩
        refine ⟨index, step, ?_, ?_, ?_, by omega, rest⟩
        · rw [HdrRecordedIterator.seekRecorded]
          simp only [moved, count_eq, zero, ne_eq, not_true_eq_false, if_true, if_false]
          exact sought
        · rw [recordedFrom_zero more zero]
          exact indices
        · rw [← added]
          exact same
      · refine ⟨visited,
          .report { iter.toHdrIterator with countsIndex := visited }.load, ?_,
          recordedFrom_count more zero, rfl, le_rfl, more, ?_, ?_, ?_⟩
        · rw [HdrRecordedIterator.seekRecorded]
          simp only [moved, count_eq, zero, ne_eq, not_false_eq_true, if_true]
        · exact
            { index := rfl
              added := count_eq
              value := value_eq
              iteratedFrom := rfl }
        · exact value_eq
        · exact passedOn.report

/-! ## Whole iterations -/

theorem RecordedSteps.of_nil {indices : List Nat} {previous : Int}
    (steps : RecordedSteps h previous indices []) : indices = [] := by
  cases steps
  rfl

/--
From any index on, the iteration visits all indices with a count if and only if the
counts before each of them add up to less than the total.
-/
theorem Passed.visits_iff (total : h.totalCount = int64 (countBefore h h.counts.length))
    {remaining : Nat} (remaining_eq : remaining = h.counts.length - visited)
    (passed : Passed h visited iter.toHdrIterator) :
    Visits h (recordedFrom h visited) iter ↔
      ∀ index ∈ recordedFrom h visited, Within h index := by
  induction remaining using Nat.strong_induction_on generalizing visited iter with
  | _ remaining continued =>
      by_cases goesOn : Within h visited
      · obtain ⟨index, step, sought, indices, same, further, more, stepAt, iteratedTo, passedOn⟩ :=
          passed.seekRecorded_spec total goesOn
            (show h.counts.length < visited + (iter.h.counts.length + 2) by
              rw [passed.histogram]
              omega)
        have stepped : iter.next = some (true, step) := sought
        have within : Within h index := by rwa [Within, ← same]
        have rest := continued _ (by omega) rfl passedOn
        rw [indices, List.forall_mem_cons, ← rest]
        constructor
        · rintro ⟨calls, steps, iterated, walk, complete⟩
          refine ⟨within, ?_⟩
          cases calls with
          | zero => cases iterated
          | succ calls =>
              rw [HdrRecordedIterator.iterate, stepped] at iterated
              obtain ⟨later, iteratedOn, rfl⟩ := Option.map_eq_some_iff.mp iterated
              cases walk with
              | visited first walkOn =>
                  rw [← iteratedTo] at walkOn
                  rw [List.getLastD_cons] at complete
                  exact ⟨calls, later, iteratedOn, walkOn, complete⟩
        · rintro ⟨-, calls, steps, iterated, walk, complete⟩
          refine ⟨calls + 1, step :: steps, ?_, .visited stepAt ?_, ?_⟩
          · rw [HdrRecordedIterator.iterate, stepped]
            exact Option.map_eq_some_iff.mpr ⟨steps, iterated, rfl⟩
          · rwa [← iteratedTo]
          · rwa [List.getLastD_cons]
      · have stopped := passed.next_stop goesOn
        rcases countBefore_recordedFrom passed.within with
          ⟨none, all⟩ | ⟨index, -, -, indices, same⟩
        · rw [none]
          refine ⟨fun _ _ member => absurd member List.not_mem_nil, fun _ => ?_⟩
          refine ⟨1, [], ?_, .done, ⟨?_, stopped⟩⟩
          · rw [HdrRecordedIterator.iterate, stopped]
          · rw [List.getLastD_nil, passed.cumulativeCount, all, total]
        · -- the iteration ends at once, before the first of the indices
          rw [indices]
          constructor
          · rintro ⟨calls, steps, iterated, walk, -⟩
            cases calls with
            | zero => cases iterated
            | succ calls =>
                rw [HdrRecordedIterator.iterate, stopped] at iterated
                obtain rfl := Option.some.inj iterated
                exact absurd walk.of_nil (List.cons_ne_nil _ _)
          · intro all
            refine absurd (all index List.mem_cons_self) ?_
            rwa [Within, ← same]

/-- Counts that are not negative only grow towards the total. -/
theorem Counted.within {half unit buckets : Nat} (counted : Counted h half unit buckets)
    (member : index ∈ recordedFrom h 0) : Within h index := by
  obtain ⟨inRange, count⟩ := List.mem_filter.mp member
  have more : index < h.counts.length := by
    rw [List.mem_range'_1] at inRange
    omega
  have before := counted.countBefore_bounds more.le
  have behind := countBefore_mono counted.nonneg (show index + 1 ≤ h.counts.length from more) le_rfl
  have nonneg := counted.nonneg index more
  have added := countBefore_succ h index
  have total := counted.total
  have nonzero : h.countAtIndex index ≠ 0 := of_decide_eq_true count
  rw [Within, int64_eq (by omega) before.2]
  omega

theorem visitsRecorded_iff (total : h.totalCount = int64 (countBefore h h.counts.length)) :
    VisitsRecorded h ↔ ∀ index ∈ recordedFrom h 0, Within h index :=
  (passed_create h).visits_iff total rfl

end

/--
The iteration over a histogram visits the indices with a count other than zero if and
only if the counts before each of these, as a 64-bit number, are less than the total.
So it does where no count is negative and the total count can hold their sum.
-/
theorem run_visitsRecorded_iff {lowest highest : Int64} {figures : Int32}
    {config : HdrBucketConfig}
    (created : HdrBucketConfig.create lowest highest figures = some (.ok config))
    (ops : List Op) :
    (VisitsRecorded ((HdrHistogram.create config).run ops) ↔
      ∀ index ∈ recordedFrom ((HdrHistogram.create config).run ops) 0,
        int64 (countBefore ((HdrHistogram.create config).run ops) index) <
          ((HdrHistogram.create config).run ops).totalCount) ∧
    ((∀ index : Nat, index < ((HdrHistogram.create config).run ops).counts.length →
        0 ≤ ((HdrHistogram.create config).run ops).countAtIndex index) →
      countBefore ((HdrHistogram.create config).run ops)
        ((HdrHistogram.create config).run ops).counts.length < 2 ^ 63 →
      VisitsRecorded ((HdrHistogram.create config).run ops)) := by
  rcases HdrBucketConfig.create_shape created with ⟨half, unit, buckets, shape⟩
  have tracks := tracks_run shape ops
  generalize (HdrHistogram.create config).run ops = h at *
  have exact_when := visitsRecorded_iff (tracks.totalCount_eq shape)
  refine ⟨exact_when, fun nonneg small => exact_when.mpr fun index member => ?_⟩
  exact (tracks.counted shape nonneg small).within member

/-- Three values are visited, two of which share an index. -/
theorem run_visitsRecorded_byte :
    ∃ config, HdrBucketConfig.create 1 1023 2 = some (.ok config) ∧
      VisitsRecorded ((HdrHistogram.create config).run
        [.recordValue 514, .recordValue 1, .recordValue 515]) := by
  have created : HdrBucketConfig.create 1 1023 2 =
      some (.ok ⟨1, 1023, 2, 0, 7, 256, 128, 255, 3, 512⟩) := by
    decide +kernel
  rcases HdrBucketConfig.create_shape created with ⟨half, unit, buckets, shape⟩
  have tracks := tracks_run shape [.recordValue 514, .recordValue 1, .recordValue 515]
  -- The counts of all indices follow from those of the three entries.
  have counted : ∀ entry ∈ HdrBucketConfig.accepted ⟨1, 1023, 2, 0, 7, 256, 128, 255, 3, 512⟩
      [.recordValue 514, .recordValue 1, .recordValue 515], 0 ≤ entry.count := by
    decide +kernel
  have small : ((HdrBucketConfig.accepted ⟨1, 1023, 2, 0, 7, 256, 128, 255, 3, 512⟩
      [.recordValue 514, .recordValue 1, .recordValue 515]).map Recorded.count).sum < 2 ^ 63 := by
    decide +kernel
  refine ⟨_, created, (run_visitsRecorded_iff created _).2
    (fun index within => tracks.countAtIndex_nonneg counted small within) ?_⟩
  rw [tracks.countBefore_all shape counted small, tracks.totalCount counted small]
  exact small

/-- With a count of less than zero the total is reached before the first step. -/
theorem not_visitsRecorded_negative :
    ∃ config, HdrBucketConfig.create 1 1023 2 = some (.ok config) ∧
      ¬VisitsRecorded ((HdrHistogram.create config).run
        [.recordValues 1 5, .recordValues 2 (-5)]) := by
  have created : HdrBucketConfig.create 1 1023 2 =
      some (.ok ⟨1, 1023, 2, 0, 7, 256, 128, 255, 3, 512⟩) := by
    decide +kernel
  refine ⟨_, created, fun visits => ?_⟩
  rcases HdrBucketConfig.create_shape created with ⟨half, unit, buckets, shape⟩
  have tracks := tracks_run shape [.recordValues 1 5, .recordValues 2 (-5)]
  have within := (visitsRecorded_iff (tracks.totalCount_eq shape)).mp visits 1
    (by decide +kernel)
  revert within
  rw [Within]
  decide +kernel

end ReactiveToolbox.Hdr
