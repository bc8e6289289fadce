import Mathlib.Algebra.Order.BigOperators.Group.Finset
import ReactiveToolbox.Hdr.Record

/-!
# Percentiles

`value_at_percentile` walks over the counts until it has passed the rank that the
percentile stands for.  The rank is computed in floating point, taken as exact
here, and converted to an `int` on the way; a rank that does not fit one is lost.
-/

namespace ReactiveToolbox.Hdr

open ReactiveToolbox.Lib

/-! ## The iterator -/

/-- `HdrIterator`.  Its constructor leaves the lowest and the median value unset. -/
structure HdrIterator where
  h : HdrHistogram
  countsIndex : Int
  totalCount : Int
  count : Int
  cumulativeCount : Int
  value : Int
  highestEquivalentValue : Int
  lowestEquivalentValue : Int
  medianEquivalentValue : Int
  valueIteratedFrom : Int
  valueIteratedTo : Int

namespace HdrIterator

/-- The constructor: an iterator stands before the first position. -/
def create (h : HdrHistogram) : HdrIterator where
  h := h
  countsIndex := -1
  totalCount := h.totalCount
  count := 0
  cumulativeCount := 0
  value := 0
  highestEquivalentValue := 0
  lowestEquivalentValue := 0
  medianEquivalentValue := 0
  valueIteratedFrom := 0
  valueIteratedTo := 0

/-- There are positions left. -/
def hasBuckets (iter : HdrIterator) : Prop :=
  iter.countsIndex < iter.h.countsLen

instance (iter : HdrIterator) : Decidable iter.hasBuckets :=
  inferInstanceAs (Decidable (_ < _))

/-- `move_next`, behind the step to the next index. -/
def load (iter : HdrIterator) : HdrIterator :=
  let count := iter.h.countsGetNormalised iter.countsIndex
  let value := iter.h.config.valueAtIndex iter.countsIndex
  { iter with
    count := count
    cumulativeCount := int64 (iter.cumulativeCount + count)
    value := value
    highestEquivalentValue := iter.h.config.highestEquivalentValue value
    lowestEquivalentValue := iter.h.config.lowestEquivalentValue value
    medianEquivalentValue := iter.h.config.medianEquivalentValue value }

/-- `move_next`: whether there was another bucket, and the iterator behind it. -/
def moveNext (iter : HdrIterator) : Bool × HdrIterator :=
  let moved := { iter with countsIndex := iter.countsIndex + 1 }
  if moved.hasBuckets then (true, moved.load) else (false, moved)

/-- Where the last step has led from, and where to. -/
def updateIteratedValues (iter : HdrIterator) (newValueIteratedTo : Int) : HdrIterator :=
  { iter with
    valueIteratedFrom := iter.valueIteratedTo
    valueIteratedTo := newValueIteratedTo }

/-- `next`, which is `do_next` of the base iterator. -/
def next (iter : HdrIterator) : Bool × HdrIterator :=
  let moved := iter.moveNext
  if moved.1 then (true, moved.2.updateIteratedValues moved.2.value) else moved

end HdrIterator

/-! ## The value at a percentile -/

/-- The conversion to an `int`; out of range it gives the least `int`, as the hardware does. -/
def toInt32 (value : ℚ) : Int :=
  let truncated := if 0 ≤ value then ⌊value⌋ else ⌈value⌉
  if -2 ^ 31 ≤ truncated ∧ truncated < 2 ^ 31 then truncated else -2 ^ 31

/-- The rank of a percentile before it is converted. -/
def percentileRank (h : HdrHistogram) (percentile : ℚ) : ℚ :=
  (if 100 < percentile then 100 else percentile) * h.totalCount / 100 + 1 / 2

/-- `get_count_at_percentile`. -/
def getCountAtPercentile (h : HdrHistogram) (percentile : ℚ) : Int :=
  let countAtPercentile := toInt32 (percentileRank h percentile)
  max countAtPercentile 1

/--
The loop of `value_at_percentile`, for some number of steps; `none` when it has not
ended by then.
-/
def seekCount (h : HdrHistogram) (countAtPercentile : Int) (steps : Nat) (total : Int)
    (iter : HdrIterator) : Option Int :=
  match steps with
  | 0 => none
  | steps + 1 =>
      let moved := iter.next
      if moved.1 then
        let total := int64 (total + moved.2.count)
        if countAtPercentile ≤ total then some (h.config.highestEquivalentValue moved.2.value)
        else seekCount h countAtPercentile steps total moved.2
      else some 0

/-- `value_at_percentile`.  The iterator gives up behind the last of the counts. -/
def valueAtPercentile (h : HdrHistogram) (percentile : ℚ) : Option Int :=
  seekCount h (getCountAtPercentile h percentile) (h.counts.length + 1) 0 (HdrIterator.create h)

/-! ## Ranks and buckets -/

/-- The count of the buckets up to and including one. -/
def cumulative (h : HdrHistogram) (index : Nat) : Int :=
  ∑ bucket ∈ Finset.range (index + 1), h.countAtIndex bucket

/-- The buckets whose cumulative count reaches a rank. -/
def reaching (h : HdrHistogram) (rank : Int) : Set Nat :=
  {index | index < h.counts.length ∧ rank ≤ cumulative h index}

/-- The rank that a percentile stands for. -/
def rankOf (h : HdrHistogram) (percentile : ℚ) : Int :=
  max 1 ⌊min percentile 100 * h.totalCount / 100 + 1 / 2⌋

/--
The answer is the highest value equivalent to the first bucket whose cumulative
count reaches the rank.
-/
def AnswersPercentile (h : HdrHistogram) (percentile : ℚ) : Prop :=
  ∃ index, IsLeast (reaching h (rankOf h percentile)) index ∧
    valueAtPercentile h percentile =
      some (h.config.highestEquivalentValue (h.config.valueAtIndex index))

/-! ## The rank -/

section

variable {h : HdrHistogram} {percentile : ℚ}

theorem percentileRank_eq (h : HdrHistogram) (percentile : ℚ) :
    percentileRank h percentile = min percentile 100 * h.totalCount / 100 + 1 / 2 := by
  unfold percentileRank
  by_cases above : 100 < percentile
  · rw [if_pos above, min_eq_right above.le]
  · rw [if_neg above, min_eq_left (not_lt.mp above)]

theorem percentileRank_nonneg (nonnegative : 0 ≤ percentile) (counted : 0 ≤ h.totalCount) :
    0 ≤ percentileRank h percentile := by
  have capped : 0 ≤ min percentile 100 := le_min nonnegative (by norm_num)
  have total : (0 : ℚ) ≤ h.totalCount := by exact_mod_cast counted
  rw [percentileRank_eq]
  positivity

theorem rankOf_eq (h : HdrHistogram) (percentile : ℚ) :
    rankOf h percentile = max 1 ⌊percentileRank h percentile⌋ := by
  rw [percentileRank_eq]
  rfl

theorem rankOf_le (nonempty : 1 ≤ h.totalCount) : rankOf h percentile ≤ h.totalCount := by
  rw [rankOf_eq, percentileRank_eq]
  refine max_le nonempty (Int.lt_add_one_iff.mp (Int.floor_lt.mpr ?_))
  have total : (0 : ℚ) ≤ h.totalCount := by
    exact_mod_cast Int.le_trans (by decide) nonempty
  have capped : min percentile 100 * h.totalCount ≤ 100 * h.totalCount :=
    mul_le_mul_of_nonneg_right (min_le_right _ _) total
  push_cast
  linarith

/-- A rank that fits an `int` is found exactly. -/
theorem getCountAtPercentile_small (nonnegative : 0 ≤ percentile) (counted : 0 ≤ h.totalCount)
    (small : rankOf h percentile < 2 ^ 31) :
    getCountAtPercentile h percentile = rankOf h percentile := by
  have rank_nonneg := percentileRank_nonneg nonnegative counted
  have floor_nonneg := Int.floor_nonneg.mpr rank_nonneg
  rw [rankOf_eq] at small ⊢
  simp only [getCountAtPercentile, toInt32, if_pos rank_nonneg]
  rw [if_pos ⟨by omega, by omega⟩, max_comm]

/-- A rank that does not fit an `int` is taken for the first one. -/
theorem getCountAtPercentile_large (nonnegative : 0 ≤ percentile) (counted : 0 ≤ h.totalCount)
    (large : 2 ^ 31 ≤ rankOf h percentile) : getCountAtPercentile h percentile = 1 := by
  have rank_nonneg := percentileRank_nonneg nonnegative counted
  rw [rankOf_eq] at large
  simp only [getCountAtPercentile, toInt32, if_pos rank_nonneg]
  rw [if_neg (by omega)]
  decide

/-! ## The walk -/

/-- The count of the buckets before one. -/
def countBefore (h : HdrHistogram) (index : Nat) : Int :=
  ∑ bucket ∈ Finset.range index, h.countAtIndex bucket

theorem countBefore_succ (h : HdrHistogram) (index : Nat) :
    countBefore h (index + 1) = countBefore h index + h.countAtIndex index :=
  Finset.sum_range_succ ..

theorem countBefore_mono
    (counts : ∀ index : Nat, index < h.counts.length → 0 ≤ h.countAtIndex index)
    {smaller larger : Nat} (ordered : smaller ≤ larger) (within : larger ≤ h.counts.length) :
    countBefore h smaller ≤ countBefore h larger := by
  refine Finset.sum_le_sum_of_subset_of_nonneg (Finset.range_subset_range.mpr ordered) ?_
  intro index member _
  exact counts index ((Finset.mem_range.mp member).trans_le within)

theorem next_within {iter : HdrIterator} {visited : Nat} (h_eq : iter.h = h)
    (index_eq : iter.countsIndex = visited - 1) (within : visited < h.counts.length) :
    iter.next.1 = true ∧ iter.next.2.h = h ∧ iter.next.2.countsIndex = visited ∧
      iter.next.2.count = h.countAtIndex visited ∧
      iter.next.2.value = h.config.valueAtIndex visited := by
  have moved : iter.countsIndex + 1 = visited := by omega
  have more : (visited : Int) < h.countsLen := by
    simp only [HdrHistogram.countsLen]
    omega
  simp only [HdrIterator.next, HdrIterator.moveNext, HdrIterator.hasBuckets, moved, h_eq,
    if_pos more, if_true]
  exact ⟨trivial, rfl, rfl, rfl, rfl⟩

/-- The walk stops at the first bucket whose cumulative count reaches the rank. -/
theorem seekCount_spec {rank : Int}
    (counts : ∀ index : Nat, index < h.counts.length → 0 ≤ h.countAtIndex index)
    (small : countBefore h h.counts.length < 2 ^ 63)
    (reached : rank ≤ countBefore h h.counts.length) {steps visited : Nat} {iter : HdrIterator}
    (h_eq : iter.h = h) (index_eq : iter.countsIndex = visited - 1)
    (within : visited ≤ h.counts.length) (enough : h.counts.length < visited + steps)
    (before : countBefore h visited < rank) :
    ∃ index, IsLeast (reaching h rank) index ∧
      seekCount h rank steps (countBefore h visited) iter =
        some (h.config.highestEquivalentValue (h.config.valueAtIndex index)) := by
  induction steps generalizing visited iter with
  | zero => omega
  | succ steps continued =>
      have more : visited < h.counts.length := by
        by_contra atEnd
        have last : visited = h.counts.length := by omega
        rw [last] at before
        omega
      rcases next_within h_eq index_eq more with ⟨moved, next_h, next_index, count_eq, value_eq⟩
      have positive : 0 ≤ countBefore h (visited + 1) :=
        countBefore_mono counts (Nat.zero_le _) more
      have bounded : countBefore h (visited + 1) ≤ countBefore h h.counts.length :=
        countBefore_mono counts more le_rfl
      have total_eq : int64 (countBefore h visited + iter.next.2.count) =
          countBefore h (visited + 1) := by
        rw [count_eq, ← countBefore_succ]
        exact int64_eq (by omega) (by omega)
      simp only [seekCount, moved, if_true, total_eq]
      by_cases stops : rank ≤ countBefore h (visited + 1)
      · refine ⟨visited, ⟨⟨more, stops⟩, ?_⟩, ?_⟩
        · rintro index ⟨indexWithin, indexReaches⟩
          by_contra earlier
          have below : countBefore h (index + 1) ≤ countBefore h visited :=
            countBefore_mono counts (by omega) within
          exact absurd (indexReaches.trans below) (by omega)
        · rw [if_pos stops, value_eq]
      · rw [if_neg stops]
        refine continued next_h ?_ more (by omega) (by omega)
        rw [next_index]
        push_cast
        omega

theorem valueAtPercentile_spec (percentile : ℚ)
    (counts : ∀ index : Nat, index < h.counts.length → 0 ≤ h.countAtIndex index)
    (small : countBefore h h.counts.length < 2 ^ 63)
    (positive : 1 ≤ getCountAtPercentile h percentile)
    (reached : getCountAtPercentile h percentile ≤ countBefore h h.counts.length) :
    ∃ index, IsLeast (reaching h (getCountAtPercentile h percentile)) index ∧
      valueAtPercentile h percentile =
        some (h.config.highestEquivalentValue (h.config.valueAtIndex index)) := by
  have nothing : countBefore h 0 = 0 := Finset.sum_range_zero _
  have found : ∃ index, IsLeast (reaching h (getCountAtPercentile h percentile)) index ∧
      seekCount h (getCountAtPercentile h percentile) (h.counts.length + 1) (countBefore h 0)
          (HdrIterator.create h) =
        some (h.config.highestEquivalentValue (h.config.valueAtIndex index)) :=
    seekCount_spec counts small reached rfl rfl (Nat.zero_le _) (by omega) (by omega)
  rwa [nothing] at found

end

/-! ## Percentiles of recorded values -/

section

variable {config : HdrBucketConfig} {half unit buckets : Nat} {h : HdrHistogram}
  {recorded : List Recorded}

theorem Tracks.countAtIndex_nonneg (tracks : Tracks config h recorded)
    (counted : ∀ entry ∈ recorded, 0 ≤ entry.count)
    (small : (recorded.map Recorded.count).sum < 2 ^ 63) {index : Nat}
    (within : index < h.counts.length) : 0 ≤ h.countAtIndex index := by
  have length := tracks.length
  simp only [HdrHistogram.countsLen] at length
  rw [tracks.countAtIndex counted small (by omega)]
  exact countOf_nonneg counted

theorem Tracks.countBefore_all (shape : config.Shape half unit buckets)
    (tracks : Tracks config h recorded) (counted : ∀ entry ∈ recorded, 0 ≤ entry.count)
    (small : (recorded.map Recorded.count).sum < 2 ^ 63) :
    countBefore h h.counts.length = h.totalCount := by
  have sum_eq := tracks.sum_countAtIndex shape counted small
  simp only [HdrHistogram.countsLen, Int.toNat_natCast] at sum_eq
  rw [tracks.totalCount counted small, ← sum_eq]
  rfl

/-- Different buckets have different highest values. -/
theorem Tracks.highest_injective (shape : config.Shape half unit buckets)
    (tracks : Tracks config h recorded) {left right : Nat} (leftWithin : left < h.counts.length)
    (rightWithin : right < h.counts.length)
    (same : config.highestEquivalentValue (config.valueAtIndex left) =
      config.highestEquivalentValue (config.valueAtIndex right)) : left = right := by
  have length := tracks.length
  simp only [HdrHistogram.countsLen] at length
  rcases shape.cell_bounds (by omega : left < config.countsLen.toNat) with ⟨leftShort, leftSmall⟩
  rcases shape.cell_bounds (by omega : right < config.countsLen.toNat) with
    ⟨rightShort, rightSmall⟩
  rw [shape.valueAtIndex_natCast leftShort leftSmall,
    shape.valueAtIndex_natCast rightShort rightSmall,
    shape.highestEquivalentValue_natCast leftShort,
    shape.highestEquivalentValue_natCast rightShort, LogLinear.cell_lower,
    LogLinear.cell_lower] at same
  have bounds_eq :
      LogLinear.lower half unit (left + 1) = LogLinear.lower half unit (right + 1) := by
    omega
  exact Nat.succ_injective (LogLinear.lower_strictMono.injective bounds_eq)

end

/--
The rank fits an `int`, or the first bucket that holds anything holds as many
values as the rank.
-/
def RankInReach (h : HdrHistogram) (percentile : ℚ) : Prop :=
  rankOf h percentile < 2 ^ 31 ∨
    ∃ index, IsLeast (reaching h 1) index ∧ rankOf h percentile ≤ cumulative h index

/--
After every run that has recorded something, the percentiles are answered exactly
where their rank is in reach.
-/
theorem run_answersPercentile_iff {lowest highest : Int64} {figures : Int32}
    {config : HdrBucketConfig}
    (created : HdrBucketConfig.create lowest highest figures = some (.ok config))
    (ops : List Op) (counted : ∀ op ∈ ops, 0 ≤ op.count)
    (small : ((config.accepted ops).map Recorded.count).sum < 2 ^ 63)
    (nonempty : 1 ≤ ((HdrHistogram.create config).run ops).totalCount) {percentile : ℚ}
    (nonnegative : 0 ≤ percentile) :
    AnswersPercentile ((HdrHistogram.create config).run ops) percentile ↔
      RankInReach ((HdrHistogram.create config).run ops) percentile := by
  rcases HdrBucketConfig.create_shape created with ⟨half, unit, buckets, shape⟩
  have tracks := tracks_run shape ops
  have countedEntries := accepted_counted config zero_le_one counted
  generalize (HdrHistogram.create config).run ops = h at *
  generalize config.accepted ops = recorded at *
  have counts : ∀ index : Nat, index < h.counts.length → 0 ≤ h.countAtIndex index :=
    fun index within => tracks.countAtIndex_nonneg countedEntries small within
  have all_eq := tracks.countBefore_all shape countedEntries small
  have total_lt : h.totalCount < 2 ^ 63 := by
    rw [tracks.totalCount countedEntries small]
    exact small
  have rank_le : rankOf h percentile ≤ h.totalCount := rankOf_le nonempty
  have rank_pos : 1 ≤ rankOf h percentile := le_max_left 1 _
  rcases lt_or_ge (rankOf h percentile) (2 ^ 31) with fits | large
  · have count_eq := getCountAtPercentile_small nonnegative (by omega) fits
    have found := valueAtPercentile_spec percentile counts (by omega) (by omega) (by omega)
    rw [count_eq] at found
    exact iff_of_true found (Or.inl fits)
  · -- The rank is lost and the first value is answered in its place.
    have count_eq := getCountAtPercentile_large nonnegative (by omega) large
    have found := valueAtPercentile_spec percentile counts (by omega) (by omega) (by omega)
    rw [count_eq] at found
    rcases found with ⟨first, firstLeast, answer⟩
    constructor
    · rintro ⟨index, indexLeast, indexAnswer⟩
      rw [indexAnswer, Option.some.injEq, tracks.configured] at answer
      have same := tracks.highest_injective shape indexLeast.1.1 firstLeast.1.1 answer
      subst same
      exact Or.inr ⟨index, firstLeast, indexLeast.1.2⟩
    · rintro (fits | ⟨index, indexLeast, reaches⟩)
      · omega
      · have same := indexLeast.unique firstLeast
        subst same
        refine ⟨index, ⟨⟨indexLeast.1.1, reaches⟩, ?_⟩, answer⟩
        rintro other ⟨otherWithin, otherReaches⟩
        exact indexLeast.2 ⟨otherWithin, rank_pos.trans otherReaches⟩

theorem run_answersPercentile_iff_median :
    ∃ config, HdrBucketConfig.create 1 3600 1 = some (.ok config) ∧
      AnswersPercentile
        ((HdrHistogram.create config).run [.recordValue 1, .recordValues 1000 2147]) 50 := by
  have created : HdrBucketConfig.create 1 3600 1 =
      some (.ok ⟨1, 3600, 1, 0, 4, 32, 16, 31, 8, 144⟩) := by
    decide +kernel
  refine ⟨_, created, (run_answersPercentile_iff created _ (by decide) (by decide +kernel)
    (by decide +kernel) (by norm_num)).mpr (Or.inl ?_)⟩
  decide +kernel

/-- With 2 ^ 31 + 1 values the highest percentile is answered with the least value. -/
theorem valueAtPercentile_of_many :
    ∃ config, HdrBucketConfig.create 1 3600 1 = some (.ok config) ∧
      valueAtPercentile
          ((HdrHistogram.create config).run [.recordValue 1, .recordValues 1000 2147483648]) 100 =
        some 1 ∧
      config.highestEquivalentValue 1000 = 1023 ∧
      ¬AnswersPercentile
        ((HdrHistogram.create config).run [.recordValue 1, .recordValues 1000 2147483648]) 100 := by
  have created : HdrBucketConfig.create 1 3600 1 =
      some (.ok ⟨1, 3600, 1, 0, 4, 32, 16, 31, 8, 144⟩) := by
    decide +kernel
  have answered : valueAtPercentile
      ((HdrHistogram.create ⟨1, 3600, 1, 0, 4, 32, 16, 31, 8, 144⟩).run
        [.recordValue 1, .recordValues 1000 2147483648]) 100 = some 1 := by
    decide +kernel
  have short : ∀ index : Nat, index < ((HdrHistogram.create
        ⟨1, 3600, 1, 0, 4, 32, 16, 31, 8, 144⟩).run
        [.recordValue 1, .recordValues 1000 2147483648]).counts.length →
      HdrBucketConfig.highestEquivalentValue ⟨1, 3600, 1, 0, 4, 32, 16, 31, 8, 144⟩
          (HdrBucketConfig.valueAtIndex ⟨1, 3600, 1, 0, 4, 32, 16, 31, 8, 144⟩ index) = 1 →
        cumulative ((HdrHistogram.create ⟨1, 3600, 1, 0, 4, 32, 16, 31, 8, 144⟩).run
            [.recordValue 1, .recordValues 1000 2147483648]) index <
          rankOf ((HdrHistogram.create ⟨1, 3600, 1, 0, 4, 32, 16, 31, 8, 144⟩).run
            [.recordValue 1, .recordValues 1000 2147483648]) 100 := by
    decide +kernel
  have configured : ((HdrHistogram.create ⟨1, 3600, 1, 0, 4, 32, 16, 31, 8, 144⟩).run
      [.recordValue 1, .recordValues 1000 2147483648]).config =
        ⟨1, 3600, 1, 0, 4, 32, 16, 31, 8, 144⟩ := by
    decide +kernel
  refine ⟨_, created, answered, by decide +kernel, ?_⟩
  generalize (HdrHistogram.create _).run _ = h at *
  rintro ⟨index, ⟨⟨within, reaches⟩, -⟩, answer⟩
  rw [answered, configured] at answer
  exact absurd reaches (not_le.mpr (short index within (Option.some.inj answer).symm))

end ReactiveToolbox.Hdr
