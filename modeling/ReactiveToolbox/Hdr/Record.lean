import Mathlib.Algebra.BigOperators.Group.Finset.Piecewise
import Mathlib.Algebra.BigOperators.Group.List.Basic
import Mathlib.Algebra.Order.BigOperators.Group.List
import ReactiveToolbox.Hdr.Index

/-!
# Recording values

What a histogram has accepted since it was last reset is a list of values with
their counts.  The counts of the histogram are those of the list, cell by cell,
and its least and greatest values are those of the list, except for one value:
`INT64_MAX` as the least one is taken for the mark of an empty histogram.
-/

namespace ReactiveToolbox.Hdr

open ReactiveToolbox.Lib

/-! ## Equivalent values -/

namespace HdrBucketConfig

/-- The values of an `int64_t` that are equivalent to a value. -/
def equivalents (config : HdrBucketConfig) (value : Int) : Set Int :=
  {other | 0 ≤ other ∧ other ≤ int64Max ∧ config.valuesAreEquivalent other value}

section

variable {config : HdrBucketConfig} {half unit buckets : Nat}

theorem Shape.valuesAreEquivalent_natCast (shape : config.Shape half unit buckets)
    {a b : Nat} (aShort : a < 2 ^ 63) (bShort : b < 2 ^ 63) :
    config.valuesAreEquivalent a b ↔
      LogLinear.cell half unit a = LogLinear.cell half unit b := by
  unfold valuesAreEquivalent
  rw [shape.lowestEquivalentValue_natCast aShort, shape.lowestEquivalentValue_natCast bShort,
    Int.natCast_inj, LogLinear.lower_strictMono.injective.eq_iff]

theorem Shape.countsIndexFor_eq_iff (shape : config.Shape half unit buckets)
    {a b : Int} (aNonneg : 0 ≤ a) (aBounded : a ≤ int64Max) (bNonneg : 0 ≤ b)
    (bBounded : b ≤ int64Max) :
    config.countsIndexFor a = config.countsIndexFor b ↔ config.valuesAreEquivalent a b := by
  unfold int64Max at aBounded bBounded
  lift a to Nat using aNonneg
  lift b to Nat using bNonneg
  rw [shape.valuesAreEquivalent_natCast (by omega) (by omega),
    shape.countsIndexFor_natCast (by omega), shape.countsIndexFor_natCast (by omega),
    Int.natCast_inj]

theorem Shape.countsIndexFor_nonneg (shape : config.Shape half unit buckets)
    {value : Int} (nonnegative : 0 ≤ value) (bounded : value ≤ int64Max) :
    0 ≤ config.countsIndexFor value := by
  unfold int64Max at bounded
  lift value to Nat using nonnegative
  rw [shape.countsIndexFor_natCast (by omega)]
  exact Int.natCast_nonneg _

/-- The last cell of an `int64_t` ends with its last value. -/
theorem Shape.lower_cell_succ_le (shape : config.Shape half unit buckets) {value : Nat}
    (short : value < 2 ^ 63) :
    LogLinear.lower half unit (LogLinear.cell half unit value + 1) ≤ 2 ^ 63 := by
  have bounded := shape.unit_add_half_le
  have top : LogLinear.lower half unit ((63 - (unit + half) + 1) * 2 ^ half) = 2 ^ 63 := by
    rw [LogLinear.lower_tiers]
    congr 1
    omega
  have within : LogLinear.cell half unit value < (63 - (unit + half) + 1) * 2 ^ half := by
    rw [LogLinear.cell_lt_iff, top]
    exact short
  rw [← top]
  exact LogLinear.lower_strictMono.monotone within

theorem Shape.highestEquivalentValue_natCast (shape : config.Shape half unit buckets)
    {value : Nat} (short : value < 2 ^ 63) :
    config.highestEquivalentValue value =
      LogLinear.lower half unit (LogLinear.cell half unit value + 1) - 1 := by
  have ends := shape.lower_cell_succ_le short
  unfold highestEquivalentValue nextNonEquivalentValue
  rw [shape.lowestEquivalentValue_natCast short, shape.sizeOfEquivalentValueRange_natCast short,
    ← Int.natCast_add, ← LogLinear.lower_succ]
  -- The next value may be one too large for an `int64_t`; the subtraction brings it back.
  have wrapped : int64 (int64 (LogLinear.lower half unit (LogLinear.cell half unit value + 1) :
      Nat) - 1) =
      int64 (LogLinear.lower half unit (LogLinear.cell half unit value + 1) - 1) :=
    Int.bmod_sub_bmod
  rw [wrapped]
  exact int64_eq (by omega) (by omega)

theorem Shape.isLeast_lowestEquivalentValue (shape : config.Shape half unit buckets)
    {value : Int} (nonnegative : 0 ≤ value) (bounded : value ≤ int64Max) :
    IsLeast (config.equivalents value) (config.lowestEquivalentValue value) := by
  unfold int64Max at bounded
  lift value to Nat using nonnegative
  have short : value < 2 ^ 63 := by omega
  have below := LogLinear.lower_cell_le half unit value
  rw [shape.lowestEquivalentValue_natCast short]
  refine ⟨⟨Int.natCast_nonneg _, ?_, ?_⟩, ?_⟩
  · unfold int64Max
    omega
  · rw [shape.valuesAreEquivalent_natCast (by omega) short, LogLinear.cell_lower]
  · rintro other ⟨otherNonnegative, otherBounded, equivalent⟩
    unfold int64Max at otherBounded
    lift other to Nat using otherNonnegative
    rw [shape.valuesAreEquivalent_natCast (by omega) short] at equivalent
    rw [← equivalent]
    exact_mod_cast LogLinear.lower_cell_le half unit other

theorem Shape.isGreatest_highestEquivalentValue (shape : config.Shape half unit buckets)
    {value : Int} (nonnegative : 0 ≤ value) (bounded : value ≤ int64Max) :
    IsGreatest (config.equivalents value) (config.highestEquivalentValue value) := by
  unfold int64Max at bounded
  lift value to Nat using nonnegative
  have short : value < 2 ^ 63 := by omega
  have begins := LogLinear.lower_cell_le half unit value
  have above := LogLinear.lt_lower_cell_succ half unit value
  have ends := shape.lower_cell_succ_le short
  rw [shape.highestEquivalentValue_natCast short]
  set bound := LogLinear.lower half unit (LogLinear.cell half unit value + 1) with bound_eq
  have predecessor : (bound : Int) - 1 = (bound - 1 : Nat) := by omega
  rw [predecessor]
  refine ⟨⟨Int.natCast_nonneg _, ?_, ?_⟩, ?_⟩
  · unfold int64Max
    omega
  · rw [shape.valuesAreEquivalent_natCast (by omega) short]
    refine le_antisymm ?_ (LogLinear.cell_mono (by omega))
    refine Nat.lt_succ_iff.mp (LogLinear.cell_lt_iff.mpr ?_)
    rw [Nat.succ_eq_add_one, ← bound_eq]
    omega
  · rintro other ⟨otherNonnegative, otherBounded, equivalent⟩
    unfold int64Max at otherBounded
    lift other to Nat using otherNonnegative
    rw [shape.valuesAreEquivalent_natCast (by omega) short] at equivalent
    have otherAbove := LogLinear.lt_lower_cell_succ half unit other
    rw [equivalent, ← bound_eq] at otherAbove
    omega

theorem Shape.exponent_int64Max_pos (shape : config.Shape half unit buckets) :
    0 < LogLinear.exponent half unit (2 ^ 63 - 1) := by
  have bounded := shape.unit_add_half_le
  have log_eq : Nat.log 2 (2 ^ 63 - 1) = 62 :=
    (Nat.log_eq_iff (Or.inl (by decide))).mpr ⟨by decide, by decide⟩
  rw [LogLinear.exponent, log_eq]
  omega

/-- The last value of an `int64_t` is not the least of its equivalents. -/
theorem Shape.lowestEquivalentValue_int64Max_lt (shape : config.Shape half unit buckets) :
    config.lowestEquivalentValue int64Max < int64Max := by
  have above := shape.exponent_int64Max_pos
  have cast_eq : int64Max = (2 ^ 63 - 1 : Nat) := by decide
  rw [cast_eq, shape.lowestEquivalentValue_natCast (by decide)]
  have wide : 2 ^ 1 ≤ LogLinear.width half unit (LogLinear.cell half unit (2 ^ 63 - 1)) := by
    rw [LogLinear.width_cell]
    exact Nat.pow_le_pow_right Nat.two_pos (by omega)
  have ends := shape.lower_cell_succ_le (show 2 ^ 63 - 1 < 2 ^ 63 by decide)
  rw [LogLinear.lower_succ] at ends
  omega

theorem Shape.countsIndexFor_int64Max_pos (shape : config.Shape half unit buckets) :
    0 < config.countsIndexFor int64Max := by
  have above := shape.exponent_int64Max_pos
  have cast_eq : int64Max = (2 ^ 63 - 1 : Nat) := by decide
  have positive := Nat.mul_pos above (Nat.two_pow_pos half)
  rw [cast_eq, shape.countsIndexFor_natCast (by decide), LogLinear.cell]
  exact Int.natCast_pos.mpr (Nat.add_pos_left positive _)

end

end HdrBucketConfig

/-! ## Runs -/

/-- A call that changes a histogram. -/
inductive Op where
  | recordValue (value : Int64)
  | recordValues (value count : Int64)
  | reset
  deriving DecidableEq

/-- The count that a call records. -/
def Op.count : Op → Int
  | .recordValues _ count => count.toInt
  | _ => 1

/-- An accepted value, with its count. -/
structure Recorded where
  value : Int
  count : Int
  deriving DecidableEq

namespace HdrHistogram

/-- What a call leaves. -/
def apply (histogram : HdrHistogram) : Op → HdrHistogram
  | .recordValue value => (histogram.recordValue value).2
  | .recordValues value count => (histogram.recordValues value count).2
  | .reset => histogram.reset

/-- What some calls leave, one after another. -/
def run (histogram : HdrHistogram) (ops : List Op) : HdrHistogram :=
  ops.foldl apply histogram

end HdrHistogram

namespace HdrBucketConfig

/-- The values that are not rejected: neither negative nor beyond the last index. -/
def Accepts (config : HdrBucketConfig) (value : Int) : Prop :=
  0 ≤ value ∧ config.countsIndexFor value < config.countsLen

instance (config : HdrBucketConfig) : DecidablePred config.Accepts := fun _ =>
  inferInstanceAs (Decidable (_ ∧ _))

/-- What has been accepted since the last reset, behind one more call. -/
def note (config : HdrBucketConfig) (accepted : List Recorded) : Op → List Recorded
  | .recordValue value =>
      if config.Accepts value.toInt then accepted ++ [⟨value.toInt, 1⟩] else accepted
  | .recordValues value count =>
      if config.Accepts value.toInt then accepted ++ [⟨value.toInt, count.toInt⟩] else accepted
  | .reset => []

/-- What a run has accepted since its last reset. -/
def accepted (config : HdrBucketConfig) (ops : List Op) : List Recorded :=
  ops.foldl config.note []

end HdrBucketConfig

/-- The total count of the recorded values that satisfy a condition. -/
def countOf (recorded : List Recorded) (condition : Int → Prop) [DecidablePred condition] : Int :=
  (recorded.map fun entry => if condition entry.value then entry.count else 0).sum

section

variable {recorded : List Recorded} {condition other : Int → Prop} [DecidablePred condition]
  [DecidablePred other]

@[simp]
theorem countOf_nil : countOf [] condition = 0 :=
  rfl

theorem countOf_concat (entry : Recorded) :
    countOf (recorded ++ [entry]) condition =
      countOf recorded condition + if condition entry.value then entry.count else 0 := by
  simp [countOf]

theorem countOf_congr
    (same : ∀ entry ∈ recorded, condition entry.value ↔ other entry.value) :
    countOf recorded condition = countOf recorded other := by
  unfold countOf
  congr 1
  refine List.map_congr_left fun entry member => ?_
  simp only [same entry member]

theorem nonneg_of_counted (counted : ∀ entry ∈ recorded, 1 ≤ entry.count) :
    ∀ entry ∈ recorded, 0 ≤ entry.count :=
  fun entry member => zero_le_one.trans (counted entry member)

theorem countOf_nonneg (counted : ∀ entry ∈ recorded, 0 ≤ entry.count) :
    0 ≤ countOf recorded condition := by
  refine List.sum_nonneg fun count member => ?_
  rcases List.mem_map.mp member with ⟨entry, recordedEntry, rfl⟩
  have nonnegative := counted entry recordedEntry
  split <;> omega

theorem countOf_le (counted : ∀ entry ∈ recorded, 0 ≤ entry.count) :
    countOf recorded condition ≤ (recorded.map Recorded.count).sum := by
  refine List.sum_le_sum fun entry member => ?_
  have nonnegative := counted entry member
  split <;> omega

theorem countOf_pos_iff (counted : ∀ entry ∈ recorded, 1 ≤ entry.count) :
    0 < countOf recorded condition ↔ ∃ entry ∈ recorded, condition entry.value := by
  induction recorded with
  | nil => simp
  | cons entry rest continued =>
      have countedRest : ∀ entry ∈ rest, 1 ≤ entry.count := fun entry member =>
        counted entry (List.mem_cons_of_mem _ member)
      have positive := counted entry List.mem_cons_self
      have nonnegative : 0 ≤ countOf rest condition :=
        countOf_nonneg (nonneg_of_counted countedRest)
      have unfolded : countOf (entry :: rest) condition =
          (if condition entry.value then entry.count else 0) + countOf rest condition := rfl
      rw [unfolded, List.exists_mem_cons_iff, ← continued countedRest]
      by_cases holds : condition entry.value
      · rw [if_pos holds]
        exact iff_of_true (by omega) (Or.inl holds)
      · rw [if_neg holds, Int.zero_add]
        exact (or_iff_right holds).symm

end

/-! ## What a histogram holds -/

theorem int64_int64_add (left right : Int) : int64 (int64 left + right) = int64 (left + right) :=
  Int.bmod_add_bmod

/-- A histogram holds what has been recorded, up to the range of its counters. -/
structure Tracks (config : HdrBucketConfig) (histogram : HdrHistogram)
    (recorded : List Recorded) : Prop where
  configured : histogram.config = config
  offset : histogram.normalizingIndexOffset = 0
  length : histogram.countsLen = config.countsLen
  total : histogram.totalCount = int64 (recorded.map Recorded.count).sum
  counts : ∀ index : Nat, index < histogram.counts.length → histogram.counts.getD index 0 =
    int64 (countOf recorded fun value => config.countsIndexFor value = index)
  least : ∀ entry ∈ recorded, entry.value ≠ 0 → histogram.minValue ≤ entry.value
  leastRecorded : histogram.minValue = int64Max ∨
    ∃ entry ∈ recorded, entry.value ≠ 0 ∧ entry.value = histogram.minValue
  greatest : ∀ entry ∈ recorded, entry.value ≤ histogram.maxValue
  greatestRecorded : histogram.maxValue = 0 ∨
    ∃ entry ∈ recorded, entry.value = histogram.maxValue
  accepted : ∀ entry ∈ recorded, config.Accepts entry.value ∧ entry.value ≤ int64Max

section

variable {config : HdrBucketConfig} {half unit buckets : Nat} {histogram : HdrHistogram}
  {recorded : List Recorded}

theorem Tracks.normalizeIndex (tracks : Tracks config histogram recorded) (index : Int) :
    histogram.normalizeIndex index = index :=
  if_pos tracks.offset

theorem tracks_create (shape : config.Shape half unit buckets) :
    Tracks config (HdrHistogram.create config) [] := by
  have len_eq := shape.countsLen
  refine
    { configured := rfl
      offset := rfl
      length := ?_
      total := rfl
      counts := ?_
      least := nofun
      leastRecorded := Or.inl rfl
      greatest := nofun
      greatestRecorded := Or.inl rfl
      accepted := nofun }
  · simp only [HdrHistogram.countsLen, HdrHistogram.create, List.length_replicate]
    omega
  · intro index within
    simp only [HdrHistogram.create, List.length_replicate] at within ⊢
    rw [List.getD_replicate _ within]
    rfl

theorem Tracks.reset (tracks : Tracks config histogram recorded) :
    Tracks config histogram.reset [] := by
  refine
    { configured := tracks.configured
      offset := tracks.offset
      length := ?_
      total := rfl
      counts := ?_
      least := nofun
      leastRecorded := Or.inl rfl
      greatest := nofun
      greatestRecorded := Or.inl rfl
      accepted := nofun }
  · have length := tracks.length
    simpa only [HdrHistogram.countsLen, HdrHistogram.reset, List.length_replicate] using length
  · intro index within
    simp only [HdrHistogram.reset, List.length_replicate] at within ⊢
    rw [List.getD_replicate _ within]
    rfl

/-- A value is accepted exactly if it is not negative and its index is within the counts. -/
theorem Tracks.recordValues_eq (shape : config.Shape half unit buckets)
    (tracks : Tracks config histogram recorded) (value count : Int64) :
    histogram.recordValues value count =
      if config.Accepts value.toInt then
        (true, (histogram.countsIncNormalised (config.countsIndexFor value.toInt)
          count.toInt).updateMinMax value.toInt)
      else (false, histogram) := by
  have bound := Int64.toInt_lt value
  simp only [HdrHistogram.recordValues]
  rw [tracks.configured, tracks.length]
  by_cases negative : value.toInt < 0
  · have rejected : ¬config.Accepts value.toInt := fun accepts =>
      absurd accepts.1 (by omega)
    rw [if_pos negative, if_neg rejected]
  · rw [if_neg negative]
    have nonnegative : 0 ≤ value.toInt := by omega
    have index_nonneg : 0 ≤ config.countsIndexFor value.toInt :=
      shape.countsIndexFor_nonneg nonnegative (by unfold int64Max; omega)
    by_cases accepts : config.Accepts value.toInt
    · have within := accepts.2
      rw [if_pos accepts, if_neg (by omega)]
    · have beyond : config.countsLen ≤ config.countsIndexFor value.toInt := by
        by_contra within
        exact accepts ⟨nonnegative, by omega⟩
      rw [if_neg accepts, if_pos (Or.inr beyond)]

/-- What accepting a value does to what the histogram holds. -/
theorem Tracks.record (shape : config.Shape half unit buckets)
    (tracks : Tracks config histogram recorded) {value : Int} (count : Int)
    (accepts : config.Accepts value) (bounded : value ≤ int64Max) :
    Tracks config
      ((histogram.countsIncNormalised (config.countsIndexFor value) count).updateMinMax value)
      (recorded ++ [⟨value, count⟩]) := by
  have index_nonneg := shape.countsIndexFor_nonneg accepts.1 bounded
  refine
    { configured := tracks.configured
      offset := tracks.offset
      length := ?_
      total := ?_
      counts := ?_
      least := ?_
      leastRecorded := ?_
      greatest := ?_
      greatestRecorded := ?_
      accepted := ?_ }
  · have length := tracks.length
    simpa only [HdrHistogram.countsLen, HdrHistogram.updateMinMax,
      HdrHistogram.countsIncNormalised, List.length_modify] using length
  · simp only [HdrHistogram.updateMinMax, HdrHistogram.countsIncNormalised]
    rw [tracks.total, int64_int64_add]
    simp
  · intro index within
    simp only [HdrHistogram.updateMinMax, HdrHistogram.countsIncNormalised,
      List.length_modify] at within ⊢
    rw [tracks.normalizeIndex, countOf_concat, List.getD_eq_getElem?_getD,
      List.getElem?_modify]
    have before := tracks.counts index within
    rw [List.getD_eq_getElem?_getD, List.getElem?_eq_getElem within, Option.getD_some] at before
    rw [List.getElem?_eq_getElem within, Option.map_eq_map, Option.map_some, Option.getD_some,
      before]
    by_cases same : config.countsIndexFor value = index
    · have here : (config.countsIndexFor value).toNat = index := by omega
      rw [if_pos here, if_pos same, int64_int64_add]
    · have elsewhere : (config.countsIndexFor value).toNat ≠ index := by omega
      rw [if_neg elsewhere, if_neg same, Int.add_zero]
  · intro entry member nonzero
    simp only [HdrHistogram.updateMinMax, HdrHistogram.countsIncNormalised]
    rcases List.mem_append.mp member with earlier | last
    · have least := tracks.least entry earlier nonzero
      split <;> omega
    · cases List.mem_singleton.mp last
      rw [if_pos nonzero]
      exact Int.min_le_right _ _
  · simp only [HdrHistogram.updateMinMax, HdrHistogram.countsIncNormalised]
    have kept : histogram.minValue = int64Max ∨
        ∃ entry ∈ recorded ++ [⟨value, count⟩],
          entry.value ≠ 0 ∧ entry.value = histogram.minValue := by
      rcases tracks.leastRecorded with empty | ⟨entry, member, facts⟩
      · exact Or.inl empty
      · exact Or.inr ⟨entry, List.mem_append_left _ member, facts⟩
    by_cases zero : value ≠ 0
    · rw [if_pos zero]
      rcases min_cases histogram.minValue value with ⟨isOld, -⟩ | ⟨isNew, -⟩
      · rwa [isOld]
      · rw [isNew]
        exact Or.inr ⟨⟨value, count⟩, List.mem_append_right _ (List.mem_singleton_self _),
          zero, rfl⟩
    · rwa [if_neg zero]
  · intro entry member
    simp only [HdrHistogram.updateMinMax, HdrHistogram.countsIncNormalised]
    rcases List.mem_append.mp member with earlier | last
    · exact (tracks.greatest entry earlier).trans (Int.le_max_left _ _)
    · cases List.mem_singleton.mp last
      exact Int.le_max_right _ _
  · simp only [HdrHistogram.updateMinMax, HdrHistogram.countsIncNormalised]
    rcases max_cases histogram.maxValue value with ⟨isOld, -⟩ | ⟨isNew, -⟩
    · rw [isOld]
      rcases tracks.greatestRecorded with empty | ⟨entry, member, facts⟩
      · exact Or.inl empty
      · exact Or.inr ⟨entry, List.mem_append_left _ member, facts⟩
    · rw [isNew]
      exact Or.inr ⟨⟨value, count⟩, List.mem_append_right _ (List.mem_singleton_self _), rfl⟩
  · intro entry member
    rcases List.mem_append.mp member with earlier | last
    · exact tracks.accepted entry earlier
    · cases List.mem_singleton.mp last
      exact ⟨accepts, bounded⟩

theorem Tracks.apply (shape : config.Shape half unit buckets)
    (tracks : Tracks config histogram recorded) (op : Op) :
    Tracks config (histogram.apply op) (config.note recorded op) := by
  cases op with
  | recordValue value =>
      have bounded := Int64.toInt_lt value
      simp only [HdrHistogram.apply, HdrHistogram.recordValue, HdrBucketConfig.note]
      rw [tracks.recordValues_eq shape]
      split
      · rename_i accepts
        exact tracks.record shape 1 accepts (by unfold int64Max; omega)
      · exact tracks
  | recordValues value count =>
      have bounded := Int64.toInt_lt value
      simp only [HdrHistogram.apply, HdrBucketConfig.note]
      rw [tracks.recordValues_eq shape]
      split
      · rename_i accepts
        exact tracks.record shape count.toInt accepts (by unfold int64Max; omega)
      · exact tracks
  | reset => exact tracks.reset

/-- Every run of a histogram holds what the run has accepted since its last reset. -/
theorem tracks_run (shape : config.Shape half unit buckets) (ops : List Op) :
    Tracks config ((HdrHistogram.create config).run ops) (config.accepted ops) := by
  have each : ∀ (ops : List Op) (histogram : HdrHistogram) (recorded : List Recorded),
      Tracks config histogram recorded →
        Tracks config (histogram.run ops) (ops.foldl config.note recorded) := by
    intro ops
    induction ops with
    | nil => exact fun _ _ tracks => tracks
    | cons op rest continued =>
        intro histogram recorded tracks
        exact continued _ _ (tracks.apply shape op)
  exact each ops _ _ (tracks_create shape)

theorem accepted_counted (config : HdrBucketConfig) {ops : List Op} {least : Int}
    (atMost : least ≤ 1) (counted : ∀ op ∈ ops, least ≤ op.count) :
    ∀ entry ∈ config.accepted ops, least ≤ entry.count := by
  have note_counted : ∀ (op : Op) (recorded : List Recorded), least ≤ op.count →
      (∀ entry ∈ recorded, least ≤ entry.count) →
        ∀ entry ∈ config.note recorded op, least ≤ entry.count := by
    intro op recorded enough before entry member
    cases op with
    | recordValue value =>
        simp only [HdrBucketConfig.note] at member
        split at member
        · rcases List.mem_append.mp member with earlier | last
          · exact before entry earlier
          · cases List.mem_singleton.mp last
            exact atMost
        · exact before entry member
    | recordValues value count =>
        simp only [HdrBucketConfig.note] at member
        split at member
        · rcases List.mem_append.mp member with earlier | last
          · exact before entry earlier
          · cases List.mem_singleton.mp last
            exact enough
        · exact before entry member
    | reset => cases member
  have each : ∀ (ops : List Op) (recorded : List Recorded), (∀ op ∈ ops, least ≤ op.count) →
      (∀ entry ∈ recorded, least ≤ entry.count) →
        ∀ entry ∈ ops.foldl config.note recorded, least ≤ entry.count := by
    intro ops
    induction ops with
    | nil => exact fun _ _ before => before
    | cons op rest continued =>
        intro recorded countedAll before
        exact continued _ (fun other member => countedAll other (List.mem_cons_of_mem _ member))
          (note_counted op recorded (countedAll op List.mem_cons_self) before)
  exact each ops [] counted nofun

/-! ## Reading a histogram -/

/-- The counts of all cells together are those of all that was recorded. -/
theorem sum_countOf_cells {cells : Nat}
    (within : ∀ entry ∈ recorded, 0 ≤ config.countsIndexFor entry.value ∧
      config.countsIndexFor entry.value < cells) :
    ∑ index ∈ Finset.range cells,
        countOf recorded (fun value => config.countsIndexFor value = index) =
      (recorded.map Recorded.count).sum := by
  induction recorded with
  | nil => exact Finset.sum_const_zero
  | cons entry rest continued =>
      rcases within entry List.mem_cons_self with ⟨index_nonneg, index_lt⟩
      have rest_eq := continued fun other member => within other (List.mem_cons_of_mem _ member)
      have unfolded : ∀ index : Nat,
          countOf (entry :: rest) (fun value => config.countsIndexFor value = index) =
            (if (config.countsIndexFor entry.value).toNat = index then entry.count else 0) +
              countOf rest (fun value => config.countsIndexFor value = index) := by
        intro index
        have same : config.countsIndexFor entry.value = index ↔
            (config.countsIndexFor entry.value).toNat = index := by omega
        simp only [countOf, List.map_cons, List.sum_cons, same]
      have member : (config.countsIndexFor entry.value).toNat ∈ Finset.range cells :=
        Finset.mem_range.mpr (by omega)
      simp only [unfolded]
      rw [Finset.sum_add_distrib, Finset.sum_ite_eq, if_pos member, rest_eq, List.map_cons,
        List.sum_cons]

theorem Tracks.countAtIndex (tracks : Tracks config histogram recorded)
    (counted : ∀ entry ∈ recorded, 0 ≤ entry.count)
    (small : (recorded.map Recorded.count).sum < 2 ^ 63) {index : Nat}
    (within : index < config.countsLen) :
    histogram.countAtIndex index =
      countOf recorded fun value => config.countsIndexFor value = index := by
  have length := tracks.length
  simp only [HdrHistogram.countsLen] at length
  simp only [HdrHistogram.countAtIndex, HdrHistogram.countsGetNormalised]
  have nonnegative : 0 ≤ countOf recorded fun value => config.countsIndexFor value = index :=
    countOf_nonneg counted
  have bounded : (countOf recorded fun value => config.countsIndexFor value = index) ≤
      (recorded.map Recorded.count).sum := countOf_le counted
  rw [tracks.normalizeIndex, Int.toNat_natCast, tracks.counts index (by omega)]
  exact int64_eq (by omega) (by omega)

theorem Tracks.totalCount (tracks : Tracks config histogram recorded)
    (counted : ∀ entry ∈ recorded, 0 ≤ entry.count)
    (small : (recorded.map Recorded.count).sum < 2 ^ 63) :
    histogram.totalCount = (recorded.map Recorded.count).sum := by
  have nothing : 0 ≤ countOf recorded fun _ => False := countOf_nonneg counted
  have nonnegative := nothing.trans (countOf_le counted)
  rw [tracks.total]
  exact int64_eq (by omega) small

theorem Tracks.indices (shape : config.Shape half unit buckets)
    (tracks : Tracks config histogram recorded) :
    ∀ entry ∈ recorded, 0 ≤ config.countsIndexFor entry.value ∧
      config.countsIndexFor entry.value < config.countsLen := by
  intro entry member
  rcases tracks.accepted entry member with ⟨accepts, bounded⟩
  exact ⟨shape.countsIndexFor_nonneg accepts.1 bounded, accepts.2⟩

/-- The counts of the cells add up to what has been recorded. -/
theorem Tracks.sum_countAtIndex (shape : config.Shape half unit buckets)
    (tracks : Tracks config histogram recorded)
    (counted : ∀ entry ∈ recorded, 0 ≤ entry.count)
    (small : (recorded.map Recorded.count).sum < 2 ^ 63) :
    ∑ index ∈ Finset.range histogram.countsLen.toNat, histogram.countAtIndex index =
      (recorded.map Recorded.count).sum := by
  have length := tracks.length
  have cells : ∀ entry ∈ recorded, 0 ≤ config.countsIndexFor entry.value ∧
      config.countsIndexFor entry.value < histogram.countsLen.toNat := by
    intro entry member
    have index := tracks.indices shape entry member
    omega
  rw [← sum_countOf_cells cells]
  refine Finset.sum_congr rfl fun index member => ?_
  have within := Finset.mem_range.mp member
  exact tracks.countAtIndex counted small (by omega)

theorem Tracks.countAtValue (shape : config.Shape half unit buckets)
    (tracks : Tracks config histogram recorded)
    (counted : ∀ entry ∈ recorded, 0 ≤ entry.count)
    (small : (recorded.map Recorded.count).sum < 2 ^ 63) {value : Int}
    (nonnegative : 0 ≤ value) (bounded : value ≤ int64Max)
    (within : config.countsIndexFor value < config.countsLen) :
    histogram.countAtValue value =
      countOf recorded fun other => config.valuesAreEquivalent other value := by
  have index_nonneg := shape.countsIndexFor_nonneg nonnegative bounded
  have read : histogram.countAtValue value =
      histogram.countAtIndex (config.countsIndexFor value) := by
    simp only [HdrHistogram.countAtValue, HdrHistogram.countAtIndex, tracks.configured]
  have index_eq := Int.toNat_of_nonneg index_nonneg
  rw [read, ← index_eq, tracks.countAtIndex counted small (by omega), index_eq]
  refine countOf_congr fun entry member => ?_
  rcases tracks.accepted entry member with ⟨accepts, entryBounded⟩
  exact shape.countsIndexFor_eq_iff accepts.1 entryBounded nonnegative bounded

/-- The values that have been recorded. -/
def values (recorded : List Recorded) : Set Int :=
  {value | ∃ entry ∈ recorded, entry.value = value}

/-- The first cell holds something exactly if a value of that cell is recorded. -/
theorem Tracks.first_pos_iff (shape : config.Shape half unit buckets)
    (tracks : Tracks config histogram recorded)
    (counted : ∀ entry ∈ recorded, 1 ≤ entry.count)
    (small : (recorded.map Recorded.count).sum < 2 ^ 63) :
    0 < histogram.countAtIndex 0 ↔
      ∃ entry ∈ recorded, config.countsIndexFor entry.value = 0 := by
  have positive : 0 < (buckets + 1) * 2 ^ half :=
    Nat.mul_pos (Nat.succ_pos _) (Nat.two_pow_pos _)
  have count_eq : histogram.countAtIndex (0 : Nat) =
      countOf recorded fun value => config.countsIndexFor value = (0 : Nat) :=
    tracks.countAtIndex (nonneg_of_counted counted) small (by rw [shape.countsLen]; omega)
  rw [Int.natCast_zero] at count_eq
  rw [count_eq, countOf_pos_iff counted]

theorem Tracks.max_of_empty (tracks : Tracks config histogram []) : histogram.max = 0 := by
  rcases tracks.greatestRecorded with empty | ⟨entry, member, -⟩
  · exact if_pos empty
  · cases member

theorem Tracks.isLeast_min (shape : config.Shape half unit buckets)
    (tracks : Tracks config histogram recorded)
    (counted : ∀ entry ∈ recorded, 1 ≤ entry.count)
    (small : (recorded.map Recorded.count).sum < 2 ^ 63) {value : Int}
    (least : IsLeast (values recorded) value) (notMark : value ≠ int64Max) :
    IsLeast (config.equivalents value) histogram.min := by
  rcases least with ⟨⟨leastEntry, leastMember, rfl⟩, below⟩
  rcases tracks.accepted leastEntry leastMember with ⟨accepts, bounded⟩
  have index_nonneg := shape.countsIndexFor_nonneg accepts.1 bounded
  have first : config.countsIndexFor 0 = 0 := by
    refine (shape.countsIndexFor_natCast (Nat.two_pow_pos 63)).trans ?_
    simp [LogLinear.cell, LogLinear.exponent]
  unfold HdrHistogram.min
  by_cases some : 0 < histogram.countAtIndex 0
  · -- A value of the first cell is recorded, so the least one lies there, and zero with it.
    rw [if_pos some]
    rcases (tracks.first_pos_iff shape counted small).mp some with ⟨entry, member, inFirst⟩
    have ordered := shape.countsIndexFor_mono accepts.1 (below ⟨entry, member, rfl⟩)
      (tracks.accepted entry member).2
    have leastFirst : config.countsIndexFor 0 = config.countsIndexFor leastEntry.value := by
      omega
    have equivalent := (shape.countsIndexFor_eq_iff le_rfl (by decide) accepts.1 bounded).mp
      leastFirst
    exact ⟨⟨le_rfl, by decide, equivalent⟩, fun other member => member.1⟩
  · rw [if_neg some]
    rw [tracks.first_pos_iff shape counted small] at some
    have nonzero : leastEntry.value ≠ 0 := by
      intro zero
      refine some ⟨leastEntry, leastMember, ?_⟩
      rw [zero, first]
    have atMost := tracks.least leastEntry leastMember nonzero
    have minValue_eq : histogram.minValue = leastEntry.value := by
      rcases tracks.leastRecorded with unset | ⟨entry, member, -, entry_eq⟩
      · omega
      · have atLeast := below ⟨entry, member, rfl⟩
        omega
    unfold HdrHistogram.nonZeroMin
    rw [minValue_eq, if_neg notMark, tracks.configured]
    exact shape.isLeast_lowestEquivalentValue accepts.1 bounded

/-- The last value of an `int64_t` as the least one is reported as an empty histogram is. -/
theorem Tracks.min_of_mark (shape : config.Shape half unit buckets)
    (tracks : Tracks config histogram recorded)
    (counted : ∀ entry ∈ recorded, 1 ≤ entry.count)
    (small : (recorded.map Recorded.count).sum < 2 ^ 63)
    (marks : ∀ entry ∈ recorded, entry.value = int64Max) : histogram.min = int64Max := by
  have minValue_eq : histogram.minValue = int64Max := by
    rcases tracks.leastRecorded with unset | ⟨entry, member, -, entry_eq⟩
    · exact unset
    · exact entry_eq.symm.trans (marks entry member)
  have elsewhere : ¬0 < histogram.countAtIndex 0 := by
    rw [tracks.first_pos_iff shape counted small]
    rintro ⟨entry, member, inFirst⟩
    have apart := shape.countsIndexFor_int64Max_pos
    rw [marks entry member] at inFirst
    omega
  unfold HdrHistogram.min HdrHistogram.nonZeroMin
  rw [if_neg elsewhere, if_pos minValue_eq, minValue_eq]

theorem Tracks.isGreatest_max (shape : config.Shape half unit buckets)
    (tracks : Tracks config histogram recorded) {value : Int}
    (greatest : IsGreatest (values recorded) value) (nonzero : value ≠ 0) :
    IsGreatest (config.equivalents value) histogram.max := by
  rcases greatest with ⟨⟨entry, member, rfl⟩, above⟩
  rcases tracks.accepted entry member with ⟨accepts, bounded⟩
  have nonnegative := accepts.1
  have atLeast := tracks.greatest entry member
  have maxValue_eq : histogram.maxValue = entry.value := by
    rcases tracks.greatestRecorded with unset | ⟨other, otherMember, other_eq⟩
    · omega
    · have atMost := above ⟨other, otherMember, rfl⟩
      omega
  unfold HdrHistogram.max
  rw [maxValue_eq, if_neg nonzero, tracks.configured]
  exact shape.isGreatest_highestEquivalentValue nonnegative bounded

theorem Tracks.max_of_zero (tracks : Tracks config histogram recorded)
    (greatest : IsGreatest (values recorded) 0) : histogram.max = 0 := by
  refine if_pos ?_
  rcases tracks.greatestRecorded with unset | ⟨entry, member, entry_eq⟩
  · exact unset
  · have atMost := greatest.2 ⟨entry, member, rfl⟩
    have nonnegative := (tracks.accepted entry member).1.1
    omega

end

/-! ## The tally of a run -/

/-- A histogram reports what has been recorded in it. -/
structure Tallies (config : HdrBucketConfig) (histogram : HdrHistogram)
    (recorded : List Recorded) : Prop where
  totalCount : histogram.totalCount = (recorded.map Recorded.count).sum
  countAtIndex : ∑ index ∈ Finset.range histogram.countsLen.toNat, histogram.countAtIndex index =
    (recorded.map Recorded.count).sum
  countAtValue : ∀ value, 0 ≤ value → value ≤ int64Max →
    config.countsIndexFor value < histogram.countsLen →
      histogram.countAtValue value =
        countOf recorded fun other => config.valuesAreEquivalent other value
  accepts : ∀ value count : Int64, config.Accepts value.toInt →
    (histogram.recordValues value count).1 = true
  rejects : ∀ value count : Int64, ¬config.Accepts value.toInt →
    histogram.recordValues value count = (false, histogram)
  minOfEmpty : recorded = [] → histogram.min = int64Max
  maxOfEmpty : recorded = [] → histogram.max = 0
  min : ∀ value, IsLeast (values recorded) value →
    IsLeast (config.equivalents value) histogram.min
  max : ∀ value, IsGreatest (values recorded) value → value ≠ 0 →
    IsGreatest (config.equivalents value) histogram.max
  maxOfZero : IsGreatest (values recorded) 0 → histogram.max = 0

/-- The recorded values are not all of them the last value of an `int64_t`. -/
def NotOnlyMarks (recorded : List Recorded) : Prop :=
  recorded = [] ∨ ∃ entry ∈ recorded, entry.value ≠ int64Max

/--
After every run a histogram reports what has been accepted since the last reset,
exactly if that is not `INT64_MAX` alone.
-/
theorem run_tallies_iff {lowest highest : Int64} {figures : Int32} {config : HdrBucketConfig}
    (created : HdrBucketConfig.create lowest highest figures = some (.ok config))
    (ops : List Op) (counted : ∀ op ∈ ops, 1 ≤ op.count)
    (small : ((config.accepted ops).map Recorded.count).sum < 2 ^ 63) :
    Tallies config ((HdrHistogram.create config).run ops) (config.accepted ops) ↔
      NotOnlyMarks (config.accepted ops) := by
  rcases HdrBucketConfig.create_shape created with ⟨half, unit, buckets, shape⟩
  have tracks := tracks_run shape ops
  have countedEntries := accepted_counted config le_rfl counted
  have nonnegEntries : ∀ entry ∈ config.accepted ops, 0 ≤ entry.count :=
    nonneg_of_counted countedEntries
  generalize (HdrHistogram.create config).run ops = histogram at *
  generalize config.accepted ops = recorded at *
  constructor
  · intro tallies
    by_contra onlyMarks
    simp only [NotOnlyMarks, not_or, not_exists, not_and, not_not] at onlyMarks
    rcases onlyMarks with ⟨nonempty, marks⟩
    rcases List.exists_mem_of_ne_nil recorded nonempty with ⟨entry, member⟩
    have least : IsLeast (values recorded) int64Max := by
      refine ⟨⟨entry, member, marks entry member⟩, ?_⟩
      rintro value ⟨other, otherMember, rfl⟩
      exact (marks other otherMember).ge
    have reported := tallies.min int64Max least
    rw [tracks.min_of_mark shape countedEntries small marks] at reported
    have lowest := shape.isLeast_lowestEquivalentValue (by decide : 0 ≤ int64Max) le_rfl
    have same := reported.unique lowest
    exact absurd shape.lowestEquivalentValue_int64Max_lt (by omega)
  · intro notOnlyMarks
    refine
      { totalCount := tracks.totalCount nonnegEntries small
        countAtIndex := tracks.sum_countAtIndex shape nonnegEntries small
        countAtValue := ?_
        accepts := ?_
        rejects := ?_
        minOfEmpty := ?_
        maxOfEmpty := ?_
        min := ?_
        max := fun value greatest nonzero => tracks.isGreatest_max shape greatest nonzero
        maxOfZero := tracks.max_of_zero }
    · intro value nonnegative bounded within
      rw [tracks.length] at within
      exact tracks.countAtValue shape nonnegEntries small nonnegative bounded within
    · intro value count accepts
      rw [tracks.recordValues_eq shape, if_pos accepts]
    · intro value count rejected
      rw [tracks.recordValues_eq shape, if_neg rejected]
    · rintro rfl
      exact tracks.min_of_mark shape countedEntries small nofun
    · rintro rfl
      exact tracks.max_of_empty
    · intro value least
      refine tracks.isLeast_min shape countedEntries small least ?_
      rcases notOnlyMarks with rfl | ⟨entry, member, notMark⟩
      · rcases least.1 with ⟨entry, member, -⟩
        cases member
      · have below := least.2 ⟨entry, member, rfl⟩
        have bounded := (tracks.accepted entry member).2
        omega

theorem run_tallies_iff_afterReset :
    ∃ config, HdrBucketConfig.create 1 3600 1 = some (.ok config) ∧
      Tallies config
        ((HdrHistogram.create config).run
          [.recordValues 5 3, .reset, .recordValue (-1), .recordValue 1000])
        (config.accepted [.recordValues 5 3, .reset, .recordValue (-1), .recordValue 1000]) := by
  have created : HdrBucketConfig.create 1 3600 1 =
      some (.ok ⟨1, 3600, 1, 0, 4, 32, 16, 31, 8, 144⟩) := by
    decide +kernel
  refine ⟨_, created, (run_tallies_iff created _ (by decide) (by decide +kernel)).mpr ?_⟩
  exact Or.inr ⟨⟨1000, 1⟩, by decide +kernel, by decide⟩

/-- Nothing but the last value of an `int64_t` looks like an empty histogram. -/
theorem min_of_int64Max :
    ∃ config, HdrBucketConfig.create 1 9223372036854775807 1 = some (.ok config) ∧
      ((HdrHistogram.create config).run [.recordValue 9223372036854775807]).min =
        9223372036854775807 ∧
      config.lowestEquivalentValue 9223372036854775807 = 8935141660703064064 ∧
      ¬Tallies config ((HdrHistogram.create config).run [.recordValue 9223372036854775807])
        (config.accepted [.recordValue 9223372036854775807]) := by
  have created : HdrBucketConfig.create 1 9223372036854775807 1 =
      some (.ok ⟨1, 9223372036854775807, 1, 0, 4, 32, 16, 31, 59, 960⟩) := by
    decide +kernel
  refine ⟨_, created, by decide +kernel, by decide +kernel, ?_⟩
  set config : HdrBucketConfig := ⟨1, 9223372036854775807, 1, 0, 4, 32, 16, 31, 59, 960⟩
  intro tallies
  have recorded : config.accepted [.recordValue 9223372036854775807] =
      [⟨9223372036854775807, 1⟩] := by decide +kernel
  have least : IsLeast (values (config.accepted [.recordValue 9223372036854775807]))
      9223372036854775807 := by
    rw [recorded]
    refine ⟨⟨⟨9223372036854775807, 1⟩, List.mem_singleton_self _, rfl⟩, ?_⟩
    rintro value ⟨entry, member, rfl⟩
    cases List.mem_singleton.mp member
    exact le_rfl
  have reported := (tallies.min _ least).2
  have equivalent : (8935141660703064064 : Int) ∈ config.equivalents 9223372036854775807 :=
    ⟨by decide, by decide, by decide +kernel⟩
  have below := reported equivalent
  exact absurd below (by decide +kernel)

end ReactiveToolbox.Hdr
