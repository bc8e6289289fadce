import Mathlib.Algebra.Order.Field.Rat
import Mathlib.Data.Rat.Floor
import ReactiveToolbox.Hdr.Histogram
import ReactiveToolbox.Lib.LogLinear

/-!
# Indices of values

On the values of an `int64_t` the index of a valid configuration is the cell of
a log-linear scale, and the equivalence of values is membership of one cell.
-/

namespace ReactiveToolbox.Hdr

open ReactiveToolbox.Lib

/-! ## Machine integers in range -/

theorem int64_eq {value : Int} (least : -2 ^ 63 ≤ value) (most : value < 2 ^ 63) :
    int64 value = value := by
  refine Int.bmod_eq_of_le_mul_two ?_ ?_ <;> omega

theorem int32_eq {value : Int} (least : -2 ^ 31 ≤ value) (most : value < 2 ^ 31) :
    int32 value = value := by
  refine Int.bmod_eq_of_le_mul_two ?_ ?_ <;> omega

theorem int64_natCast {value : Nat} (short : value < 2 ^ 63) : int64 value = value :=
  int64_eq (by omega) (by omega)

theorem int32_natCast {value : Nat} (short : value < 2 ^ 31) : int32 value = value :=
  int32_eq (by omega) (by omega)

theorem shiftLeft64_natCast {value amount : Nat} (short : value * 2 ^ amount < 2 ^ 63) :
    shiftLeft64 value amount = (value * 2 ^ amount : Nat) := by
  rw [← int64_natCast short]
  simp [shiftLeft64]

theorem shiftLeft32_natCast {value amount : Nat} (short : value * 2 ^ amount < 2 ^ 31) :
    shiftLeft32 value amount = (value * 2 ^ amount : Nat) := by
  rw [← int32_natCast short]
  simp [shiftLeft32]

theorem or64_natCast {left right : Nat} (leftShort : left < 2 ^ 63) (rightShort : right < 2 ^ 63) :
    or64 left right = (left ||| right : Nat) := by
  have short : left ||| right < 2 ^ 63 := Nat.or_lt_two_pow leftShort rightShort
  have toNat_eq : (BitVec.ofNat 64 left ||| BitVec.ofNat 64 right).toNat = left ||| right := by
    rw [BitVec.toNat_or, BitVec.toNat_ofNat, BitVec.toNat_ofNat, Nat.mod_eq_of_lt (by omega),
      Nat.mod_eq_of_lt (by omega)]
  unfold or64
  rw [BitVec.ofInt_natCast, BitVec.ofInt_natCast,
    BitVec.toInt_eq_toNat_of_lt (by rw [toNat_eq]; omega), toNat_eq]

theorem and32_natCast {left right : Nat} (leftShort : left < 2 ^ 31) (rightShort : right < 2 ^ 31) :
    and32 left right = (left &&& right : Nat) := by
  have short : left &&& right ≤ left := Nat.and_le_left
  have toNat_eq : (BitVec.ofNat 32 left &&& BitVec.ofNat 32 right).toNat = left &&& right := by
    rw [BitVec.toNat_and, BitVec.toNat_ofNat, BitVec.toNat_ofNat, Nat.mod_eq_of_lt (by omega),
      Nat.mod_eq_of_lt (by omega)]
  unfold and32
  rw [BitVec.ofInt_natCast, BitVec.ofInt_natCast,
    BitVec.toInt_eq_toNat_of_lt (by rw [toNat_eq]; omega), toNat_eq]

theorem countLeadingZeros64_natCast {value : Nat} (short : value < 2 ^ 63) :
    countLeadingZeros64 value = 63 - Nat.log2 value := by
  unfold countLeadingZeros64
  rw [BitVec.ofInt_natCast, BitVec.toNat_ofNat, Nat.mod_eq_of_lt (by omega)]

theorem shiftRight_natCast (value amount : Nat) :
    (value : Int) >>> amount = (value / 2 ^ amount : Nat) := by
  rw [← Int.natCast_shiftRight, Nat.shiftRight_eq_div_pow]

theorem log2_or {left right : Nat} (nonzero : right ≠ 0) :
    Nat.log2 (left ||| right) = max (Nat.log2 left) (Nat.log2 right) := by
  have leftBound : left < 2 ^ (max (Nat.log2 left) (Nat.log2 right) + 1) :=
    Nat.lt_log2_self.trans_le (Nat.pow_le_pow_right Nat.two_pos (by omega))
  have rightBound : right < 2 ^ (max (Nat.log2 left) (Nat.log2 right) + 1) :=
    Nat.lt_log2_self.trans_le (Nat.pow_le_pow_right Nat.two_pos (by omega))
  have rightLe : right ≤ left ||| right := Nat.right_le_or
  have leftLe : left ≤ left ||| right := Nat.left_le_or
  have orNonzero : left ||| right ≠ 0 := by omega
  refine (Nat.log2_eq_iff orNonzero).mpr ⟨?_, Nat.or_lt_two_pow leftBound rightBound⟩
  rcases max_cases (Nat.log2 left) (Nat.log2 right) with ⟨isLeft, larger⟩ | ⟨isRight, larger⟩
  · rw [isLeft]
    by_cases zero : left = 0
    · subst zero
      have least := Nat.pow_le_pow_right Nat.two_pos larger
      have atLeast := (Nat.le_log2 nonzero).mp le_rfl
      simp only [Nat.log2_zero, Nat.pow_zero]
      omega
    · exact ((Nat.le_log2 zero).mp le_rfl).trans leftLe
  · rw [isRight]
    exact ((Nat.le_log2 nonzero).mp le_rfl).trans rightLe

/-! ## Valid configurations -/

/-- The buckets cover the value, and their bounds stay within an `int64_t`. -/
theorem coverValue_covers {value : Int} (short : value < 2 ^ 63) {steps magnitude : Nat}
    (magnitude_le : magnitude ≤ 62) {needed result : Int}
    (covered : coverValue value steps (2 ^ magnitude : Nat) needed = some result) :
    ∃ doublings : Nat, result = needed + doublings ∧ magnitude + doublings ≤ 63 ∧
      value < 2 ^ (magnitude + doublings) := by
  induction steps generalizing magnitude needed with
  | zero => cases covered
  | succ steps continued =>
      simp only [coverValue] at covered
      split at covered
      · split at covered
        · rename_i large
          have top : magnitude = 62 := by
            by_contra notTop
            have smaller : 2 ^ magnitude ≤ 2 ^ 61 :=
              Nat.pow_le_pow_right Nat.two_pos (by omega)
            unfold int64Max at large
            omega
          cases covered
          refine ⟨1, rfl, by omega, ?_⟩
          rwa [top]
        · rename_i fits
          have below : magnitude < 62 := by
            by_contra notBelow
            have top : magnitude = 62 := by omega
            rw [top] at fits
            exact fits (by decide)
          have small : 2 ^ (magnitude + 1) < 2 ^ 63 :=
            Nat.pow_lt_pow_right one_lt_two (by omega)
          have doubled : shiftLeft64 (2 ^ magnitude : Nat) 1 = (2 ^ (magnitude + 1) : Nat) :=
            shiftLeft64_natCast small
          rw [doubled] at covered
          rcases continued (by omega) covered with ⟨doublings, rfl, bounded, bound⟩
          refine ⟨doublings + 1, ?_, by omega, ?_⟩
          · push_cast
            omega
          · rwa [Nat.add_assoc, Nat.add_comm 1] at bound
      · rename_i exceeded
        cases covered
        refine ⟨0, ?_, by omega, ?_⟩
        · exact (Int.add_zero _).symm
        · rw [Nat.add_zero]
          push_cast at exceeded
          omega

/-- The magnitude is the least one with a unit step up to twice the asked-for precision. -/
theorem getSubBucketHalfCountMagnitude_spec {figures : Int} (least : 1 ≤ figures)
    (most : figures ≤ 5) :
    ∃ half : Nat, getSubBucketHalfCountMagnitude figures = half ∧ half ≤ 17 ∧
      10 ^ figures.toNat ≤ 2 ^ half := by
  have cases : figures = 1 ∨ figures = 2 ∨ figures = 3 ∨ figures = 4 ∨ figures = 5 := by omega
  rcases cases with rfl | rfl | rfl | rfl | rfl
  · exact ⟨4, by decide +kernel, by decide, by decide⟩
  · exact ⟨7, by decide +kernel, by decide, by decide⟩
  · exact ⟨10, by decide +kernel, by decide, by decide⟩
  · exact ⟨14, by decide +kernel, by decide, by decide⟩
  · exact ⟨17, by decide +kernel, by decide, by decide⟩

/-- So many half buckets, as the largest configuration has them, are counted by an `int32_t`. -/
theorem halfBuckets_lt {half tiers : Nat} (half_le : half ≤ 17) (tiers_le : tiers ≤ 64) :
    tiers * 2 ^ half < 2 ^ 31 :=
  calc tiers * 2 ^ half
      ≤ 64 * 2 ^ 17 := Nat.mul_le_mul tiers_le (Nat.pow_le_pow_right Nat.two_pos half_le)
    _ < 2 ^ 31 := by decide

namespace HdrBucketConfig

/-- The fields of a valid configuration, and how they are related. -/
structure Shape (config : HdrBucketConfig) (half unit buckets : Nat) : Prop where
  unitMagnitude : config.unitMagnitude = unit
  subBucketHalfCountMagnitude : config.subBucketHalfCountMagnitude = half
  subBucketCount : config.subBucketCount = (2 ^ (half + 1) : Nat)
  subBucketHalfCount : config.subBucketHalfCount = (2 ^ half : Nat)
  subBucketMask : config.subBucketMask = ((2 ^ (half + 1) - 1) * 2 ^ unit : Nat)
  countsLen : config.countsLen = ((buckets + 1) * 2 ^ half : Nat)
  half_le : half ≤ 17
  unit_add_half_le : unit + half ≤ 61
  buckets_le : unit + half + buckets ≤ 63
  covered : config.highestTrackableValue < 2 ^ (unit + half + buckets)
  precise : 10 ^ config.significantFigures.toNat ≤ 2 ^ half
  buckets_pos : 0 < buckets

theorem check_eq_ok {config checked : HdrBucketConfig} (passed : config.check = .ok checked) :
    checked = config ∧ 1 ≤ config.lowestTrackableValue ∧ 1 ≤ config.significantFigures ∧
      config.significantFigures ≤ 5 ∧
      config.unitMagnitude + config.subBucketHalfCountMagnitude ≤ 61 := by
  unfold check at passed
  split at passed
  · cases passed
  · split at passed
    · cases passed
    · split at passed
      · cases passed
      · split at passed
        · cases passed
        · cases passed
          exact ⟨rfl, by omega, by omega, by omega, by omega⟩

theorem create_shape {lowest highest : Int64} {figures : Int32} {config : HdrBucketConfig}
    (created : create lowest highest figures = some (.ok config)) :
    ∃ half unit buckets, config.Shape half unit buckets := by
  rcases Option.map_eq_some_iff.mp created with ⟨initial, initialised, checked⟩
  rcases check_eq_ok checked with ⟨rfl, -, least, most, magnitude⟩
  rcases Option.map_eq_some_iff.mp initialised with ⟨bucketCount, needed, rfl⟩
  simp only at least most magnitude
  rcases getSubBucketHalfCountMagnitude_spec least most with ⟨half, half_eq, half_le, precise⟩
  generalize Nat.log2 lowest.toInt.toNat = unit at *
  rw [half_eq] at needed magnitude
  have count_lt : 2 ^ (half + 1) < 2 ^ 31 := Nat.pow_lt_pow_right one_lt_two (by omega)
  have count_eq : int32 (2 ^ ((half : Int) + 1).toNat) = (2 ^ (half + 1) : Nat) := by
    rw [← int32_natCast count_lt]
    congr 1
  have start_lt : 2 ^ (half + 1) * 2 ^ unit < 2 ^ 63 := by
    rw [← Nat.pow_add]
    exact Nat.pow_lt_pow_right one_lt_two (by omega)
  have start_eq : shiftLeft64 (2 ^ (half + 1) : Nat) unit = (2 ^ (unit + half + 1) : Nat) := by
    rw [shiftLeft64_natCast start_lt, ← Nat.pow_add, Nat.add_right_comm, Nat.add_comm half]
  have half_count : ((2 ^ (half + 1) : Nat) : Int).tdiv 2 = (2 ^ half : Nat) := by
    rw [Nat.pow_succ]
    push_cast
    exact Int.mul_tdiv_cancel _ (by decide)
  have highest_lt : highest.toInt < 2 ^ 63 := Int64.toInt_lt highest
  rw [count_eq, bucketsNeededToCoverValue, start_eq] at needed
  rcases coverValue_covers highest_lt (by omega) needed with
    ⟨doublings, rfl, bounded, covered⟩
  have tiers_lt : (1 + doublings + 1) * 2 ^ half < 2 ^ 31 := halfBuckets_lt half_le (by omega)
  have mask_lt : (2 ^ (half + 1) - 1) * 2 ^ unit < 2 ^ 63 :=
    (Nat.mul_le_mul_right _ (Nat.sub_le _ 1)).trans_lt start_lt
  refine ⟨half, unit, 1 + doublings, ?_⟩
  refine
    { unitMagnitude := rfl
      subBucketHalfCountMagnitude := half_eq
      subBucketCount := ?_
      subBucketHalfCount := ?_
      subBucketMask := ?_
      countsLen := ?_
      half_le := half_le
      unit_add_half_le := by omega
      buckets_le := by omega
      covered := ?_
      precise := precise
      buckets_pos := by omega }
  · rw [half_eq, count_eq]
  · rw [half_eq, count_eq, half_count]
  · rw [half_eq, count_eq, ← shiftLeft64_natCast mask_lt,
      Int.natCast_pred_of_pos (Nat.two_pow_pos _)]
  · rw [half_eq, count_eq, half_count, ← int32_natCast tiers_lt]
    simp only [Nat.cast_mul, Nat.cast_add, Nat.cast_one]
  · rwa [show unit + half + (1 + doublings) = unit + half + 1 + doublings by omega]

/-! ## Indices and cells -/

section

variable {config : HdrBucketConfig} {half unit buckets : Nat}

theorem mask_bounds (half unit : Nat) :
    2 ^ (unit + half) ≤ (2 ^ (half + 1) - 1) * 2 ^ unit ∧
      (2 ^ (half + 1) - 1) * 2 ^ unit < 2 ^ (unit + half + 1) := by
  have split : 2 ^ (half + 1) = 2 ^ half + 2 ^ half := by
    rw [Nat.pow_succ, Nat.mul_two]
  have one : 0 < 2 ^ half := Nat.two_pow_pos half
  constructor
  · rw [Nat.pow_add, Nat.mul_comm]
    exact Nat.mul_le_mul_right _ (by omega)
  · rw [Nat.add_assoc, Nat.pow_add 2 unit, Nat.mul_comm]
    exact Nat.mul_lt_mul_of_pos_left (by omega) (Nat.two_pow_pos unit)

theorem Shape.getBucketIndex_natCast (shape : config.Shape half unit buckets) {value : Nat}
    (short : value < 2 ^ 63) :
    config.getBucketIndex value = LogLinear.exponent half unit value := by
  rcases mask_bounds half unit with ⟨least, most⟩
  have bounded := shape.unit_add_half_le
  set mask := (2 ^ (half + 1) - 1) * 2 ^ unit with mask_eq
  have mask_lt : mask < 2 ^ 63 :=
    most.trans_le (Nat.pow_le_pow_right Nat.two_pos (by omega))
  have mask_ne : mask ≠ 0 := by
    have positive := Nat.two_pow_pos (unit + half)
    omega
  have mask_log : Nat.log2 mask = unit + half := (Nat.log2_eq_iff mask_ne).mpr ⟨least, most⟩
  simp only [getBucketIndex]
  rw [shape.subBucketMask, ← mask_eq, or64_natCast short mask_lt,
    countLeadingZeros64_natCast (Nat.or_lt_two_pow short mask_lt), log2_or mask_ne, mask_log,
    shape.unitMagnitude, shape.subBucketHalfCountMagnitude, LogLinear.exponent,
    ← Nat.log2_eq_log_two]
  omega

/-- The shift by which the sub-bucket of a value is found keeps the top bits of the value. -/
theorem Shape.shift_le (shape : config.Shape half unit buckets) {value : Nat}
    (short : value < 2 ^ 63) : unit + LogLinear.exponent half unit value + half ≤ 62 := by
  have bounded := shape.unit_add_half_le
  have log_lt : Nat.log 2 value < 63 := by
    rcases Nat.eq_zero_or_pos value with rfl | positive
    · simp
    · exact (Nat.log_lt_iff_lt_pow one_lt_two positive.ne').mpr short
  unfold LogLinear.exponent
  omega

theorem Shape.getSubBucketIndex_natCast (shape : config.Shape half unit buckets) {value : Nat}
    (short : value < 2 ^ 63) :
    getSubBucketIndex value (config.getBucketIndex value) config.unitMagnitude =
      (value / 2 ^ (unit + LogLinear.exponent half unit value) : Nat) := by
  have small := LogLinear.value_div_lt half unit value
  have half_le := shape.half_le
  have bound : 2 ^ (half + 1) ≤ 2 ^ 18 := Nat.pow_le_pow_right Nat.two_pos (by omega)
  have amount : ((LogLinear.exponent half unit value : Int) + unit).toNat =
      unit + LogLinear.exponent half unit value := by omega
  unfold getSubBucketIndex
  rw [shape.getBucketIndex_natCast short, shape.unitMagnitude, amount, shiftRight_natCast,
    int32_natCast (by omega)]

theorem Shape.valueFromIndex_natCast (shape : config.Shape half unit buckets)
    {bucket subBucket : Nat} (short : subBucket * 2 ^ (unit + bucket) < 2 ^ 63) :
    valueFromIndex bucket subBucket config.unitMagnitude =
      (subBucket * 2 ^ (unit + bucket) : Nat) := by
  unfold valueFromIndex
  rw [shape.unitMagnitude, ← Int.natCast_add, Nat.add_comm, shiftLeft64_natCast short]

theorem Shape.lowestEquivalentValue_natCast (shape : config.Shape half unit buckets)
    {value : Nat} (short : value < 2 ^ 63) :
    config.lowestEquivalentValue value =
      LogLinear.lower half unit (LogLinear.cell half unit value) := by
  have below := LogLinear.lower_cell_le half unit value
  rw [LogLinear.lower_cell] at below ⊢
  simp only [lowestEquivalentValue]
  rw [shape.getSubBucketIndex_natCast short, shape.getBucketIndex_natCast short,
    shape.valueFromIndex_natCast (below.trans_lt short)]

theorem Shape.countsIndexFor_natCast (shape : config.Shape half unit buckets) {value : Nat}
    (short : value < 2 ^ 63) :
    config.countsIndexFor value = LogLinear.cell half unit value := by
  have shift_le := shape.shift_le short
  have base_lt : (LogLinear.exponent half unit value + 1) * 2 ^ half < 2 ^ 31 :=
    halfBuckets_lt shape.half_le (by omega)
  have base_eq : shiftLeft32 ((LogLinear.exponent half unit value : Int) + 1) half =
      ((LogLinear.exponent half unit value + 1) * 2 ^ half : Nat) := by
    rw [← shiftLeft32_natCast base_lt, Int.natCast_add, Int.natCast_one]
  simp only [countsIndexFor, countsIndex]
  rw [shape.getSubBucketIndex_natCast short, shape.getBucketIndex_natCast short,
    shape.subBucketHalfCountMagnitude, shape.subBucketHalfCount, base_eq, LogLinear.cell,
    Nat.succ_mul]
  push_cast
  omega

theorem Shape.countsIndexFor_mono (shape : config.Shape half unit buckets) {smaller larger : Int}
    (nonnegative : 0 ≤ smaller) (ordered : smaller ≤ larger) (bounded : larger ≤ int64Max) :
    config.countsIndexFor smaller ≤ config.countsIndexFor larger := by
  unfold int64Max at bounded
  lift smaller to Nat using nonnegative
  lift larger to Nat using (by omega)
  rw [shape.countsIndexFor_natCast (by omega), shape.countsIndexFor_natCast (by omega)]
  exact_mod_cast LogLinear.cell_mono (by omega : smaller ≤ larger)

theorem Shape.sizeOfEquivalentValueRange_natCast (shape : config.Shape half unit buckets)
    {value : Nat} (short : value < 2 ^ 63) :
    config.sizeOfEquivalentValueRange value =
      LogLinear.width half unit (LogLinear.cell half unit value) := by
  have shift_le := shape.shift_le short
  have small := LogLinear.value_div_lt half unit value
  have notBeyond : ¬((2 ^ (half + 1) : Nat) : Int) ≤
      (value / 2 ^ (unit + LogLinear.exponent half unit value) : Nat) := by omega
  have size_lt : 1 * 2 ^ (unit + LogLinear.exponent half unit value) < 2 ^ 63 := by
    rw [Nat.one_mul]
    exact Nat.pow_lt_pow_right one_lt_two (by omega)
  simp only [sizeOfEquivalentValueRange]
  rw [shape.getSubBucketIndex_natCast short, shape.getBucketIndex_natCast short,
    shape.subBucketCount, if_neg notBeyond, shape.unitMagnitude, LogLinear.width_cell,
    ← Int.natCast_add]
  refine (shiftLeft64_natCast size_lt).trans ?_
  rw [Nat.one_mul]

theorem Shape.valueAtIndex_natCast (shape : config.Shape half unit buckets) {index : Nat}
    (short : LogLinear.lower half unit index < 2 ^ 63) (small : index < 2 ^ 31) :
    config.valueAtIndex index = LogLinear.lower half unit index := by
  have half_le := shape.half_le
  have half_pos : 0 < 2 ^ half := Nat.two_pow_pos half
  have half_lt : 2 ^ half < 2 ^ 31 := Nat.pow_lt_pow_right one_lt_two (by omega)
  have offset : and32 index ((2 ^ half : Nat) - 1) = (index % 2 ^ half : Nat) := by
    rw [← Int.natCast_pred_of_pos half_pos, and32_natCast small (by omega),
      Nat.and_two_pow_sub_one_eq_mod]
  have split := Nat.div_add_mod' index (2 ^ half)
  simp only [valueAtIndex]
  rw [shape.subBucketHalfCountMagnitude, shape.subBucketHalfCount, Int.toNat_natCast,
    shiftRight_natCast, offset]
  unfold LogLinear.lower at short ⊢
  rcases tier : index / 2 ^ half with - | before
  · -- The first half of the first bucket, which no other bucket overlaps.
    have tier_eq : LogLinear.tier half index = 0 := by
      rw [LogLinear.tier, tier]
    rw [tier, Nat.zero_mul, Nat.zero_add] at split
    rw [tier_eq, Nat.zero_mul, Nat.sub_zero, Nat.add_zero] at short ⊢
    rw [if_pos (by decide), split, Int.add_sub_cancel]
    exact shape.valueFromIndex_natCast (by rwa [Nat.add_zero])
  · have tier_eq : LogLinear.tier half index = before := by
      rw [LogLinear.tier, tier, Nat.add_sub_cancel]
    have steps : index - before * 2 ^ half = index % 2 ^ half + 2 ^ half := by
      rw [tier, Nat.succ_mul] at split
      omega
    have bucket : ((before + 1 : Nat) : Int) - 1 = before := by omega
    rw [tier_eq, steps] at short ⊢
    rw [bucket, if_neg (by omega), ← Int.natCast_add]
    exact shape.valueFromIndex_natCast short

theorem Shape.lower_countsLen (shape : config.Shape half unit buckets) :
    LogLinear.lower half unit config.countsLen.toNat = 2 ^ (unit + half + buckets) := by
  rw [shape.countsLen, Int.toNat_natCast, LogLinear.lower_tiers]

/-- The cells of the counts array, and their bounds, stay within an `int64_t`. -/
theorem Shape.cell_bounds (shape : config.Shape half unit buckets) {index : Nat}
    (within : index < config.countsLen.toNat) :
    LogLinear.lower half unit index < 2 ^ 63 ∧ index < 2 ^ 31 := by
  have bounded := shape.buckets_le
  constructor
  · calc LogLinear.lower half unit index
        < LogLinear.lower half unit config.countsLen.toNat := LogLinear.lower_strictMono within
      _ = 2 ^ (unit + half + buckets) := shape.lower_countsLen
      _ ≤ 2 ^ 63 := Nat.pow_le_pow_right Nat.two_pos bounded
  · rw [shape.countsLen, Int.toNat_natCast] at within
    exact within.trans (halfBuckets_lt shape.half_le (by omega))

/-- The buckets reach the trackable values, and a reached value is an `int64_t`. -/
theorem Shape.trackable_lt (shape : config.Shape half unit buckets) {value : Nat}
    (trackable : (value : Int) ≤ config.highestTrackableValue) :
    value < 2 ^ (unit + half + buckets) ∧ value < 2 ^ 63 := by
  have covered := shape.covered
  have reached : value < 2 ^ (unit + half + buckets) := by
    exact_mod_cast trackable.trans_lt covered
  exact ⟨reached, reached.trans_le (Nat.pow_le_pow_right Nat.two_pos shape.buckets_le)⟩

/-- The index of a value lies within the counts array exactly if its buckets reach the value. -/
theorem Shape.cell_lt_countsLen_iff (shape : config.Shape half unit buckets) {value : Nat} :
    LogLinear.cell half unit value < config.countsLen.toNat ↔
      value < 2 ^ (unit + half + buckets) := by
  rw [LogLinear.cell_lt_iff, shape.lower_countsLen]

theorem cell_lt_two_pow (half_le : half ≤ 17) {value : Nat} (short : value < 2 ^ 63) :
    LogLinear.cell half unit value < 2 ^ 31 := by
  have reached : value < LogLinear.lower half unit ((63 + 1) * 2 ^ half) := by
    rw [LogLinear.lower_tiers]
    exact short.trans_le (Nat.pow_le_pow_right Nat.two_pos (by omega))
  calc LogLinear.cell half unit value
      < (63 + 1) * 2 ^ half := LogLinear.cell_lt_iff.mpr reached
    _ < 2 ^ 31 := halfBuckets_lt half_le le_rfl

end

/--
The index of a valid configuration: it inverts `value_at_index`, it is monotone,
it stays within the counts array on the trackable values, and the lowest value
with the same index is the lowest equivalent value.
-/
theorem create_index_laws {lowest highest : Int64} {figures : Int32} {config : HdrBucketConfig}
    (created : create lowest highest figures = some (.ok config)) :
    (∀ index, 0 ≤ index → index < config.countsLen →
      config.countsIndexFor (config.valueAtIndex index) = index) ∧
    (∀ smaller larger, 0 ≤ smaller → smaller ≤ larger → larger ≤ int64Max →
      config.countsIndexFor smaller ≤ config.countsIndexFor larger) ∧
    (∀ value, 0 ≤ value → value ≤ config.highestTrackableValue →
      0 ≤ config.countsIndexFor value ∧ config.countsIndexFor value < config.countsLen) ∧
    (∀ value, 0 ≤ value → value ≤ int64Max →
      config.valueAtIndex (config.countsIndexFor value) = config.lowestEquivalentValue value ∧
      config.lowestEquivalentValue value ≤ value ∧
      value < config.lowestEquivalentValue value + config.sizeOfEquivalentValueRange value) := by
  rcases create_shape created with ⟨half, unit, buckets, shape⟩
  have len_eq := shape.countsLen
  refine ⟨?_, ?_, ?_, ?_⟩
  · intro index nonnegative within
    lift index to Nat using nonnegative
    have inside : index < config.countsLen.toNat := by omega
    rcases shape.cell_bounds inside with ⟨short, small⟩
    rw [shape.valueAtIndex_natCast short small, shape.countsIndexFor_natCast short,
      LogLinear.cell_lower]
  · intro smaller larger nonnegative ordered bounded
    exact shape.countsIndexFor_mono nonnegative ordered bounded
  · intro value nonnegative trackable
    lift value to Nat using nonnegative
    rcases shape.trackable_lt trackable with ⟨reached, short⟩
    have within := shape.cell_lt_countsLen_iff.mpr reached
    rw [shape.countsIndexFor_natCast short]
    omega
  · intro value nonnegative bounded
    unfold int64Max at bounded
    lift value to Nat using nonnegative
    have short : value < 2 ^ 63 := by omega
    have least := LogLinear.lower_cell_le half unit value
    have most := LogLinear.lt_lower_cell_succ half unit value
    rw [LogLinear.lower_succ] at most
    rw [shape.countsIndexFor_natCast short, shape.lowestEquivalentValue_natCast short,
      shape.sizeOfEquivalentValueRange_natCast short,
      shape.valueAtIndex_natCast (least.trans_lt short) (cell_lt_two_pow shape.half_le short)]
    refine ⟨rfl, ?_, ?_⟩
    · exact_mod_cast least
    · exact_mod_cast most

theorem create_index_laws_hour :
    ∃ config, create 1 3600000000 3 = some (.ok config) ∧
      config.countsIndexFor (config.valueAtIndex 2100) = 2100 := by
  have created : create 1 3600000000 3 =
      some (.ok ⟨1, 3600000000, 3, 0, 10, 2048, 1024, 2047, 22, 23552⟩) := by
    decide +kernel
  exact ⟨_, created, (create_index_laws created).1 2100 (by decide) (by decide)⟩

/--
The width of a value's cell is the unit, or at most the value divided by ten to
the significant figures.
-/
theorem create_precision {lowest highest : Int64} {figures : Int32} {config : HdrBucketConfig}
    (created : create lowest highest figures = some (.ok config)) {value : Int}
    (nonnegative : 0 ≤ value) (trackable : value ≤ config.highestTrackableValue) :
    (config.sizeOfEquivalentValueRange value : ℚ) ≤
      max ((2 : ℚ) ^ config.unitMagnitude.toNat)
        ((value : ℚ) / 10 ^ config.significantFigures.toNat) := by
  rcases create_shape created with ⟨half, unit, buckets, shape⟩
  lift value to Nat using nonnegative
  have short := (shape.trackable_lt trackable).2
  rw [shape.sizeOfEquivalentValueRange_natCast short, shape.unitMagnitude, Int.toNat_natCast]
  rcases Nat.eq_zero_or_pos (LogLinear.exponent half unit value) with first | above
  · refine le_max_of_le_left ?_
    rw [LogLinear.width_cell, first, Nat.add_zero]
    push_cast
    exact le_rfl
  · refine le_max_of_le_right ?_
    have narrow :
        LogLinear.width half unit (LogLinear.cell half unit value) *
          10 ^ config.significantFigures.toNat ≤ value :=
      (Nat.mul_le_mul_left _ shape.precise).trans (LogLinear.width_mul_le above)
    rw [le_div_iff₀ (by positivity)]
    exact_mod_cast narrow

theorem create_precision_hour :
    ∃ config, create 1 3600000000 3 = some (.ok config) ∧
      (config.sizeOfEquivalentValueRange 123456789 : ℚ) ≤
        max ((2 : ℚ) ^ 0) (123456789 / 10 ^ 3) := by
  have created : create 1 3600000000 3 =
      some (.ok ⟨1, 3600000000, 3, 0, 10, 2048, 1024, 2047, 22, 23552⟩) := by
    decide +kernel
  refine ⟨_, created, ?_⟩
  have trackable : (123456789 : Int) ≤ 3600000000 := by decide
  exact create_precision created (by decide) trackable

end HdrBucketConfig

end ReactiveToolbox.Hdr
