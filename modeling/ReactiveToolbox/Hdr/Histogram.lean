import Mathlib.Data.Int.Bitwise
import Mathlib.Data.Nat.Log

/-!
# High dynamic range histograms

A histogram counts values in cells whose width grows with the value.  Its bucket
configuration is computed from the range and the precision that are asked for;
the base-two logarithms in it are taken as exact.  Machine integers are integers
that are brought back into their range where they can leave it; a signed overflow
wraps, as it does on the hardware.
-/

namespace ReactiveToolbox.Hdr

/-! ## Machine integers -/

/-- What an `int64_t` holds of a value. -/
def int64 (value : Int) : Int :=
  value.bmod (2 ^ 64)

/-- What an `int32_t` holds of a value. -/
def int32 (value : Int) : Int :=
  value.bmod (2 ^ 32)

/-- `numeric_limits<int64_t>::max()`. -/
def int64Max : Int :=
  2 ^ 63 - 1

/-- `<<` of an `int64_t`, of which the lower bits are kept. -/
def shiftLeft64 (value amount : Int) : Int :=
  int64 (value * 2 ^ amount.toNat)

/-- `<<` of an `int32_t`. -/
def shiftLeft32 (value amount : Int) : Int :=
  int32 (value * 2 ^ amount.toNat)

/-- `|` of two `int64_t`. -/
def or64 (left right : Int) : Int :=
  (BitVec.ofInt 64 left ||| BitVec.ofInt 64 right).toInt

/-- `&` of two `int32_t`. -/
def and32 (left right : Int) : Int :=
  (BitVec.ofInt 32 left &&& BitVec.ofInt 32 right).toInt

/-- `count_leading_zeros_64`, of a value other than zero. -/
def countLeadingZeros64 (value : Int) : Int :=
  63 - Nat.log2 (BitVec.ofInt 64 value).toNat

/-- The sub-bucket of a value within its bucket. -/
def getSubBucketIndex (value bucketIndex unitMagnitude : Int) : Int :=
  int32 (value >>> (bucketIndex + unitMagnitude).toNat)

/-- The lowest value of a sub-bucket. -/
def valueFromIndex (bucketIndex subBucketIndex unitMagnitude : Int) : Int :=
  shiftLeft64 subBucketIndex (bucketIndex + unitMagnitude)

/-! ## Bucket configurations -/

/--
The loop of `buckets_needed_to_cover_value`, for some number of steps; `none` when
it has not ended by then.
-/
def coverValue (value : Int) (steps : Nat) (smallestUntrackableValue bucketsNeeded : Int) :
    Option Int :=
  match steps with
  | 0 => none
  | steps + 1 =>
      if smallestUntrackableValue ≤ value then
        if int64Max / 2 < smallestUntrackableValue then some (bucketsNeeded + 1)
        else coverValue value steps (shiftLeft64 smallestUntrackableValue 1) (bucketsNeeded + 1)
      else some bucketsNeeded

/--
`buckets_needed_to_cover_value`; `none` when it never returns.  After 64 doublings
the untrackable value is zero and stays so.
-/
def bucketsNeededToCoverValue (value subBucketCount unitMagnitude : Int) : Option Int :=
  coverValue value 65 (shiftLeft64 subBucketCount unitMagnitude) 1

/-- `get_sub_bucket_half_count_magnitude`. -/
def getSubBucketHalfCountMagnitude (significantFigures : Int) : Int :=
  let largestValueWithSingleUnitResolution := 10 ^ significantFigures.toNat * 2
  let subBucketCountMagnitude : Int := Nat.clog 2 largestValueWithSingleUnitResolution
  if 1 < subBucketCountMagnitude then subBucketCountMagnitude - 1 else 0

/-- `HdrBucketConfig`. -/
structure HdrBucketConfig where
  lowestTrackableValue : Int
  highestTrackableValue : Int
  significantFigures : Int
  unitMagnitude : Int
  subBucketHalfCountMagnitude : Int
  subBucketCount : Int
  subBucketHalfCount : Int
  subBucketMask : Int
  bucketCount : Int
  countsLen : Int
  deriving DecidableEq

namespace HdrBucketConfig

/--
The initialisers of `HdrBucketConfig`, which run before its arguments are checked;
`none` when they never end.
-/
def initialise (lowest highest : Int64) (significantFigures : Int32) : Option HdrBucketConfig :=
  let unitMagnitude : Int := Nat.log2 lowest.toInt.toNat
  let subBucketHalfCountMagnitude := getSubBucketHalfCountMagnitude significantFigures.toInt
  let subBucketCount := int32 (2 ^ (subBucketHalfCountMagnitude + 1).toNat)
  (bucketsNeededToCoverValue highest.toInt subBucketCount unitMagnitude).map fun bucketCount => {
    lowestTrackableValue := lowest.toInt
    highestTrackableValue := highest.toInt
    significantFigures := significantFigures.toInt
    unitMagnitude := unitMagnitude
    subBucketHalfCountMagnitude := subBucketHalfCountMagnitude
    subBucketCount := subBucketCount
    subBucketHalfCount := subBucketCount.tdiv 2
    subBucketMask := shiftLeft64 (subBucketCount - 1) unitMagnitude
    bucketCount := bucketCount
    countsLen := int32 ((bucketCount + 1) * subBucketCount.tdiv 2) }

/-- The checks of `HdrBucketConfig`, with the text of the exception it throws. -/
def check (config : HdrBucketConfig) : Except String HdrBucketConfig :=
  if config.lowestTrackableValue < 1 then .error "min value must be greater than zero"
  else if config.significantFigures < 1 ∨ 5 < config.significantFigures then
    .error "significant figures must be between 1 and 5"
  else if config.highestTrackableValue < int64 (config.lowestTrackableValue * 2) then
    .error "highest trackable value too small"
  else if 61 < config.unitMagnitude + config.subBucketHalfCountMagnitude then
    .error "invalid magnitude"
  else .ok config

/-- `HdrBucketConfig(lowest, highest, significant_figures)`. -/
def create (lowest highest : Int64) (significantFigures : Int32) :
    Option (Except String HdrBucketConfig) :=
  (initialise lowest highest significantFigures).map check

/-! ## Values and indices

`HdrHistogram` copies the fields of its configuration; these are its methods that
read nothing else.
-/

/-- The bucket of a value: that of the smallest power of two above it. -/
def getBucketIndex (config : HdrBucketConfig) (value : Int) : Int :=
  let pow2ceiling := 64 - countLeadingZeros64 (or64 value config.subBucketMask)
  pow2ceiling - config.unitMagnitude - (config.subBucketHalfCountMagnitude + 1)

/-- The position of a sub-bucket among the counts. -/
def countsIndex (config : HdrBucketConfig) (bucketIndex subBucketIndex : Int) : Int :=
  let bucketBaseIndex := shiftLeft32 (bucketIndex + 1) config.subBucketHalfCountMagnitude
  let offsetInBucket := subBucketIndex - config.subBucketHalfCount
  bucketBaseIndex + offsetInBucket

/-- The position among the counts that a value is counted at. -/
def countsIndexFor (config : HdrBucketConfig) (value : Int) : Int :=
  let bucketIndex := config.getBucketIndex value
  let subBucketIndex := getSubBucketIndex value bucketIndex config.unitMagnitude
  config.countsIndex bucketIndex subBucketIndex

/-- The lowest value that is counted with a value. -/
def lowestEquivalentValue (config : HdrBucketConfig) (value : Int) : Int :=
  let bucketIndex := config.getBucketIndex value
  let subBucketIndex := getSubBucketIndex value bucketIndex config.unitMagnitude
  valueFromIndex bucketIndex subBucketIndex config.unitMagnitude

/-- Two values are counted together. -/
def valuesAreEquivalent (config : HdrBucketConfig) (a b : Int) : Prop :=
  config.lowestEquivalentValue a = config.lowestEquivalentValue b

instance (config : HdrBucketConfig) (a b : Int) : Decidable (config.valuesAreEquivalent a b) :=
  inferInstanceAs (Decidable (_ = _))

/-- The lowest value that is counted at a position. -/
def valueAtIndex (config : HdrBucketConfig) (index : Int) : Int :=
  let bucketIndex := (index >>> config.subBucketHalfCountMagnitude.toNat) - 1
  let subBucketIndex :=
    and32 index (config.subBucketHalfCount - 1) + config.subBucketHalfCount
  if bucketIndex < 0 then
    valueFromIndex 0 (subBucketIndex - config.subBucketHalfCount) config.unitMagnitude
  else valueFromIndex bucketIndex subBucketIndex config.unitMagnitude

/-- How many values are counted together with a value. -/
def sizeOfEquivalentValueRange (config : HdrBucketConfig) (value : Int) : Int :=
  let bucketIndex := config.getBucketIndex value
  let subBucketIndex := getSubBucketIndex value bucketIndex config.unitMagnitude
  let adjustedBucket :=
    if config.subBucketCount ≤ subBucketIndex then bucketIndex + 1 else bucketIndex
  shiftLeft64 1 (config.unitMagnitude + adjustedBucket)

/-- The first value that is counted behind a value. -/
def nextNonEquivalentValue (config : HdrBucketConfig) (value : Int) : Int :=
  int64 (config.lowestEquivalentValue value + config.sizeOfEquivalentValueRange value)

/-- The highest value that is counted with a value. -/
def highestEquivalentValue (config : HdrBucketConfig) (value : Int) : Int :=
  int64 (config.nextNonEquivalentValue value - 1)

/-- The value in the middle of those that are counted with a value. -/
def medianEquivalentValue (config : HdrBucketConfig) (value : Int) : Int :=
  int64 (config.lowestEquivalentValue value + (config.sizeOfEquivalentValueRange value >>> 1))

end HdrBucketConfig

/-! ## Histograms -/

/-- `HdrHistogram`. -/
structure HdrHistogram where
  config : HdrBucketConfig
  normalizingIndexOffset : Int
  minValue : Int
  maxValue : Int
  totalCount : Int
  counts : List Int
  deriving DecidableEq

namespace HdrHistogram

/-- The constructor: nothing has been counted. -/
def create (config : HdrBucketConfig) : HdrHistogram where
  config := config
  normalizingIndexOffset := 0
  minValue := int64Max
  maxValue := 0
  totalCount := 0
  counts := List.replicate config.countsLen.toNat 0

/-- `counts_len_`. -/
def countsLen (histogram : HdrHistogram) : Int :=
  histogram.counts.length

/-- The position of a count, turned by the offset. -/
def normalizeIndex (histogram : HdrHistogram) (index : Int) : Int :=
  if histogram.normalizingIndexOffset = 0 then index
  else
    let normalizedIndex := index - histogram.normalizingIndexOffset
    let adjustment :=
      if normalizedIndex < 0 then histogram.countsLen
      else if histogram.countsLen ≤ normalizedIndex then -histogram.countsLen
      else 0
    normalizedIndex + adjustment

/-- `counts_get_normalised`, of an index within the counts. -/
def countsGetNormalised (histogram : HdrHistogram) (index : Int) : Int :=
  histogram.counts.getD (histogram.normalizeIndex index).toNat 0

/-- `count_at_index`. -/
def countAtIndex (histogram : HdrHistogram) (index : Int) : Int :=
  histogram.countsGetNormalised index

/-- `count_at_value`. -/
def countAtValue (histogram : HdrHistogram) (value : Int) : Int :=
  histogram.countsGetNormalised (histogram.config.countsIndexFor value)

/-- The lowest value that is equivalent to the least one recorded, zero apart. -/
def nonZeroMin (histogram : HdrHistogram) : Int :=
  if histogram.minValue = int64Max then histogram.minValue
  else histogram.config.lowestEquivalentValue histogram.minValue

/-- The least value, which is zero if the first position has a count. -/
def min (histogram : HdrHistogram) : Int :=
  if 0 < histogram.countAtIndex 0 then 0 else histogram.nonZeroMin

/-- The greatest value that is equivalent to one recorded. -/
def max (histogram : HdrHistogram) : Int :=
  if histogram.maxValue = 0 then 0
  else histogram.config.highestEquivalentValue histogram.maxValue

/-- Adds to a count and to the total. -/
def countsIncNormalised (histogram : HdrHistogram) (index value : Int) : HdrHistogram :=
  let normalisedIndex := (histogram.normalizeIndex index).toNat
  { histogram with
    counts := histogram.counts.modify normalisedIndex fun count => int64 (count + value)
    totalCount := int64 (histogram.totalCount + value) }

/-- Keeps the least value other than zero, and the greatest one. -/
def updateMinMax (histogram : HdrHistogram) (value : Int) : HdrHistogram :=
  { histogram with
    minValue := if value ≠ 0 then Min.min histogram.minValue value else histogram.minValue
    maxValue := Max.max histogram.maxValue value }

/-- `record_values`: whether the value was accepted, and the histogram behind it. -/
def recordValues (histogram : HdrHistogram) (value count : Int64) : Bool × HdrHistogram :=
  if value.toInt < 0 then (false, histogram)
  else
    let countsIndex := histogram.config.countsIndexFor value.toInt
    if countsIndex < 0 ∨ histogram.countsLen ≤ countsIndex then (false, histogram)
    else (true, (histogram.countsIncNormalised countsIndex count.toInt).updateMinMax value.toInt)

/-- `record_value`: a value is recorded once. -/
def recordValue (histogram : HdrHistogram) (value : Int64) : Bool × HdrHistogram :=
  histogram.recordValues value 1

/-- Forgets what has been recorded. -/
def reset (histogram : HdrHistogram) : HdrHistogram :=
  { histogram with
    minValue := int64Max
    maxValue := 0
    totalCount := 0
    counts := List.replicate histogram.counts.length 0 }

end HdrHistogram

end ReactiveToolbox.Hdr
