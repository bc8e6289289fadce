import ReactiveToolbox.Hdr.Record
import ReactiveToolbox.Lib.CheckedInt

/-!
# Overflow

The arithmetic of configurations and of equivalent values once more, with no result
where an operation leaves its type.  The initialisers of a configuration shift
before its magnitude is checked, and the value next to the last cell of an
`int64_t` is one too large for it.
-/

namespace ReactiveToolbox.Hdr

open ReactiveToolbox.Lib

/-- What an operation on `int64_t` gives; none where it overflows. -/
def exact64 (value : Int) : Option Int :=
  (CheckedInt.num 64 value).value?

/-- What an operation on `int32_t` gives; none where it overflows. -/
def exact32 (value : Int) : Option Int :=
  (CheckedInt.num 32 value).value?

theorem exact64_of_inRange {value : Int} (least : -2 ^ 63 ≤ value) (most : value < 2 ^ 63) :
    exact64 value = some value := by
  have within : InRange 64 value := ⟨least, most⟩
  rw [exact64, CheckedInt.value?_num within]

theorem exact32_of_inRange {value : Int} (least : -2 ^ 31 ≤ value) (most : value < 2 ^ 31) :
    exact32 value = some value := by
  have within : InRange 32 value := ⟨least, most⟩
  rw [exact32, CheckedInt.value?_num within]

theorem exact64_natCast {value : Nat} (short : value < 2 ^ 63) :
    exact64 value = some (value : Int) :=
  exact64_of_inRange (by omega) (by omega)

theorem exact32_natCast {value : Nat} (short : value < 2 ^ 31) :
    exact32 value = some (value : Int) :=
  exact32_of_inRange (by omega) (by omega)

theorem exact64_large {value : Int} (large : 2 ^ 63 ≤ value) : exact64 value = none := by
  have without : ¬InRange 64 value := fun within => absurd within.2 (not_lt.mpr large)
  rw [exact64, CheckedInt.value?_num_of_not without]

theorem exact64_eq_some {value result : Int} (exact : exact64 value = some result) :
    result = value ∧ int64 value = value := by
  by_cases within : InRange 64 value
  · rw [exact64, CheckedInt.value?_num within] at exact
    exact ⟨(Option.some.inj exact).symm, int64_eq within.1 within.2⟩
  · rw [exact64, CheckedInt.value?_num_of_not within] at exact
    cases exact

theorem exact32_eq_some {value result : Int} (exact : exact32 value = some result) :
    result = value ∧ int32 value = value := by
  by_cases within : InRange 32 value
  · rw [exact32, CheckedInt.value?_num within] at exact
    exact ⟨(Option.some.inj exact).symm, int32_eq within.1 within.2⟩
  · rw [exact32, CheckedInt.value?_num_of_not within] at exact
    cases exact

/-! ## Configurations -/

/-- The loop of `buckets_needed_to_cover_value`, as far as it does not overflow. -/
def coverValueExact (value : Int) (steps : Nat) (smallestUntrackableValue bucketsNeeded : Int) :
    Option Int :=
  match steps with
  | 0 => none
  | steps + 1 =>
      if smallestUntrackableValue ≤ value then
        if int64Max / 2 < smallestUntrackableValue then exact32 (bucketsNeeded + 1)
        else do
          let smallestUntrackableValue ← exact64 (smallestUntrackableValue * 2 ^ 1)
          let bucketsNeeded ← exact32 (bucketsNeeded + 1)
          coverValueExact value steps smallestUntrackableValue bucketsNeeded
      else some bucketsNeeded

/-- `buckets_needed_to_cover_value`, as far as it does not overflow. -/
def bucketsNeededExact (value subBucketCount unitMagnitude : Int) : Option Int := do
  let smallestUntrackableValue ← exact64 (subBucketCount * 2 ^ unitMagnitude.toNat)
  coverValueExact value 65 smallestUntrackableValue 1

namespace HdrBucketConfig

/-- `HdrBucketConfig(lowest, highest, significant_figures)`, as far as it does not overflow. -/
def createExact (lowest highest : Int64) (significantFigures : Int32) :
    Option (Except String HdrBucketConfig) := do
  let unitMagnitude : Int := Nat.log2 lowest.toInt.toNat
  let subBucketHalfCountMagnitude := getSubBucketHalfCountMagnitude significantFigures.toInt
  let subBucketCount ← exact32 (2 ^ (subBucketHalfCountMagnitude + 1).toNat)
  let subBucketMask ← exact64 ((subBucketCount - 1) * 2 ^ unitMagnitude.toNat)
  let bucketCount ← bucketsNeededExact highest.toInt subBucketCount unitMagnitude
  let countsLen ← exact32 ((bucketCount + 1) * subBucketCount.tdiv 2)
  let _ ← exact64 (lowest.toInt * 2)
  some (check {
    lowestTrackableValue := lowest.toInt
    highestTrackableValue := highest.toInt
    significantFigures := significantFigures.toInt
    unitMagnitude := unitMagnitude
    subBucketHalfCountMagnitude := subBucketHalfCountMagnitude
    subBucketCount := subBucketCount
    subBucketHalfCount := subBucketCount.tdiv 2
    subBucketMask := subBucketMask
    bucketCount := bucketCount
    countsLen := countsLen })

/--
The construction ends without overflow, and it throws exactly if the range is too
small or the magnitude is too large.
-/
def ConstructsExactly (lowest highest : Int64) (significantFigures : Int32) : Prop :=
  ∃ result, createExact lowest highest significantFigures = some result ∧
    ((∃ what, result = .error what) ↔
      highest.toInt < 2 * lowest.toInt ∨
        61 < Nat.log2 lowest.toInt.toNat +
          getSubBucketHalfCountMagnitude significantFigures.toInt)

end HdrBucketConfig

/-- Without overflow the loop counts what the loop on machine integers counts. -/
theorem coverValue_of_exact {value smallest needed result : Int} {steps : Nat}
    (exact : coverValueExact value steps smallest needed = some result) :
    coverValue value steps smallest needed = some result := by
  induction steps generalizing smallest needed with
  | zero => cases exact
  | succ steps continued =>
      simp only [coverValueExact] at exact
      simp only [coverValue]
      split at exact
      · rename_i covered
        rw [if_pos covered]
        split at exact
        · rename_i large
          rw [if_pos large, (exact32_eq_some exact).1]
        · rename_i small
          rw [if_neg small]
          rcases Option.bind_eq_some_iff.mp exact with ⟨doubled, doubled_eq, counted⟩
          rcases Option.bind_eq_some_iff.mp counted with ⟨next, next_eq, rest⟩
          rcases exact64_eq_some doubled_eq with ⟨rfl, wrapped⟩
          rcases exact32_eq_some next_eq with ⟨rfl, -⟩
          have shifted : shiftLeft64 smallest 1 = smallest * 2 ^ 1 := wrapped
          rw [shifted]
          exact continued rest
      · rename_i exceeded
        rw [if_neg exceeded]
        exact exact

/--
From a power of two on the loop ends without overflow, after as many steps as there
are larger powers.
-/
theorem coverValueExact_ends (value : Int) {steps magnitude needed : Nat}
    (magnitude_le : magnitude ≤ 62) (enough : 63 ≤ magnitude + steps)
    (small : needed + (63 - magnitude) < 2 ^ 31) :
    ∃ result : Nat, result ≤ needed + (63 - magnitude) ∧
      coverValueExact value steps (2 ^ magnitude : Nat) needed = some (result : Int) := by
  induction steps generalizing magnitude needed with
  | zero => omega
  | succ steps continued =>
      have next_eq : exact32 ((needed : Int) + 1) = some ((needed + 1 : Nat) : Int) := by
        rw [← exact32_natCast (by omega : needed + 1 < 2 ^ 31)]
        push_cast
        rfl
      simp only [coverValueExact]
      split
      · split
        · exact ⟨needed + 1, by omega, next_eq⟩
        · rename_i fits
          have below : magnitude < 62 := by
            by_contra notBelow
            have top : magnitude = 62 := by omega
            rw [top] at fits
            exact fits (by decide)
          have short : 2 ^ (magnitude + 1) < 2 ^ 63 := Nat.pow_lt_pow_right one_lt_two (by omega)
          have doubled : exact64 (((2 ^ magnitude : Nat) : Int) * 2 ^ 1) =
              some ((2 ^ (magnitude + 1) : Nat) : Int) := by
            rw [← exact64_natCast short]
            push_cast
            ring_nf
          have room : needed + 1 + (63 - (magnitude + 1)) < 2 ^ 31 := by omega
          rcases continued (by omega : magnitude + 1 ≤ 62) (by omega) room with
            ⟨result, bounded, covered⟩
          refine ⟨result, by omega, ?_⟩
          rw [doubled, next_eq]
          exact covered
      · exact ⟨needed, by omega, rfl⟩

/-- From zero on no doubling leaves what is to be covered, and the loop never ends. -/
theorem coverValue_zero_endless {value : Int} (nonnegative : 0 ≤ value) (steps : Nat)
    (needed : Int) : coverValue value steps 0 needed = none := by
  induction steps generalizing needed with
  | zero => rfl
  | succ steps continued =>
      have stays : shiftLeft64 0 1 = 0 := by decide
      simp only [coverValue, if_pos nonnegative, stays]
      rw [if_neg (by decide)]
      exact continued _

namespace HdrBucketConfig

/-- Without overflow the construction gives what it gives on machine integers. -/
theorem create_of_exact {lowest highest : Int64} {figures : Int32}
    {result : Except String HdrBucketConfig}
    (exact : createExact lowest highest figures = some result) :
    create lowest highest figures = some result := by
  simp only [createExact, Option.bind_eq_bind, Option.bind_eq_some_iff, Option.some.injEq]
    at exact
  rcases exact with ⟨count, count_eq, mask, mask_eq, buckets, needed, len, len_eq, -, -, rfl⟩
  rcases Option.bind_eq_some_iff.mp needed with ⟨start, start_eq, buckets_eq⟩
  rcases exact32_eq_some count_eq with ⟨rfl, count_wrapped⟩
  rcases exact64_eq_some mask_eq with ⟨rfl, mask_wrapped⟩
  rcases exact64_eq_some start_eq with ⟨rfl, start_wrapped⟩
  rcases exact32_eq_some len_eq with ⟨rfl, len_wrapped⟩
  have counted := coverValue_of_exact buckets_eq
  simp only [create, initialise, bucketsNeededToCoverValue, shiftLeft64, count_wrapped,
    mask_wrapped, start_wrapped, counted, Option.map_some, len_wrapped]

theorem exact32_subBucketCount {half : Nat} (half_le : half ≤ 17) :
    exact32 (2 ^ ((half : Int) + 1).toNat) = some ((2 ^ (half + 1) : Nat) : Int) := by
  have short : 2 ^ (half + 1) < 2 ^ 31 := Nat.pow_lt_pow_right one_lt_two (by omega)
  have amount : ((half : Int) + 1).toNat = half + 1 := by omega
  rw [← exact32_natCast short, amount]
  push_cast
  rfl

theorem subBucketCount_mul (half unit : Nat) :
    ((2 ^ (half + 1) : Nat) : Int) * 2 ^ unit = (2 ^ (unit + half + 1) : Nat) := by
  push_cast
  ring

theorem bucketsNeededExact_ends (value : Int) {half unit : Nat} (magnitude : unit + half ≤ 61) :
    ∃ buckets : Nat, buckets ≤ 63 ∧
      bucketsNeededExact value (2 ^ (half + 1) : Nat) unit = some (buckets : Int) := by
  have short : 2 ^ (unit + half + 1) < 2 ^ 63 := Nat.pow_lt_pow_right one_lt_two (by omega)
  have room : 1 + (63 - (unit + half + 1)) < 2 ^ 31 := by omega
  rcases coverValueExact_ends value (by omega : unit + half + 1 ≤ 62)
    (by omega : 63 ≤ unit + half + 1 + 65) room with ⟨buckets, bounded, covered⟩
  refine ⟨buckets, by omega, ?_⟩
  unfold bucketsNeededExact
  rw [Int.toNat_natCast, subBucketCount_mul, exact64_natCast short]
  exact covered

theorem bucketsNeededExact_overflows {value : Int} {half unit : Nat}
    (magnitude : 61 < unit + half) :
    bucketsNeededExact value (2 ^ (half + 1) : Nat) unit = none := by
  have beyond : 2 ^ 63 ≤ 2 ^ (unit + half + 1) := Nat.pow_le_pow_right Nat.two_pos (by omega)
  unfold bucketsNeededExact
  rw [Int.toNat_natCast, subBucketCount_mul, exact64_large (by omega)]
  rfl

theorem exact64_mask {half unit : Nat} (magnitude : unit + half ≤ 61) :
    exact64 ((((2 ^ (half + 1) : Nat) : Int) - 1) * 2 ^ unit) =
      some (((2 ^ (half + 1) - 1) * 2 ^ unit : Nat) : Int) := by
  have bounds := mask_bounds half unit
  have short : 2 ^ (unit + half + 1) < 2 ^ 63 := Nat.pow_lt_pow_right one_lt_two (by omega)
  have mask_lt : (2 ^ (half + 1) - 1) * 2 ^ unit < 2 ^ 63 := by omega
  rw [← exact64_natCast mask_lt, ← Int.natCast_pred_of_pos (Nat.two_pow_pos _), Nat.cast_mul,
    Nat.cast_pow, Nat.cast_ofNat]

/-- A range that is not too small is not doubled beyond an `int64_t` by its check. -/
theorem exact64_double {lowest : Int64} {half : Nat}
    (magnitude : Nat.log2 lowest.toInt.toNat + half ≤ 61) (positive : 1 ≤ lowest.toInt) :
    exact64 (lowest.toInt * 2) = some (lowest.toInt * 2) := by
  have below : lowest.toInt.toNat < 2 ^ (Nat.log2 lowest.toInt.toNat + 1) := Nat.lt_log2_self
  have bound : 2 ^ (Nat.log2 lowest.toInt.toNat + 1) ≤ 2 ^ 62 :=
    Nat.pow_le_pow_right Nat.two_pos (by omega)
  exact exact64_of_inRange (by omega) (by omega)

/-- The checks throw exactly if the range is too small or the magnitude is too large. -/
theorem check_throws_iff {config : HdrBucketConfig} (positive : 1 ≤ config.lowestTrackableValue)
    (least : 1 ≤ config.significantFigures) (most : config.significantFigures ≤ 5)
    (exact : int64 (config.lowestTrackableValue * 2) = config.lowestTrackableValue * 2) :
    (∃ what, config.check = .error what) ↔
      config.highestTrackableValue < 2 * config.lowestTrackableValue ∨
        61 < config.unitMagnitude + config.subBucketHalfCountMagnitude := by
  unfold check
  rw [exact, if_neg (by omega), if_neg (by omega)]
  split
  · rename_i small
    exact iff_of_true ⟨_, rfl⟩ (Or.inl (by omega))
  · rename_i wide
    split
    · rename_i large
      exact iff_of_true ⟨_, rfl⟩ (Or.inr large)
    · rename_i small
      refine iff_of_false ?_ (by omega)
      rintro ⟨what, thrown⟩
      cases thrown

/--
A configuration is constructed as its checks promise exactly where the magnitude
passes its check: the shifts of the initialisers are not behind that check.
-/
theorem constructsExactly_iff (lowest highest : Int64) (figures : Int32)
    (positive : 1 ≤ lowest.toInt) (least : 1 ≤ figures.toInt) (most : figures.toInt ≤ 5) :
    ConstructsExactly lowest highest figures ↔
      Nat.log2 lowest.toInt.toNat + getSubBucketHalfCountMagnitude figures.toInt ≤ 61 := by
  rcases getSubBucketHalfCountMagnitude_spec least most with ⟨half, half_eq, half_le, -⟩
  unfold ConstructsExactly createExact
  simp only [half_eq, exact32_subBucketCount half_le, Int.toNat_natCast, Option.bind_eq_bind]
  rw [Option.bind_some]
  constructor
  · rintro ⟨result, exact, -⟩
    by_contra large
    rw [bucketsNeededExact_overflows (by omega)] at exact
    rcases Option.bind_eq_some_iff.mp exact with ⟨mask, -, nothing⟩
    cases nothing
  · intro magnitude
    have within : Nat.log2 lowest.toInt.toNat + half ≤ 61 := by omega
    have doubled := exact64_double within positive
    rcases bucketsNeededExact_ends highest.toInt within with ⟨buckets, bounded, covered⟩
    have tiers_lt : (buckets + 1) * 2 ^ half < 2 ^ 31 := halfBuckets_lt half_le (by omega)
    have half_count : ((2 ^ (half + 1) : Nat) : Int).tdiv 2 = (2 ^ half : Nat) := by
      rw [Nat.pow_succ]
      push_cast
      exact Int.mul_tdiv_cancel _ (by decide)
    have len_exact : exact32 (((buckets : Int) + 1) * (2 ^ half : Nat)) =
        some (((buckets + 1) * 2 ^ half : Nat) : Int) := by
      rw [← exact32_natCast tiers_lt]
      push_cast
      rfl
    rw [exact64_mask within, Option.bind_some, covered, Option.bind_some, half_count, len_exact,
      Option.bind_some, doubled, Option.bind_some]
    simp only [Option.some.injEq, exists_eq_left']
    exact check_throws_iff positive least most (exact64_eq_some doubled).2

theorem constructsExactly_iff_hour : ConstructsExactly 1 3600000000 3 :=
  (constructsExactly_iff 1 3600000000 3 (by decide) (by decide) (by decide)).mpr
    (by decide +kernel)

/-- The least untrackable value is shifted out of its type, and no doubling brings it back. -/
theorem create_of_large_lowest :
    create 4611686018427387904 9223372036854775807 1 = none ∧
      (∀ steps, coverValue 9223372036854775807 steps (shiftLeft64 32 62) 1 = none) ∧
      ¬ConstructsExactly 4611686018427387904 9223372036854775807 1 := by
  refine ⟨by decide +kernel, ?_, ?_⟩
  · intro steps
    have gone : shiftLeft64 32 62 = 0 := by decide +kernel
    rw [gone]
    exact coverValue_zero_endless (by decide) steps 1
  · rintro ⟨result, exact, -⟩
    have overflows : createExact 4611686018427387904 9223372036854775807 1 = none := by
      decide +kernel
    rw [overflows] at exact
    cases exact

/-! ## Equivalent values -/

/-- `lowest_equivalent_value`, undefined where it overflows. -/
def lowestEquivalentValueExact (config : HdrBucketConfig) (value : Int) : Option Int :=
  let bucketIndex := config.getBucketIndex value
  let subBucketIndex := getSubBucketIndex value bucketIndex config.unitMagnitude
  exact64 (subBucketIndex * 2 ^ (bucketIndex + config.unitMagnitude).toNat)

/-- `size_of_equivalent_value_range`, undefined where a shift does. -/
def sizeOfEquivalentValueRangeExact (config : HdrBucketConfig) (value : Int) : Option Int :=
  let bucketIndex := config.getBucketIndex value
  let subBucketIndex := getSubBucketIndex value bucketIndex config.unitMagnitude
  let adjustedBucket :=
    if config.subBucketCount ≤ subBucketIndex then bucketIndex + 1 else bucketIndex
  exact64 (1 * 2 ^ (config.unitMagnitude + adjustedBucket).toNat)

/-- `next_non_equivalent_value`, undefined where its sum overflows. -/
def nextNonEquivalentValueExact (config : HdrBucketConfig) (value : Int) : Option Int := do
  let lowest ← config.lowestEquivalentValueExact value
  let size ← config.sizeOfEquivalentValueRangeExact value
  exact64 (lowest + size)

/-- `highest_equivalent_value`, undefined where the next value is. -/
def highestEquivalentValueExact (config : HdrBucketConfig) (value : Int) : Option Int := do
  let next ← config.nextNonEquivalentValueExact value
  exact64 (next - 1)

/-- `median_equivalent_value`, undefined where its sum overflows. -/
def medianEquivalentValueExact (config : HdrBucketConfig) (value : Int) : Option Int := do
  let lowest ← config.lowestEquivalentValueExact value
  let size ← config.sizeOfEquivalentValueRangeExact value
  exact64 (lowest + (size >>> 1))

/-- The values that are derived from one are computed without overflow. -/
structure EquivalentsExact (config : HdrBucketConfig) (value : Int) : Prop where
  lowest : config.lowestEquivalentValueExact value = some (config.lowestEquivalentValue value)
  next : config.nextNonEquivalentValueExact value = some (config.nextNonEquivalentValue value)
  highest : config.highestEquivalentValueExact value = some (config.highestEquivalentValue value)
  median : config.medianEquivalentValueExact value = some (config.medianEquivalentValue value)

/-- Where the last cell of an `int64_t` begins. -/
def lastCell (config : HdrBucketConfig) : Int :=
  2 ^ 63 - 2 ^ (62 - config.subBucketHalfCountMagnitude.toNat)

section

variable {config : HdrBucketConfig} {half unit buckets : Nat}

/-- The cell of a value ends within an `int64_t` exactly if it is not the last one. -/
theorem Shape.lower_cell_succ_lt_iff (shape : config.Shape half unit buckets) {value : Nat} :
    LogLinear.lower half unit (LogLinear.cell half unit value + 1) < 2 ^ 63 ↔
      (value : Int) < config.lastCell := by
  have bounded := shape.unit_add_half_le
  have positive : 0 < 2 ^ half := Nat.two_pow_pos half
  have narrow : 2 ^ (62 - half) ≤ 2 ^ 62 := Nat.pow_le_pow_right Nat.two_pos (by omega)
  obtain ⟨tiers, tiers_eq⟩ : ∃ tiers, tiers = 63 - (unit + half) := ⟨_, rfl⟩
  obtain ⟨last, last_eq⟩ : ∃ last, last + 1 = (tiers + 1) * 2 ^ half :=
    ⟨(tiers + 1) * 2 ^ half - 1, Nat.sub_add_cancel (Nat.mul_pos (Nat.succ_pos _) positive)⟩
  have top : LogLinear.lower half unit (last + 1) = 2 ^ 63 := by
    rw [last_eq, LogLinear.lower_tiers]
    congr 1
    omega
  have last_div : last / 2 ^ half = tiers := by
    refine Nat.div_eq_of_lt_le ?_ ?_
    · rw [Nat.succ_mul] at last_eq
      omega
    · omega
  have last_width : LogLinear.width half unit last = 2 ^ (62 - half) := by
    unfold LogLinear.width LogLinear.tier
    rw [last_div]
    congr 1
    omega
  have split := @LogLinear.lower_succ half unit last
  have begins : LogLinear.lower half unit last = 2 ^ 63 - 2 ^ (62 - half) := by
    rw [top, last_width] at split
    omega
  rw [← top, LogLinear.lower_strictMono.lt_iff_lt, Nat.add_lt_add_iff_right,
    LogLinear.cell_lt_iff, begins, lastCell, shape.subBucketHalfCountMagnitude,
    Int.toNat_natCast]
  have narrowed : ((2 ^ (62 - half) : Nat) : Int) = 2 ^ (62 - half) := by
    push_cast
    rfl
  omega

theorem Shape.lowestEquivalentValueExact_natCast (shape : config.Shape half unit buckets)
    {value : Nat} (short : value < 2 ^ 63) :
    config.lowestEquivalentValueExact value =
      some (LogLinear.lower half unit (LogLinear.cell half unit value) : Int) := by
  have below := (LogLinear.lower_cell_le half unit value).trans_lt short
  have amount : ((LogLinear.exponent half unit value : Int) + unit).toNat =
      unit + LogLinear.exponent half unit value := by omega
  rw [LogLinear.lower_cell] at below ⊢
  simp only [lowestEquivalentValueExact]
  rw [shape.getSubBucketIndex_natCast short, shape.getBucketIndex_natCast short,
    shape.unitMagnitude, amount, ← exact64_natCast below, Nat.cast_mul, Nat.cast_pow,
    Nat.cast_ofNat]

theorem Shape.sizeOfEquivalentValueRangeExact_natCast (shape : config.Shape half unit buckets)
    {value : Nat} (short : value < 2 ^ 63) :
    config.sizeOfEquivalentValueRangeExact value =
      some (LogLinear.width half unit (LogLinear.cell half unit value) : Int) := by
  have shift_le := shape.shift_le short
  have small := LogLinear.value_div_lt half unit value
  have notBeyond : ¬((2 ^ (half + 1) : Nat) : Int) ≤
      (value / 2 ^ (unit + LogLinear.exponent half unit value) : Nat) := by omega
  have size_lt : 2 ^ (unit + LogLinear.exponent half unit value) < 2 ^ 63 :=
    Nat.pow_lt_pow_right one_lt_two (by omega)
  simp only [sizeOfEquivalentValueRangeExact]
  rw [shape.getSubBucketIndex_natCast short, shape.getBucketIndex_natCast short,
    shape.subBucketCount, if_neg notBeyond, shape.unitMagnitude, LogLinear.width_cell,
    ← Int.natCast_add, Int.toNat_natCast, ← exact64_natCast size_lt, Int.one_mul, Nat.cast_pow,
    Nat.cast_ofNat]

/-- Where the next value is in range, it is the lower bound of the next cell. -/
theorem Shape.nextNonEquivalentValueExact_natCast (shape : config.Shape half unit buckets)
    {value : Nat} (short : value < 2 ^ 63) :
    config.nextNonEquivalentValueExact value =
      exact64 (LogLinear.lower half unit (LogLinear.cell half unit value + 1) : Nat) := by
  unfold nextNonEquivalentValueExact
  rw [shape.lowestEquivalentValueExact_natCast short,
    shape.sizeOfEquivalentValueRangeExact_natCast short, LogLinear.lower_succ, Nat.cast_add,
    Option.bind_eq_bind, Option.bind_some, Option.bind_some]

theorem Shape.medianEquivalentValueExact_natCast (shape : config.Shape half unit buckets)
    {value : Nat} (short : value < 2 ^ 63) :
    config.medianEquivalentValueExact value = some (config.medianEquivalentValue value) := by
  have ends := shape.lower_cell_succ_le short
  have positive : 0 < LogLinear.width half unit (LogLinear.cell half unit value) :=
    LogLinear.width_pos _
  rw [LogLinear.lower_succ] at ends
  unfold medianEquivalentValueExact medianEquivalentValue
  rw [shape.lowestEquivalentValueExact_natCast short,
    shape.sizeOfEquivalentValueRangeExact_natCast short,
    shape.lowestEquivalentValue_natCast short, shape.sizeOfEquivalentValueRange_natCast short]
  have halved : (LogLinear.width half unit (LogLinear.cell half unit value) : Int) >>> 1 =
      (LogLinear.width half unit (LogLinear.cell half unit value) / 2 : Nat) :=
    shiftRight_natCast _ 1
  rw [Option.bind_eq_bind, Option.bind_some, Option.bind_some, halved,
    int64_eq (by omega) (by omega), exact64_of_inRange (by omega) (by omega)]

theorem Shape.equivalentsExact_iff (shape : config.Shape half unit buckets) {value : Nat}
    (short : value < 2 ^ 63) :
    config.EquivalentsExact value ↔ (value : Int) < config.lastCell := by
  have next_exact := shape.nextNonEquivalentValueExact_natCast short
  have next_eq : config.nextNonEquivalentValue value =
      int64 (LogLinear.lower half unit (LogLinear.cell half unit value + 1) : Nat) := by
    unfold nextNonEquivalentValue
    rw [shape.lowestEquivalentValue_natCast short, shape.sizeOfEquivalentValueRange_natCast short,
      LogLinear.lower_succ, Nat.cast_add]
  rw [← shape.lower_cell_succ_lt_iff]
  generalize LogLinear.lower half unit (LogLinear.cell half unit value + 1) = bound at *
  constructor
  · intro exact
    by_contra large
    have overflows := exact.next
    rw [next_exact, exact64_large (by omega)] at overflows
    cases overflows
  · intro within
    rw [exact64_natCast within] at next_exact
    rw [int64_natCast within] at next_eq
    refine ⟨?_, ?_, ?_, shape.medianEquivalentValueExact_natCast short⟩
    · rw [shape.lowestEquivalentValueExact_natCast short,
        shape.lowestEquivalentValue_natCast short]
    · rw [next_exact, next_eq]
    · unfold highestEquivalentValueExact highestEquivalentValue
      rw [next_exact, next_eq, int64_eq (by omega) (by omega)]
      exact exact64_of_inRange (by omega) (by omega)

end

end HdrBucketConfig

/-- `max`, as far as it does not overflow. -/
def HdrHistogram.maxExact (histogram : HdrHistogram) : Option Int :=
  if histogram.maxValue = 0 then some 0
  else histogram.config.highestEquivalentValueExact histogram.maxValue

/--
The values derived from accepted ones, and the greatest value, are computed without
overflow exactly if nothing is accepted that lies in the last cell of an `int64_t`.
-/
theorem run_equivalentsExact_iff {lowest highest : Int64} {figures : Int32}
    {config : HdrBucketConfig}
    (created : HdrBucketConfig.create lowest highest figures = some (.ok config))
    (ops : List Op) :
    ((∀ entry ∈ config.accepted ops, config.EquivalentsExact entry.value) ∧
        ((HdrHistogram.create config).run ops).maxExact =
          some ((HdrHistogram.create config).run ops).max) ↔
      ∀ entry ∈ config.accepted ops, entry.value < config.lastCell := by
  rcases HdrBucketConfig.create_shape created with ⟨half, unit, buckets, shape⟩
  have tracks := tracks_run shape ops
  generalize (HdrHistogram.create config).run ops = histogram at *
  generalize config.accepted ops = recorded at *
  have each : ∀ entry ∈ recorded,
      config.EquivalentsExact entry.value ↔ entry.value < config.lastCell := by
    intro entry member
    rcases tracks.accepted entry member with ⟨accepts, bounded⟩
    unfold int64Max at bounded
    lift entry.value to Nat using accepts.1 with value
    exact shape.equivalentsExact_iff (by omega)
  constructor
  · rintro ⟨exact, -⟩ entry member
    exact (each entry member).mp (exact entry member)
  · intro within
    refine ⟨fun entry member => (each entry member).mpr (within entry member), ?_⟩
    unfold HdrHistogram.maxExact HdrHistogram.max
    rcases tracks.greatestRecorded with unset | ⟨entry, member, entry_eq⟩
    · rw [if_pos unset, if_pos unset]
    · have exact := (each entry member).mpr (within entry member)
      rw [tracks.configured, ← entry_eq, exact.highest]
      split <;> rfl

theorem run_equivalentsExact_iff_hour :
    ∃ config, HdrBucketConfig.create 1 3600000000 3 = some (.ok config) ∧
      ((HdrHistogram.create config).run [.recordValue 3600000000]).maxExact =
        some ((HdrHistogram.create config).run [.recordValue 3600000000]).max := by
  have created : HdrBucketConfig.create 1 3600000000 3 =
      some (.ok ⟨1, 3600000000, 3, 0, 10, 2048, 1024, 2047, 22, 23552⟩) := by
    decide +kernel
  exact ⟨_, created, ((run_equivalentsExact_iff created _).mpr (by decide +kernel)).2⟩

/-- The value next to the last cell is one too large for an `int64_t`. -/
theorem next_of_int64Max_overflows :
    ∃ config, HdrBucketConfig.create 1 9223372036854775807 1 = some (.ok config) ∧
      config.accepted [.recordValue 9223372036854775807] = [⟨9223372036854775807, 1⟩] ∧
      config.nextNonEquivalentValueExact 9223372036854775807 = none ∧
      ¬config.EquivalentsExact 9223372036854775807 ∧
      ((HdrHistogram.create config).run [.recordValue 9223372036854775807]).maxExact = none := by
  have created : HdrBucketConfig.create 1 9223372036854775807 1 =
      some (.ok ⟨1, 9223372036854775807, 1, 0, 4, 32, 16, 31, 59, 960⟩) := by
    decide +kernel
  have overflows : HdrBucketConfig.nextNonEquivalentValueExact
      ⟨1, 9223372036854775807, 1, 0, 4, 32, 16, 31, 59, 960⟩ 9223372036854775807 = none := by
    decide +kernel
  refine ⟨_, created, by decide +kernel, overflows, ?_, by decide +kernel⟩
  intro exact
  have computed := exact.next
  rw [overflows] at computed
  cases computed

end ReactiveToolbox.Hdr
