import Mathlib.Data.Nat.Log
import Mathlib.Order.Bounds.Basic
import Mathlib.Tactic.NormNum

/-!
# Powers of two

The bit helpers that size the queues and ring buffers.  `next_pow2` shifts the
`int` literal `1`, so its result is a power of two only while the shift stays
below the sign bit of a 32-bit `int`.
-/

namespace ReactiveToolbox.Util

/-- `clz`: the leading zero bits of a nonzero value of the given width. -/
def clz (width value : Nat) : Nat :=
  width - (Nat.log2 value + 1)

/-- `is_pow2`: `n > 0 && (n & (n - 1)) == 0`. -/
def isPow2 (n : Nat) : Bool :=
  decide (0 < n) && decide (n &&& (n - 1) = 0)

/--
The `int` expression `1 << amount`.

The bit pattern `1 << 31` is the least `int`; a shift by 32 or more is
undefined.
-/
def shiftIntOne (amount : Nat) : Option Int :=
  if amount < 31 then some (2 ^ amount)
  else if amount = 31 then some (-2 ^ 31)
  else none

/--
`next_pow2` of an unsigned argument of the given width, converted back to that
width.  No value stands for an undefined shift.
-/
def nextPow2 (width n : Nat) : Option Nat :=
  if n ≤ 1 then some 1
  else
    (shiftIntOne (width - clz width (n - 1))).map fun shifted =>
      (shifted % 2 ^ width).toNat

/-- The number of bits below the leading zeros is the binary ceiling logarithm. -/
theorem width_sub_clz
    {width n : Nat} (two_le : 2 ≤ n) (fits : n ≤ 2 ^ width) :
    width - clz width (n - 1) = Nat.clog 2 n := by
  have nonzero : n - 1 ≠ 0 := by omega
  have logBound : Nat.log2 (n - 1) < width :=
    (Nat.log2_lt nonzero).2 (by omega)
  have below : 2 ^ Nat.log2 (n - 1) ≤ n - 1 :=
    Nat.log2_self_le nonzero
  have above : n - 1 < 2 ^ (Nat.log2 (n - 1) + 1) :=
    Nat.lt_log2_self
  have upper : Nat.clog 2 n ≤ Nat.log2 (n - 1) + 1 :=
    Nat.clog_le_of_le_pow (by omega)
  have lower : Nat.log2 (n - 1) < Nat.clog 2 n := by
    by_contra notLower
    have fitsBelow : n ≤ 2 ^ Nat.log2 (n - 1) :=
      (Nat.clog_le_iff_le_pow (by omega)).1 (by omega)
    omega
  unfold clz
  omega

/-- Up to `2 ^ 30` the code computes the least power of two above its argument. -/
theorem nextPow2_eq_clog
    {width n : Nat} (wide : 31 ≤ width) (small : n ≤ 2 ^ 30) :
    nextPow2 width n = some (2 ^ Nat.clog 2 n) := by
  rcases Nat.lt_or_ge 1 n with larger | least
  · have amount : Nat.clog 2 n ≤ 30 := Nat.clog_le_of_le_pow small
    have bound : 2 ^ Nat.clog 2 n < 2 ^ width :=
      Nat.pow_lt_pow_right (by omega) (by omega)
    have fits : n ≤ 2 ^ width :=
      small.trans (Nat.pow_le_pow_right Nat.two_pos (by omega))
    have cast : (2 : Int) ^ Nat.clog 2 n % 2 ^ width =
        ((2 ^ Nat.clog 2 n % 2 ^ width : Nat) : Int) := by
      push_cast
      rfl
    rw [nextPow2, if_neg (Nat.not_le.mpr larger), width_sub_clz larger fits, shiftIntOne,
      if_pos (Nat.lt_succ_of_le amount), Option.map_some, cast, Int.toNat_natCast,
      Nat.mod_eq_of_lt bound]
  · rw [nextPow2, if_pos least, Nat.clog_of_right_le_one least, pow_zero]

/-- With 32 bits the sign bit of the literal is the power of two that it should be. -/
theorem nextPow2_signBit
    {n : Nat} (large : 2 ^ 30 < n) (fits : n ≤ 2 ^ 31) :
    nextPow2 32 n = some (2 ^ Nat.clog 2 n) := by
  have amount : Nat.clog 2 n = 31 := by
    refine Nat.le_antisymm (Nat.clog_le_of_le_pow fits) ?_
    exact (Nat.lt_clog_iff_pow_lt (by omega)).mpr large
  rw [nextPow2, if_neg (by omega), width_sub_clz (by omega) (by omega), amount]
  rfl

/-- Past `2 ^ 30` the shifted literal is negative or undefined. -/
theorem nextPow2_large
    {n value : Nat} (large : 2 ^ 30 < n) (fits : n < 2 ^ 64)
    (computed : nextPow2 64 n = some value) :
    value = 2 ^ 64 - 2 ^ 31 := by
  have notSmall : ¬ n ≤ 1 := by omega
  have amount : 30 < Nat.clog 2 n := by
    by_contra notAbove
    have : n ≤ 2 ^ 30 := (Nat.clog_le_iff_le_pow (by omega)).1 (by omega)
    omega
  rw [nextPow2, if_neg notSmall, width_sub_clz (by omega) (by omega), shiftIntOne,
    if_neg (by omega)] at computed
  split at computed
  · simp at computed
    omega
  · simp at computed

/-! ## The overloads -/

/-- The overloads of `next_pow2`, by the type of the argument. -/
inductive Overload where
  | unsigned
  | unsignedLong
  deriving DecidableEq

/-- The bits of an overload's type. -/
def Overload.width : Overload → Nat
  | .unsigned => 32
  | .unsignedLong => 64

/-- The result is the least power of two that is not below the argument. -/
def GivesLeast (width n : Nat) : Prop :=
  ∃ value, nextPow2 width n = some value ∧ IsLeast {power | n ≤ power ∧ ∃ k, power = 2 ^ k} value

/-- The `int` literal, where it is shifted, is not shifted into its sign bit or beyond. -/
def ShiftsWithin (width n : Nat) : Prop :=
  1 < n → 2 ^ (width - clz width (n - 1)) < 2 ^ 31

theorem isLeast_clog (n : Nat) :
    IsLeast {power | n ≤ power ∧ ∃ k, power = 2 ^ k} (2 ^ Nat.clog 2 n) := by
  refine ⟨⟨Nat.le_pow_clog (by omega) n, _, rfl⟩, ?_⟩
  rintro _ ⟨above, k, rfl⟩
  exact Nat.pow_le_pow_right Nat.two_pos (Nat.clog_le_of_le_pow above)

theorem shiftsWithin_iff {width n : Nat} (fits : n ≤ 2 ^ width) :
    ShiftsWithin width n ↔ n ≤ 2 ^ 30 := by
  constructor
  · intro within
    by_contra large
    have two_le : 2 ≤ n := by omega
    have below := within two_le
    rw [width_sub_clz two_le fits, Nat.pow_lt_pow_iff_right (by omega)] at below
    exact large ((Nat.clog_le_iff_le_pow (by omega)).mp (Nat.le_of_lt_succ below))
  · intro small two_le
    rw [width_sub_clz two_le fits]
    exact Nat.pow_lt_pow_right (by omega) (Nat.lt_succ_of_le (Nat.clog_le_of_le_pow small))

/-- Only the overload for `unsigned long` goes wrong, and only past `2 ^ 30`. -/
theorem givesLeast_iff (overload : Overload) {n : Nat} (fits : n ≤ 2 ^ (overload.width - 1)) :
    GivesLeast overload.width n ↔ overload = .unsigned ∨ n ≤ 2 ^ 30 := by
  constructor
  · rintro ⟨value, computed, ⟨-, k, rfl⟩, -⟩
    cases overload with
    | unsigned => exact .inl rfl
    | unsignedLong =>
        refine .inr (Nat.le_of_not_lt fun large => ?_)
        have value := nextPow2_large large (by simp only [Overload.width] at fits; omega) computed
        have above : 2 ^ 63 < 2 ^ k := by omega
        have below : 2 ^ k < 2 ^ 64 := by omega
        rw [Nat.pow_lt_pow_iff_right (by omega)] at above below
        omega
  · intro right
    have wide : 31 ≤ overload.width := by
      cases overload <;> decide
    rcases Nat.lt_or_ge (2 ^ 30) n with large | small
    · obtain rfl := right.resolve_right (Nat.not_le.mpr large)
      exact ⟨_, nextPow2_signBit large fits, isLeast_clog n⟩
    · exact ⟨_, nextPow2_eq_clog wide small, isLeast_clog n⟩

/-- `is_pow2` decides the powers of two. -/
theorem isPow2_iff (n : Nat) : isPow2 n = true ↔ ∃ k, n = 2 ^ k := by
  simp only [isPow2, Bool.and_eq_true, decide_eq_true_eq]
  constructor
  · rintro ⟨positive, masked⟩
    exact (Nat.and_sub_one_eq_zero_iff_isPowerOfTwo positive.ne').1 masked
  · rintro ⟨k, rfl⟩
    exact ⟨Nat.two_pow_pos k, by simp⟩

end ReactiveToolbox.Util
