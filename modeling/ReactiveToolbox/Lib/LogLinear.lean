import Mathlib.Data.Nat.Log
import Mathlib.Order.GaloisConnection.Basic
import Mathlib.Order.Monotone.Basic
import Mathlib.Tactic.Ring

/-!
# Log-linear scales

The naturals cut into cells.  The first `2 ^ (half + 1)` cells have width
`2 ^ unit`; every further `2 ^ half` cells are twice as wide as the ones before.
The cell of a value is the last one whose lower bound does not exceed it, so that
lower bounds and cells form a Galois connection, and a cell above the first tier
is narrower than its values by the factor `2 ^ half`.
-/

namespace ReactiveToolbox.Lib.LogLinear

section

variable (half unit : Nat)

/-- How often the width has doubled at a value. -/
def exponent (value : Nat) : Nat :=
  Nat.log 2 value - (unit + half)

/-- The cell of a value. -/
def cell (value : Nat) : Nat :=
  exponent half unit value * 2 ^ half + value / 2 ^ (unit + exponent half unit value)

/-- How often the width has doubled at a cell. -/
def tier (index : Nat) : Nat :=
  index / 2 ^ half - 1

/-- The least value of a cell. -/
def lower (index : Nat) : Nat :=
  (index - tier half index * 2 ^ half) * 2 ^ (unit + tier half index)

/-- The number of values of a cell. -/
def width (index : Nat) : Nat :=
  2 ^ (unit + tier half index)

end

variable {half unit : Nat}

/-! ## Bounds of the cells -/

theorem tier_mul_le (half index : Nat) : tier half index * 2 ^ half ≤ index :=
  calc tier half index * 2 ^ half
      ≤ index / 2 ^ half * 2 ^ half := Nat.mul_le_mul_right _ (Nat.sub_le _ 1)
    _ ≤ index := Nat.div_mul_le_self index (2 ^ half)

/-- Inside a tier the next cell begins one width further. -/
theorem lower_succ (index : Nat) :
    lower half unit (index + 1) = lower half unit index + width half unit index := by
  have positive : 0 < 2 ^ half := Nat.two_pow_pos half
  have within := tier_mul_le half index
  by_cases same : (index + 1) / 2 ^ half = index / 2 ^ half
  · have sameTier : tier half (index + 1) = tier half index := by
      unfold tier
      rw [same]
    simp only [lower, width, sameTier]
    rw [Nat.succ_sub within, Nat.succ_mul]
  · -- The cell is the last of its tier: the next tier begins with half as many steps.
    have division : (index + 1) / 2 ^ half =
        index / 2 ^ half + if 2 ^ half ∣ index + 1 then 1 else 0 := Nat.succ_div
    have divides : 2 ^ half ∣ index + 1 := by
      by_contra notDivides
      rw [if_neg notDivides, Nat.add_zero] at division
      exact same division
    rw [if_pos divides] at division
    have whole : index + 1 = (index / 2 ^ half + 1) * 2 ^ half := by
      rw [← division, Nat.div_mul_cancel divides]
    unfold lower width tier
    rw [division, Nat.add_sub_cancel]
    cases quotient : index / 2 ^ half with
    | zero =>
        rw [quotient] at whole
        have last : index = 2 ^ half - 1 := by omega
        simp only [Nat.zero_sub, Nat.zero_mul, Nat.sub_zero, Nat.add_zero]
        rw [Nat.succ_mul]
    | succ before =>
        rw [quotient] at whole
        simp only [Nat.add_sub_cancel]
        have steps : index + 1 - (before + 1) * 2 ^ half = 2 ^ half := by
          rw [whole, Nat.succ_mul (before + 1), Nat.add_sub_cancel_left]
        have stepsBefore : index - before * 2 ^ half + 1 = 2 * 2 ^ half := by
          have spread : (before + 1 + 1) * 2 ^ half = before * 2 ^ half + 2 * 2 ^ half := by ring
          omega
        rw [steps, ← Nat.succ_mul, Nat.succ_eq_add_one, stepsBefore]
        ring

theorem width_pos (index : Nat) : 0 < width half unit index :=
  Nat.two_pow_pos _

/-- The cells follow one another. -/
theorem lower_strictMono : StrictMono (lower half unit) := by
  refine strictMono_nat_of_lt_succ fun index => ?_
  rw [lower_succ]
  exact Nat.lt_add_of_pos_right (width_pos index)

/-- The lower bound of the cell behind all those of `tiers` doublings. -/
theorem lower_tiers (tiers : Nat) :
    lower half unit ((tiers + 1) * 2 ^ half) = 2 ^ (unit + half + tiers) := by
  have tier_eq : tier half ((tiers + 1) * 2 ^ half) = tiers := by
    unfold tier
    rw [Nat.mul_div_cancel _ (Nat.two_pow_pos half), Nat.add_sub_cancel]
  unfold lower
  rw [tier_eq, Nat.succ_mul, Nat.add_sub_cancel_left]
  ring

/-! ## The cell of a value -/

theorem value_div_lt (half unit value : Nat) :
    value / 2 ^ (unit + exponent half unit value) < 2 ^ (half + 1) := by
  rw [Nat.div_lt_iff_lt_mul (Nat.two_pow_pos _), ← Nat.pow_add]
  have bound : value < 2 ^ (Nat.log 2 value + 1) := Nat.lt_pow_succ_log_self one_lt_two value
  refine bound.trans_le (Nat.pow_le_pow_right Nat.two_pos ?_)
  unfold exponent
  omega

theorem le_value_div {value : Nat} (above : 0 < exponent half unit value) :
    2 ^ half ≤ value / 2 ^ (unit + exponent half unit value) := by
  rw [Nat.le_div_iff_mul_le (Nat.two_pow_pos _), ← Nat.pow_add]
  have log_eq : half + (unit + exponent half unit value) = Nat.log 2 value := by
    unfold exponent at above ⊢
    omega
  have nonzero : value ≠ 0 := by
    rintro rfl
    simp [exponent] at above
  rw [log_eq]
  exact Nat.pow_log_le_self 2 nonzero

theorem tier_cell (value : Nat) :
    tier half (cell half unit value) = exponent half unit value := by
  have positive : 0 < 2 ^ half := Nat.two_pow_pos half
  have small := value_div_lt half unit value
  unfold tier cell
  rw [Nat.mul_comm, Nat.mul_add_div positive]
  rcases Nat.eq_zero_or_pos (exponent half unit value) with first | above
  · rw [first] at small ⊢
    have below := (Nat.div_lt_iff_lt_mul positive).mpr
      (small.trans_eq (by rw [Nat.pow_succ, Nat.mul_comm]))
    omega
  · have large := le_value_div above
    have one : value / 2 ^ (unit + exponent half unit value) / 2 ^ half = 1 := by
      refine Nat.div_eq_of_lt_le ?_ ?_
      · rwa [Nat.one_mul]
      · exact small.trans_eq (by rw [Nat.pow_succ, Nat.mul_comm])
    rw [one, Nat.add_sub_cancel]

/-- A cell is as wide as its power of two. -/
theorem width_cell (value : Nat) :
    width half unit (cell half unit value) = 2 ^ (unit + exponent half unit value) := by
  unfold width
  rw [tier_cell]

theorem lower_cell (value : Nat) :
    lower half unit (cell half unit value) =
      value / 2 ^ (unit + exponent half unit value) * 2 ^ (unit + exponent half unit value) := by
  unfold lower
  rw [tier_cell]
  unfold cell
  rw [Nat.add_sub_cancel_left]

/-- A value is not below its cell. -/
theorem lower_cell_le (half unit value : Nat) : lower half unit (cell half unit value) ≤ value := by
  rw [lower_cell]
  exact Nat.div_mul_le_self ..

/-- A value is below the next cell. -/
theorem lt_lower_cell_succ (half unit value : Nat) :
    value < lower half unit (cell half unit value + 1) := by
  rw [lower_succ, lower_cell, width_cell]
  exact Nat.lt_div_mul_add (Nat.two_pow_pos _)

/-- The cell of a value is the last one that does not begin above it. -/
theorem galoisConnection : GaloisConnection (lower half unit) (cell half unit) := by
  intro index value
  constructor
  · intro begins
    have below : lower half unit index < lower half unit (cell half unit value + 1) :=
      begins.trans_lt (lt_lower_cell_succ half unit value)
    exact Nat.lt_succ_iff.mp (lower_strictMono.lt_iff_lt.mp below)
  · intro reached
    exact (lower_strictMono.monotone reached).trans (lower_cell_le half unit value)

/-- A greater value is in no earlier cell. -/
theorem cell_mono : Monotone (cell half unit) :=
  galoisConnection.monotone_u

/-- The lowest value of a cell is in it. -/
theorem cell_lower (index : Nat) : cell half unit (lower half unit index) = index := by
  refine le_antisymm ?_ ((galoisConnection _ _).mp le_rfl)
  exact lower_strictMono.le_iff_le.mp (lower_cell_le half unit (lower half unit index))

/-- A value is in an earlier cell exactly if it is below the lowest value of a cell. -/
theorem cell_lt_iff {value bound : Nat} :
    cell half unit value < bound ↔ value < lower half unit bound := by
  rw [← not_le, ← not_le, not_iff_not]
  exact (galoisConnection bound value).symm

/-- Above the first tier the values of a cell are `2 ^ half` times as large as it is wide. -/
theorem width_mul_le {value : Nat} (above : 0 < exponent half unit value) :
    width half unit (cell half unit value) * 2 ^ half ≤ value := by
  rw [width_cell, Nat.mul_comm]
  exact (Nat.mul_le_mul_right _ (le_value_div above)).trans (Nat.div_mul_le_self ..)

end ReactiveToolbox.Lib.LogLinear
