import Mathlib.Algebra.Group.Int.Defs
import Mathlib.Data.Int.Init

/-!
# Signed arithmetic that is undefined on overflow

A value of a signed type is undefined once an operation that it was computed by
has left the range of the type, or has divided by zero.  Where every intermediate
result stays in range, the operations are those of the integers, with division
towards zero.
-/

namespace ReactiveToolbox.Lib

/-- The range of a signed type of so many bits. -/
abbrev InRange (bits : Nat) (value : ℤ) : Prop :=
  -2 ^ (bits - 1) ≤ value ∧ value < 2 ^ (bits - 1)

/-- A value of a signed type, or none where it is undefined. -/
structure CheckedInt (bits : Nat) where
  value? : Option ℤ
  deriving DecidableEq

namespace CheckedInt

variable {bits : Nat}

/-- The result of an operation, undefined when it is out of range. -/
def num (bits : Nat) (value : ℤ) : CheckedInt bits :=
  if InRange bits value then ⟨some value⟩ else ⟨none⟩

/-- An overflow. -/
def undefined : CheckedInt bits :=
  ⟨none⟩

/-- An operation on two integers, undefined where one of them is. -/
def lift₂ (operation : ℤ → ℤ → CheckedInt bits) (left right : CheckedInt bits) :
    CheckedInt bits :=
  match left.value?, right.value? with
  | some left, some right => operation left right
  | _, _ => undefined

instance (literal : Nat) : OfNat (CheckedInt bits) literal where
  ofNat := num bits (OfNat.ofNat literal)

instance : Add (CheckedInt bits) where
  add := lift₂ fun left right => num bits (left + right)

instance : Sub (CheckedInt bits) where
  sub := lift₂ fun left right => num bits (left - right)

instance : Mul (CheckedInt bits) where
  mul := lift₂ fun left right => num bits (left * right)

instance : Div (CheckedInt bits) where
  div := lift₂ fun left right =>
    if right = 0 then undefined else num bits (left.tdiv right)

/-- The remainder is undefined where the quotient is. -/
instance : Mod (CheckedInt bits) where
  mod := lift₂ fun left right =>
    if right = 0 then undefined
    else if InRange bits (left.tdiv right) then num bits (left.tmod right)
    else undefined

/-- The conversion to a type of at least as many bits. -/
def widen (wide : Nat) (number : CheckedInt bits) : CheckedInt wide :=
  ⟨number.value?⟩

/-! ## Operations in range -/

variable {left right value : ℤ}

/-- A value within the range is held as it is. -/
theorem value?_num (within : InRange bits value) : (num bits value).value? = some value := by
  rw [num, if_pos within]

theorem value?_num_of_not (without : ¬ InRange bits value) : (num bits value).value? = none := by
  rw [num, if_neg without]

/-- A value beyond the range is an overflow. -/
theorem num_of_not (without : ¬ InRange bits value) : num bits value = undefined := by
  rw [num, if_neg without]
  rfl

theorem num_eq_some_iff : num bits value = ⟨some value⟩ ↔ InRange bits value := by
  constructor
  · intro same
    by_cases within : InRange bits value
    · exact within
    · rw [num_of_not within] at same
      cases same
  · intro within
    rw [num, if_pos within]

/-- Two values of which one is within the range are the same if they are held the same. -/
theorem num_inj (within : InRange bits left) (same : num bits left = num bits right) :
    left = right := by
  have values := congrArg value? same
  rw [value?_num within] at values
  by_cases other : InRange bits right
  · rw [value?_num other] at values
    exact Option.some.inj values
  · rw [value?_num_of_not other] at values
    cases values

/-- An operation on two values within the range is that on the integers. -/
theorem lift₂_num (operation : ℤ → ℤ → CheckedInt bits) (left_within : InRange bits left)
    (right_within : InRange bits right) :
    lift₂ operation (num bits left) (num bits right) = operation left right := by
  rw [lift₂, value?_num left_within, value?_num right_within]

theorem ofNat_eq_num (literal : Nat) :
    (OfNat.ofNat literal : CheckedInt bits) = num bits (OfNat.ofNat literal) :=
  rfl

theorem num_add (left_within : InRange bits left) (right_within : InRange bits right) :
    num bits left + num bits right = num bits (left + right) :=
  lift₂_num _ left_within right_within

theorem num_sub (left_within : InRange bits left) (right_within : InRange bits right) :
    num bits left - num bits right = num bits (left - right) :=
  lift₂_num _ left_within right_within

theorem num_mul (left_within : InRange bits left) (right_within : InRange bits right) :
    num bits left * num bits right = num bits (left * right) :=
  lift₂_num _ left_within right_within

/-- Division rounds towards zero. -/
theorem num_div (left_within : InRange bits left) (right_within : InRange bits right)
    (nonzero : right ≠ 0) : num bits left / num bits right = num bits (left.tdiv right) := by
  have lifted := lift₂_num
    (fun left right => if right = 0 then undefined else num bits (left.tdiv right))
    left_within right_within
  rw [if_neg nonzero] at lifted
  exact lifted

/-- Division of what is not negative rounds down. -/
theorem num_div_of_nonneg (left_within : InRange bits left) (right_within : InRange bits right)
    (nonneg : 0 ≤ left) (positive : 0 < right) :
    num bits left / num bits right = num bits (left / right) := by
  rw [num_div left_within right_within (by omega), Int.tdiv_eq_ediv_of_nonneg nonneg]

/-- The remainder is defined where the quotient is. -/
theorem num_mod (left_within : InRange bits left) (right_within : InRange bits right)
    (nonzero : right ≠ 0) (quotient : InRange bits (left.tdiv right)) :
    num bits left % num bits right = num bits (left.tmod right) := by
  have lifted := lift₂_num
    (fun left right =>
      if right = 0 then undefined
      else if InRange bits (left.tdiv right) then num bits (left.tmod right)
      else undefined)
    left_within right_within
  rw [if_neg nonzero, if_pos quotient] at lifted
  exact lifted

/-- The remainder of what is not negative is that of the division that rounds down. -/
theorem num_mod_of_nonneg (left_within : InRange bits left) (right_within : InRange bits right)
    (nonneg : 0 ≤ left) (positive : 0 < right) :
    num bits left % num bits right = num bits (left % right) := by
  have quotient : left / right ≤ left := Int.ediv_le_self right nonneg
  have nonneg_quotient : 0 ≤ left / right := Int.ediv_nonneg nonneg (by omega)
  rw [num_mod left_within right_within (by omega), Int.tmod_eq_emod_of_nonneg nonneg]
  rw [Int.tdiv_eq_ediv_of_nonneg nonneg]
  exact ⟨by omega, by omega⟩

/-- A value that fits both types is kept. -/
theorem widen_num {wide : Nat} (within : InRange bits value) (fits : InRange wide value) :
    (num bits value).widen wide = num wide value := by
  rw [widen, value?_num within, num, if_pos fits]

/-- What is undefined stays undefined. -/
theorem undefined_add (right : CheckedInt bits) : undefined + right = undefined :=
  rfl

theorem undefined_sub (right : CheckedInt bits) : undefined - right = undefined :=
  rfl

end CheckedInt

end ReactiveToolbox.Lib
