import Mathlib.Algebra.Order.Ring.Int
import Mathlib.Data.BitVec
import Mathlib.Data.Int.ModEq
import Mathlib.Data.List.TakeWhile
import ReactiveToolbox.Lib.Slice

/-!
# Numbers from strings

`ston` adds up digits in 64 unsigned bits, whatever the integer type, and negates and
narrows the sum at the end.  Each step respects congruence, so that the result is the
value of the digits modulo the values of the type.
-/

namespace ReactiveToolbox.Util

open ReactiveToolbox.Lib

/-- An integer type of the language; `bool` is read by `stob`. -/
structure IntegerType where
  width : Nat
  signed : Bool
  positive : 0 < width
  standard : width ≤ 64

namespace IntegerType

/-- The values of a type. -/
def InRange (type : IntegerType) (value : Int) : Prop :=
  if type.signed then -2 ^ (type.width - 1) ≤ value ∧ value < 2 ^ (type.width - 1)
  else 0 ≤ value ∧ value < 2 ^ type.width

/-- The conversion from `std::uint64_t`. -/
def convert (type : IntegerType) (n : BitVec 64) : Int :=
  if type.signed then (n.setWidth type.width).toInt else (n.setWidth type.width).toNat

end IntegerType

/-- `isdigit`. -/
def isdigit (c : UInt8) : Bool :=
  '0'.toUInt8 ≤ c && c ≤ '9'.toUInt8

/-- `c - '0'`, added in 64 bits. -/
def digit (c : UInt8) : BitVec 64 :=
  BitVec.ofNat 64 c.toNat - BitVec.ofNat 64 '0'.toNat

/-- The loop of `ston` from a position on, where it has read a digit before. -/
def stonLoop (sv : Slice UInt8) (it : Nat) (n : BitVec 64) : Option (BitVec 64) :=
  if it = sv.size then some n
  else
    match access : sv.read it with
    | none => none
    | some c => if isdigit c then stonLoop sv (it + 1) (n * 10 + digit c) else some n
termination_by sv.buffer.length - it
decreasing_by
  obtain ⟨inside, -⟩ := List.getElem?_eq_some_iff.mp access
  omega

/-- The digits of `ston` from a position on, the first of which is read in any case. -/
def stonDigits (sv : Slice UInt8) (it : Nat) : Option (BitVec 64) :=
  (sv.read it).bind fun c =>
    if isdigit c then stonLoop sv (it + 1) (digit c) else some 0

/-- `ston`, of an integer type. -/
def ston (type : IntegerType) (sv : Slice UInt8) : Option Int :=
  if sv.size = 0 then some 0
  else
    (sv.read 0).bind fun c =>
      if type.signed ∧ c = '-'.toUInt8 then
        if sv.size = 1 then some 0
        else (stonDigits sv 1).map fun n => type.convert (-n)
      else (stonDigits sv 0).map type.convert

/-! ## The value of a string -/

/-- The number that digits stand for. -/
def digitsValue (digits : List UInt8) : Nat :=
  digits.foldl (fun value c => value * 10 + (c.toNat - '0'.toNat)) 0

/-- The digits at the start of a string, as far as there are any. -/
def digitRun (text : List UInt8) : List UInt8 :=
  text.takeWhile isdigit

/-- The value of a string for an integer type: a minus counts for a signed one. -/
def textValue (type : IntegerType) (text : List UInt8) : Int :=
  if type.signed ∧ text.head? = some '-'.toUInt8 then -digitsValue (digitRun text.tail)
  else digitsValue (digitRun text)

/-- The digits of a number. -/
def decimal (number : Nat) : List UInt8 :=
  if number < 10 then [UInt8.ofNat ('0'.toNat + number)]
  else decimal (number / 10) ++ [UInt8.ofNat ('0'.toNat + number % 10)]

/-- `to_string`, of a value of an integer type. -/
def IntegerType.toString (_ : IntegerType) (value : Int) : List UInt8 :=
  if value < 0 then '-'.toUInt8 :: decimal value.natAbs else decimal value.natAbs

/-! ## Digits -/

variable {c : UInt8} {digits text : List UInt8} {sv : Slice UInt8} {type : IntegerType}

theorem digit_eq (isDigit : isdigit c = true) :
    digit c = BitVec.ofNat 64 (c.toNat - '0'.toNat) := by
  simp only [isdigit, Bool.and_eq_true, decide_eq_true_eq, UInt8.le_iff_toNat_le] at isDigit
  have least : '0'.toUInt8.toNat = '0'.toNat := rfl
  have small := c.toNat_lt
  rw [digit]
  bv_omega

/-- Digits that are added in 64 bits are added modulo their values. -/
theorem foldl_digit (all : ∀ c ∈ digits, isdigit c = true) (value : Nat) :
    digits.foldl (fun n c => n * 10 + digit c) (BitVec.ofNat 64 value) =
      BitVec.ofNat 64 (digits.foldl (fun value c => value * 10 + (c.toNat - '0'.toNat)) value) := by
  induction digits generalizing value with
  | nil => rfl
  | cons c rest ih =>
      obtain ⟨here, others⟩ := List.forall_mem_cons.mp all
      have next : BitVec.ofNat 64 value * 10 + digit c =
          BitVec.ofNat 64 (value * 10 + (c.toNat - '0'.toNat)) := by
        rw [digit_eq here, BitVec.ofNat_add, BitVec.ofNat_mul]
        rfl
      rw [List.foldl_cons, next, ih others, List.foldl_cons]

theorem isdigit_of_mem_digitRun (member : c ∈ digitRun text) : isdigit c = true :=
  List.mem_takeWhile_imp member

theorem digitRun_cons (isDigit : isdigit c = true) (rest : List UInt8) :
    digitRun (c :: rest) = c :: digitRun rest :=
  List.takeWhile_cons_of_pos isDigit

theorem digitRun_stop (noDigit : ¬isdigit c = true) (rest : List UInt8) :
    digitRun (c :: rest) = [] :=
  List.takeWhile_cons_of_neg noDigit

/-- The loop takes the digits up to the end of the string. -/
theorem stonLoop_eq {it : Nat} (within : it ≤ sv.size) (n : BitVec 64) :
    stonLoop sv it n =
      some ((digitRun (sv.text.drop it)).foldl (fun n c => n * 10 + digit c) n) := by
  induction left : sv.size - it generalizing it n with
  | zero =>
      have atEnd : it = sv.size := by omega
      have none : sv.text.drop it = [] := by
        rw [List.drop_eq_nil_iff, Slice.length_text]
        omega
      rw [stonLoop, if_pos atEnd, none]
      rfl
  | succ left ih =>
      obtain ⟨c, access, split⟩ := Slice.exists_read (show it < sv.size by omega)
      rw [stonLoop, if_neg (by omega), split]
      split
      · rename_i missing
        rw [access] at missing
        cases missing
      · rename_i found same
        obtain rfl := Option.some.inj (access.symm.trans same)
        by_cases isDigit : isdigit c = true
        · rw [if_pos isDigit, digitRun_cons isDigit, ih (by omega) _ (by omega), List.foldl_cons]
        · rw [if_neg isDigit, digitRun_stop isDigit]
          rfl

/-- So the digits are those of the string, modulo the values of 64 bits. -/
theorem stonDigits_eq {it : Nat} (within : it < sv.size) :
    stonDigits sv it =
      some (BitVec.ofNat 64 (digitsValue (digitRun (sv.text.drop it)))) := by
  obtain ⟨c, access, split⟩ := Slice.exists_read within
  rw [stonDigits, access, Option.bind_some, split]
  by_cases isDigit : isdigit c = true
  · have first : digit c = BitVec.ofNat 64 (0 * 10 + (c.toNat - '0'.toNat)) := by
      rw [digit_eq isDigit, Nat.zero_mul, Nat.zero_add]
    rw [if_pos isDigit, stonLoop_eq within, first, foldl_digit (fun _ => isdigit_of_mem_digitRun),
      digitsValue, digitRun_cons isDigit, List.foldl_cons]
  · rw [if_neg isDigit, digitRun_stop isDigit]
    rfl

/-! ## Conversions -/

namespace IntegerType

theorem convert_inRange (type : IntegerType) (n : BitVec 64) : type.InRange (type.convert n) := by
  have positive := type.positive
  unfold InRange convert
  split
  · exact ⟨BitVec.le_toInt _, BitVec.toInt_lt⟩
  · exact ⟨Int.natCast_nonneg _, by exact_mod_cast (n.setWidth type.width).isLt⟩

theorem zero_inRange (type : IntegerType) : type.InRange 0 := by
  have half : (0 : Int) < 2 ^ (type.width - 1) := pow_pos (by decide) _
  have all : (0 : Int) < 2 ^ type.width := pow_pos (by decide) _
  unfold InRange
  split
  · exact ⟨by omega, half⟩
  · exact ⟨le_refl _, all⟩

/-- A conversion keeps a number modulo the values of the type. -/
theorem convert_modEq (type : IntegerType) (n : BitVec 64) :
    type.convert n ≡ n.toNat [ZMOD 2 ^ type.width] := by
  have narrowed : ((n.setWidth type.width).toNat : Int) ≡ n.toNat [ZMOD 2 ^ type.width] := by
    rw [BitVec.toNat_setWidth]
    push_cast
    exact Int.mod_modEq _ _
  unfold convert
  split
  · refine Int.ModEq.trans ?_ narrowed
    rw [BitVec.toInt_eq_toNat_bmod]
    exact Int.bmod_emod
  · exact narrowed

/-- The values of a type are apart modulo their number. -/
theorem InRange.unique {first second : Int} (firstIn : type.InRange first)
    (secondIn : type.InRange second) (same : first ≡ second [ZMOD 2 ^ type.width]) :
    first = second := by
  have positive := type.positive
  have twice : (2 : Int) ^ type.width = 2 * 2 ^ (type.width - 1) := by
    rw [← Int.pow_succ', Nat.sub_add_cancel positive]
  have near : |second - first| < 2 ^ type.width := by
    unfold InRange at firstIn secondIn
    rw [abs_lt]
    split at firstIn
    · rename_i signed
      rw [if_pos signed] at secondIn
      omega
    · rename_i unsigned
      rw [if_neg unsigned] at secondIn
      omega
  exact (Int.sub_eq_zero.mp (Int.eq_zero_of_abs_lt_dvd same.dvd near)).symm

end IntegerType

theorem toNat_ofNat_modEq (type : IntegerType) (value : Nat) :
    ((BitVec.ofNat 64 value).toNat : Int) ≡ value [ZMOD 2 ^ type.width] := by
  have divides : (2 : Int) ^ type.width ∣ 2 ^ 64 := pow_dvd_pow 2 type.standard
  rw [BitVec.toNat_ofNat]
  push_cast
  exact (Int.mod_modEq _ _).of_dvd divides

theorem toNat_neg_modEq (type : IntegerType) (n : BitVec 64) :
    ((-n).toNat : Int) ≡ -n.toNat [ZMOD 2 ^ type.width] := by
  have divides : (2 : Int) ^ type.width ∣ 2 ^ 64 := pow_dvd_pow 2 type.standard
  have small := n.isLt
  have whole : ((-n).toNat : Int) ≡ -n.toNat [ZMOD 2 ^ 64] := by
    rw [BitVec.toNat_neg, Int.natCast_emod, Int.natCast_sub small.le]
    refine (Int.mod_modEq _ _).trans ?_
    push_cast
    rw [Int.modEq_iff_dvd]
    exact ⟨-1, by omega⟩
  exact whole.of_dvd divides

/-! ## Every string -/

theorem convert_ofNat_modEq (type : IntegerType) (value : Nat) :
    type.convert (BitVec.ofNat 64 value) ≡ value [ZMOD 2 ^ type.width] :=
  (type.convert_modEq _).trans (toNat_ofNat_modEq type value)

theorem convert_neg_modEq (type : IntegerType) (value : Nat) :
    type.convert (-BitVec.ofNat 64 value) ≡ -value [ZMOD 2 ^ type.width] :=
  ((type.convert_modEq _).trans (toNat_neg_modEq type _)).trans (toNat_ofNat_modEq type value).neg

theorem size_of_text (is_text : sv.text = text) : sv.size = text.length := by
  rw [← is_text, Slice.length_text]

/--
Whatever encloses a string, its result is a value of the type and congruent to the
number that the string begins with.
-/
theorem ston_modEq (type : IntegerType) (text : List UInt8) :
    ∃ result, (∀ sv : Slice UInt8, sv.text = text → ston type sv = some result) ∧
      type.InRange result ∧ result ≡ textValue type text [ZMOD 2 ^ type.width] := by
  cases text with
  | nil =>
      refine ⟨0, fun sv is_text => ?_, type.zero_inRange, ?_⟩
      · have empty : sv.size = 0 := size_of_text is_text
        rw [ston, if_pos empty]
      · rw [textValue, if_neg (fun minus => nomatch minus.2)]
        rfl
  | cons c rest =>
      have begins : ∀ sv : Slice UInt8, sv.text = c :: rest →
          sv.size = rest.length + 1 ∧ sv.read 0 = some c := by
        intro sv is_text
        have size := size_of_text is_text
        refine ⟨size, ?_⟩
        rw [Slice.read_of_lt (by rw [size]; exact Nat.succ_pos _), is_text]
        rfl
      by_cases minus : type.signed ∧ c = '-'.toUInt8
      · have value : textValue type (c :: rest) = -digitsValue (digitRun rest) := by
          rw [textValue, List.head?_cons, if_pos ⟨minus.1, congrArg some minus.2⟩, List.tail_cons]
        rw [value]
        cases rest with
        | nil =>
            refine ⟨0, fun sv is_text => ?_, type.zero_inRange, Int.ModEq.refl _⟩
            obtain ⟨size, access⟩ := begins sv is_text
            have single : sv.size = 1 := size
            rw [ston, if_neg (by omega), access, Option.bind_some, if_pos minus, if_pos single]
        | cons next others =>
            refine ⟨_, fun sv is_text => ?_, type.convert_inRange _, convert_neg_modEq type _⟩
            obtain ⟨size, access⟩ := begins sv is_text
            rw [List.length_cons] at size
            rw [ston, if_neg (by omega), access, Option.bind_some, if_pos minus,
              if_neg (by omega), stonDigits_eq (by omega), is_text]
            rfl
      · have value : textValue type (c :: rest) = digitsValue (digitRun (c :: rest)) := by
          rw [textValue, if_neg]
          rintro ⟨signed, head⟩
          exact minus ⟨signed, Option.some.inj head⟩
        rw [value]
        refine ⟨_, fun sv is_text => ?_, type.convert_inRange _, convert_ofNat_modEq type _⟩
        obtain ⟨size, access⟩ := begins sv is_text
        rw [ston, if_neg (by omega), access, Option.bind_some, if_neg minus,
          stonDigits_eq (by omega), is_text]
        rfl

/-! ## Numbers that are written and read -/

theorem decimalDigit {number : Nat} (small : number < 10) :
    isdigit (UInt8.ofNat ('0'.toNat + number)) = true ∧
      (UInt8.ofNat ('0'.toNat + number)).toNat - '0'.toNat = number := by
  have each : ∀ number : Fin 10, isdigit (UInt8.ofNat ('0'.toNat + number.val)) = true ∧
      (UInt8.ofNat ('0'.toNat + number.val)).toNat - '0'.toNat = number.val := by
    decide
  exact each ⟨number, small⟩

theorem digitsValue_append_singleton (digits : List UInt8) (c : UInt8) :
    digitsValue (digits ++ [c]) = digitsValue digits * 10 + (c.toNat - '0'.toNat) := by
  rw [digitsValue, List.foldl_append]
  rfl

/-- A number is written in digits whose value it is. -/
theorem decimal_spec (number : Nat) :
    (∀ c ∈ decimal number, isdigit c = true) ∧ digitsValue (decimal number) = number := by
  fun_induction decimal number with
  | case1 number small =>
      obtain ⟨isDigit, value⟩ := decimalDigit small
      refine ⟨List.forall_mem_singleton.mpr isDigit, ?_⟩
      rw [digitsValue, List.foldl_cons, List.foldl_nil, value, Nat.zero_mul, Nat.zero_add]
  | case2 number large ih =>
      obtain ⟨isDigit, value⟩ := decimalDigit (Nat.mod_lt number (show 0 < 10 by decide))
      obtain ⟨digits, early⟩ := ih
      refine ⟨?_, ?_⟩
      · rw [List.forall_mem_append]
        exact ⟨digits, List.forall_mem_singleton.mpr isDigit⟩
      · rw [digitsValue_append_singleton, early, value]
        omega

theorem digitRun_decimal (number : Nat) : digitRun (decimal number) = decimal number :=
  List.takeWhile_eq_self_iff.mpr (decimal_spec number).1

theorem head?_decimal (number : Nat) : (decimal number).head? ≠ some '-'.toUInt8 := by
  intro head
  have isDigit := (decimal_spec number).1 _ (List.mem_of_head? head)
  exact absurd isDigit (by decide)

/-- Every value of a type is the value of the string that it is written as. -/
theorem textValue_toString {value : Int} (inRange : type.InRange value) :
    textValue type (type.toString value) = value := by
  have natural := (decimal_spec value.natAbs).2
  by_cases negative : value < 0
  · have signed : type.signed = true := by
      by_contra unsigned
      rw [IntegerType.InRange, if_neg unsigned] at inRange
      omega
    rw [IntegerType.toString, if_pos negative, textValue, List.head?_cons, if_pos ⟨signed, rfl⟩,
      List.tail_cons, digitRun_decimal, natural]
    omega
  · rw [IntegerType.toString, if_neg negative, textValue,
      if_neg (fun minus => head?_decimal _ minus.2), digitRun_decimal, natural]
    omega

/--
For every integer type, a string gives the number that it begins with, modulo the
values of the type and without an access beyond it, and every value of the type is
read back from the string that it is written as.
-/
theorem ston_spec (type : IntegerType) :
    (∀ text : List UInt8, ∃ result,
      (∀ sv : Slice UInt8, sv.text = text → ston type sv = some result) ∧
        type.InRange result ∧ result ≡ textValue type text [ZMOD 2 ^ type.width]) ∧
    ∀ value, type.InRange value →
      ∀ sv : Slice UInt8, sv.text = type.toString value → ston type sv = some value := by
  refine ⟨ston_modEq type, fun value inRange sv is_text => ?_⟩
  obtain ⟨result, same, resultIn, congruent⟩ := ston_modEq type (type.toString value)
  rw [textValue_toString inRange] at congruent
  rw [same sv is_text, resultIn.unique inRange congruent]

/-- The least value of eight signed bits. -/
example : ston ⟨8, true, by decide, by decide⟩ (.alone [45, 49, 50, 56]) = some (-128) := by
  decide +kernel

end ReactiveToolbox.Util
