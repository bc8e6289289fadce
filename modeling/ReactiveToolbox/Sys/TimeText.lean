import Mathlib.Algebra.Order.Ring.Int
import Mathlib.Data.List.Induction
import ReactiveToolbox.Sys.ParseTime

/-!
# Texts of times

The texts that the documentation of `parse_time` describes, the numbers that their
digits stand for, and what the parser makes of digits.
-/

namespace ReactiveToolbox.Sys

open ReactiveToolbox.Io ReactiveToolbox.Lib ReactiveToolbox.Lib.CheckedInt

/-! ## Digits -/

/-- The number that digits stand for. -/
def number (digits : List Byte) : ℤ :=
  digits.foldl (fun n c => n * 10 + digitOf c) 0

/-- Digits only. -/
def AllDigits (text : List Byte) : Prop :=
  ∀ c ∈ text, isDigit c = true

instance (text : List Byte) : Decidable (AllDigits text) :=
  List.decidableBAll (fun c => isDigit c = true) text

theorem digitOf_bounds {c : Byte} (digit : isDigit c = true) : 0 ≤ digitOf c ∧ digitOf c ≤ 9 := by
  have bounds := digit
  simp only [isDigit, Bool.and_eq_true, decide_eq_true_eq, UInt8.le_iff_toNat_le] at bounds
  have least : '0'.toUInt8.toNat = 48 := rfl
  have most : '9'.toUInt8.toNat = 57 := rfl
  have zero : '0'.toNat = 48 := rfl
  unfold digitOf
  omega

theorem number_append_singleton (digits : List Byte) (c : Byte) :
    number (digits ++ [c]) = number digits * 10 + digitOf c := by
  rw [number, List.foldl_append]
  rfl

theorem AllDigits.of_append {first second : List Byte} (digits : AllDigits (first ++ second)) :
    AllDigits first ∧ AllDigits second :=
  List.forall_mem_append.mp digits

/-- A number of so many digits is below that power of ten. -/
theorem number_bounds {digits : List Byte} (all : AllDigits digits) :
    0 ≤ number digits ∧ number digits < 10 ^ digits.length := by
  induction digits using List.reverseRecOn with
  | nil => exact ⟨Int.le_refl 0, by decide⟩
  | append_singleton digits c continued =>
      obtain ⟨before, last⟩ := all.of_append
      have digit := digitOf_bounds (last c (List.mem_singleton.mpr rfl))
      have bounds := continued before
      rw [number_append_singleton, List.length_append, List.length_singleton, Int.pow_succ]
      omega

/-- Digits in front count by the digits that follow. -/
theorem number_append (first second : List Byte) :
    number (first ++ second) = number first * 10 ^ second.length + number second := by
  induction second using List.reverseRecOn with
  | nil => simp [number]
  | append_singleton second c continued =>
      rw [← List.append_assoc, number_append_singleton, continued, number_append_singleton,
        List.length_append, List.length_singleton, Int.pow_succ, Int.add_mul, Int.mul_assoc,
        Int.add_assoc]

/-! ## Texts -/

/-- So many digits, for a number of a range. -/
structure Field (width : Nat) (least most : ℤ) (text : List Byte) : Prop where
  length : text.length = width
  digits : AllDigits text
  least : least ≤ number text
  most : number text ≤ most

/-- `HH:MM:SS`, with a fraction if it has digits. -/
structure TimeText where
  hour : List Byte
  minute : List Byte
  second : List Byte
  fraction : List Byte
  hour_field : Field 2 0 23 hour
  minute_field : Field 2 0 59 minute
  second_field : Field 2 0 60 second
  fraction_digits : AllDigits fraction

namespace TimeText

/-- The text without the fraction. -/
def whole (time : TimeText) : List Byte :=
  time.hour ++ ':'.toUInt8 :: time.minute ++ ':'.toUInt8 :: time.second

/-- A time as it is written. -/
def text (time : TimeText) : List Byte :=
  time.whole ++ if time.fraction = [] then [] else '.'.toUInt8 :: time.fraction

/-- The seconds of a day before the time. -/
def seconds (time : TimeText) : ℤ :=
  (number time.hour * 60 + number time.minute) * 60 + number time.second

/-- The nanoseconds of a day before the time; a leap second counts as the one after it. -/
def nanos (time : TimeText) : ℤ :=
  time.seconds * 1000000000 + number time.fraction * 1000000000 / 10 ^ time.fraction.length

end TimeText

/-- `YYYYMMDD`. -/
structure DateText where
  year : List Byte
  month : List Byte
  day : List Byte
  year_field : Field 4 0 9999 year
  month_field : Field 2 1 12 month
  day_field : Field 2 1 31 day

/-- A date as it is written. -/
def DateText.text (date : DateText) : List Byte :=
  date.year ++ date.month ++ date.day

/-! ## What the parser makes of digits -/

theorem number_singleton (c : Byte) : number [c] = digitOf c :=
  Int.zero_add (digitOf c)

theorem number_cons (c : Byte) (rest : List Byte) :
    number (c :: rest) = digitOf c * 10 ^ rest.length + number rest := by
  have split := number_append [c] rest
  rw [number_singleton] at split
  exact split

theorem AllDigits.of_cons {c : Byte} {rest : List Byte} (digits : AllDigits (c :: rest)) :
    isDigit c = true ∧ AllDigits rest :=
  List.forall_mem_cons.mp digits

/-- The loop of `ston` reads digits, modulo 2 ^ 64. -/
theorem stonLoop_digits (n : ℤ) {digits : List Byte} (all : AllDigits digits) :
    stonLoop (BitVec.ofInt 64 n) digits =
      BitVec.ofInt 64 (n * 10 ^ digits.length + number digits) := by
  induction digits generalizing n with
  | nil => simp [stonLoop, number]
  | cons c rest continued =>
      obtain ⟨digit, others⟩ := all.of_cons
      have step : BitVec.ofInt 64 n * 10 + BitVec.ofInt 64 (digitOf c) =
          BitVec.ofInt 64 (n * 10 + digitOf c) := by
        rw [BitVec.ofInt_add, BitVec.ofInt_mul]
        rfl
      rw [stonLoop, if_pos digit, step, continued _ others, number_cons, List.length_cons,
        Int.pow_succ]
      congr 1
      grind

/-- `ston` reads digits, modulo 2 ^ 64. -/
theorem stonDigits_digits {digits : List Byte} (all : AllDigits digits) :
    stonDigits digits = BitVec.ofInt 64 (number digits) := by
  cases digits with
  | nil => rfl
  | cons c rest =>
      obtain ⟨digit, others⟩ := all.of_cons
      rw [stonDigits, if_pos digit, stonLoop_digits _ others, number_cons]

/-- A number that fits in an `int` is parsed exactly. -/
theorem ston_digits {digits : List Byte} (all : AllDigits digits)
    (fits : number digits < 2 ^ 31) : ston digits = number digits := by
  have nonneg := (number_bounds all).1
  cases digits with
  | nil => rfl
  | cons c rest =>
      have not_minus : c ≠ '-'.toUInt8 := by
        intro minus
        have digit := (all.of_cons).1
        rw [minus] at digit
        exact absurd digit (by decide)
      obtain ⟨count, natural⟩ := Int.eq_ofNat_of_zero_le nonneg
      rw [ston, if_neg not_minus, stonDigits_digits all, natural, BitVec.ofInt_natCast,
        BitVec.setWidth_ofNat_of_le (by decide)]
      rw [natural] at fits
      have kept : (BitVec.ofNat 32 count).toNat = count := by
        rw [BitVec.toNat_ofNat]
        omega
      rw [BitVec.toInt_eq_toNat_of_lt (by omega), kept]

/-- The loop of `parse_nanos` reads up to nine digits. -/
theorem nanosLoop_digits {n : ℤ} {read : Nat} (nonneg : 0 ≤ n) (small : n < 10 ^ read)
    {digits : List Byte} (all : AllDigits digits) (short : read + digits.length ≤ 9) :
    nanosLoop (num 32 n) read digits =
      (num 32 (n * 10 ^ digits.length + number digits), read + digits.length) := by
  induction digits generalizing n read with
  | nil => simp [nanosLoop, number]
  | cons c rest continued =>
      obtain ⟨digit, others⟩ := all.of_cons
      have bounds := digitOf_bounds digit
      rw [List.length_cons] at short
      have small_next : n * 10 + digitOf c < 10 ^ (read + 1) := by
        rw [Int.pow_succ]
        omega
      have most : (10 : ℤ) ^ (read + 1) ≤ 10 ^ 9 :=
        pow_le_pow_right₀ (by decide) (by omega)
      have step : num 32 n * 10 + num 32 (digitOf c) = num 32 (n * 10 + digitOf c) := by
        simp (disch := omega) only [ofNat_eq_num, num_mul, num_add]
      rw [nanosLoop, if_pos digit, step, continued (by omega) small_next others (by omega),
        number_cons, List.length_cons, Int.pow_succ]
      refine Prod.ext ?_ (by simp only; omega)
      congr 1
      grind

/-! ## Fractions -/

/-- The scale of a fraction fills it up to nine digits. -/
theorem fractionScale_getD {read : Nat} (some_read : 1 ≤ read) (most : read ≤ 9) :
    fractionScale.getD read undefined = num 32 (10 ^ (9 - read)) := by
  have each : ∀ less : Fin 9,
      fractionScale.getD (less + 1) undefined = num 32 (10 ^ (9 - (less.val + 1))) := by
    decide
  have scale := each ⟨read - 1, by omega⟩
  rw [show read - 1 + 1 = read by omega] at scale
  exact scale

/-- Digits beyond the ninth do not count. -/
theorem fraction_cut {fraction : List Byte} (all : AllDigits fraction) :
    number fraction * 1000000000 / 10 ^ fraction.length =
      number (fraction.take 9) * 10 ^ (9 - (fraction.take 9).length) := by
  by_cases short : fraction.length ≤ 9
  · have billion : (1000000000 : ℤ) = 10 ^ (9 - fraction.length) * 10 ^ fraction.length := by
      rw [← Int.pow_add, Nat.sub_add_cancel short]
      rfl
    rw [List.take_of_length_le short, billion, ← Int.mul_assoc,
      Int.mul_ediv_cancel _ (Int.pow_ne_zero (by decide))]
  · have taken : (fraction.take 9).length = 9 := by
      rw [List.length_take]
      omega
    have whole := List.take_append_drop 9 fraction
    have parts := number_append (fraction.take 9) (fraction.drop 9)
    have rest_all : AllDigits (fraction.drop 9) := fun c member =>
      all c (List.mem_of_mem_drop member)
    have rest := number_bounds rest_all
    have length : fraction.length = (fraction.drop 9).length + 9 := by
      rw [List.length_drop]
      omega
    have nothing : number (fraction.drop 9) / 10 ^ (fraction.drop 9).length = 0 :=
      Int.ediv_eq_zero_of_lt rest.1 rest.2
    rw [whole] at parts
    rw [parts, taken, length, Int.pow_add, Nat.sub_self, Int.pow_zero, Int.mul_one]
    change _ * 1000000000 / (_ * 1000000000) = _
    rw [Int.mul_ediv_mul_of_pos_left _ _ (by decide), Int.add_comm,
      Int.add_mul_ediv_right _ _ (Int.pow_ne_zero (by decide)), nothing, Int.zero_add]

/-- `parse_nanos` reads a fraction, rounded down. -/
theorem parseNanos_digits {fraction : List Byte} (all : AllDigits fraction)
    (nonempty : fraction ≠ []) (behind : Option Byte) :
    parseNanos fraction behind =
      num 64 (number fraction * 1000000000 / 10 ^ fraction.length) := by
  have taken_all : AllDigits (fraction.take 9) :=
    fun c member => all c (List.mem_of_mem_take member)
  have short : (fraction.take 9).length ≤ 9 := List.length_take_le 9 fraction
  rw [fraction_cut all]
  unfold parseNanos
  cases taken : fraction.take 9 with
  | nil =>
      rw [List.take_eq_nil_iff] at taken
      grind
  | cons c rest =>
      rw [taken] at taken_all short
      obtain ⟨digit, others⟩ := taken_all.of_cons
      have bounds := digitOf_bounds digit
      have total := number_bounds taken_all
      have read := nanosLoop_digits bounds.1 (by omega : digitOf c < 10 ^ 1) others
        (by rw [List.length_cons] at short; omega)
      have length : 1 + rest.length = (c :: rest).length := Nat.add_comm 1 rest.length
      rw [← number_cons, length] at read
      have room : (10 : ℤ) ^ (c :: rest).length * 10 ^ (9 - (c :: rest).length) = 1000000000 := by
        rw [← Int.pow_add, Nat.add_sub_cancel' short]
        rfl
      have scale_pos : (0 : ℤ) < 10 ^ (9 - (c :: rest).length) := Int.pow_pos (by decide)
      have scaled := Int.mul_lt_mul_of_pos_right total.2 scale_pos
      have nonneg := Int.mul_nonneg total.1 (Int.le_of_lt scale_pos)
      have digits_le : (10 : ℤ) ^ (c :: rest).length ≤ 10 ^ 9 :=
        pow_le_pow_right₀ (by decide) short
      have scale_le : (10 : ℤ) ^ (9 - (c :: rest).length) ≤ 10 ^ 9 :=
        pow_le_pow_right₀ (by decide) (Nat.sub_le 9 _)
      have scale := fractionScale_getD (by simp : 1 ≤ (c :: rest).length) short
      simp only [if_pos digit, read, scale]
      rw [num_mul (by omega) (by omega), widen_num (by omega) (by omega)]

/-! ## Parts of the texts -/

theorem Field.bounds {width : Nat} {least most : ℤ} {text : List Byte}
    (field : Field width least most text) : least ≤ number text ∧ number text ≤ most :=
  ⟨field.least, field.most⟩

/-- A field of two digits, digit by digit. -/
theorem Field.two_digits {least most : ℤ} {text : List Byte} (field : Field 2 least most text) :
    ∃ tens units, text = [tens, units] ∧ isDigit tens = true ∧ isDigit units = true ∧
      number text = digitOf tens * 10 + digitOf units := by
  obtain ⟨tens, units, rfl⟩ := List.length_eq_two.mp field.length
  obtain ⟨tens_digit, others⟩ := field.digits.of_cons
  refine ⟨tens, units, rfl, tens_digit, others.of_cons.1, ?_⟩
  rw [number_cons, number_singleton]
  rfl

namespace TimeText

variable (time : TimeText)

/-- A time is within a day, or is its end. -/
theorem seconds_bounds : 0 ≤ time.seconds ∧ time.seconds ≤ 86400 := by
  obtain ⟨hours_least, hours⟩ := time.hour_field.bounds
  obtain ⟨minutes_least, minutes⟩ := time.minute_field.bounds
  obtain ⟨seconds_least, seconds⟩ := time.second_field.bounds
  unfold TimeText.seconds
  omega

/-- The nanoseconds of a time are within its second. -/
theorem nanos_bounds :
    time.seconds * 1000000000 ≤ time.nanos ∧
      time.nanos < time.seconds * 1000000000 + 1000000000 := by
  have bounds := number_bounds time.fraction_digits
  have positive : (0 : ℤ) < 10 ^ time.fraction.length := Int.pow_pos (by decide)
  have least : 0 ≤ number time.fraction * 1000000000 / 10 ^ time.fraction.length :=
    Int.ediv_nonneg (by omega) (by omega)
  have most : number time.fraction * 1000000000 / 10 ^ time.fraction.length < 1000000000 := by
    apply Int.ediv_lt_of_lt_mul positive
    omega
  unfold nanos
  omega

theorem nanos_of_nil (none : time.fraction = []) : time.nanos = time.seconds * 1000000000 := by
  rw [nanos, none]
  exact Int.add_zero _

/-- What follows the seconds decides. -/
theorem parseTimeOnly_whole (rest : List Byte) (behind : Option Byte) :
    parseTimeOnly (time.whole ++ rest) behind =
      match rest with
      | [] => some (num 64 (time.seconds * 1000000000))
      | c :: fraction =>
          if c ≠ '.'.toUInt8 then none
          else some (num 64 (time.seconds * 1000000000) + parseNanos fraction behind) := by
  obtain ⟨h₁, h₀, hour, h₁_digit, h₀_digit, hour_eq⟩ := time.hour_field.two_digits
  obtain ⟨m₁, m₀, minute, m₁_digit, m₀_digit, minute_eq⟩ := time.minute_field.two_digits
  obtain ⟨s₁, s₀, second, s₁_digit, s₀_digit, second_eq⟩ := time.second_field.two_digits
  have bounds := time.seconds_bounds
  obtain ⟨hours_least, hours⟩ := time.hour_field.bounds
  obtain ⟨minutes_least, minutes⟩ := time.minute_field.bounds
  obtain ⟨seconds_least, seconds⟩ := time.second_field.bounds
  have ns : ((num 64 (number time.hour) * 60 + num 64 (number time.minute)) * 60 +
      num 64 (number time.second)) * 1000000000 = num 64 (time.seconds * 1000000000) := by
    simp (disch := omega) only [ofNat_eq_num, num_mul, num_add]
    rfl
  rw [whole, hour, minute, second]
  rw [hour_eq, minute_eq, second_eq] at ns
  simp only [parseTimeOnly, List.cons_append, List.nil_append, h₁_digit, h₀_digit, m₁_digit,
    m₀_digit, s₁_digit, s₀_digit, ns]
  cases rest <;> rfl

/-- A time of the documented form is parsed exactly. -/
theorem parseTimeOnly_text (behind : Option Byte) :
    parseTimeOnly time.text behind = some (num 64 time.nanos) := by
  have bounds := time.seconds_bounds
  have nanos_bounds := time.nanos_bounds
  rw [text, time.parseTimeOnly_whole]
  by_cases none : time.fraction = []
  · rw [if_pos none, time.nanos_of_nil none]
  · rw [if_neg none]
    simp only [ne_eq, not_true_eq_false, if_false]
    have fraction : InRange 64
        (number time.fraction * 1000000000 / 10 ^ time.fraction.length) := by
      unfold nanos at nanos_bounds
      omega
    rw [parseNanos_digits time.fraction_digits none, num_add (by omega) fraction]
    rfl

/-- A point without digits behind it is as good as none, if the text ends with no digit. -/
theorem parseTimeOnly_point {behind : Byte} (not_digit : isDigit behind = false) :
    parseTimeOnly (time.whole ++ ['.'.toUInt8]) (some behind) =
      some (num 64 (time.seconds * 1000000000)) := by
  have bounds := time.seconds_bounds
  have nothing : parseNanos [] (some behind) = num 64 0 := by
    simp only [parseNanos, List.take_nil, not_digit]
    rfl
  rw [time.parseTimeOnly_whole]
  simp only [ne_eq, not_true_eq_false, if_false, nothing]
  rw [num_add (by omega) (by decide), Int.add_zero]

end TimeText

end ReactiveToolbox.Sys
