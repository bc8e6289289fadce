import Mathlib.Data.Nat.Init
import ReactiveToolbox.Io.Buffer
import ReactiveToolbox.Sys.JulianDay

/-!
# Parsing of times

A text is parsed into the nanoseconds since the epoch of Unix time.  A part that
does not have the form asked for gives no value at all; arithmetic that overflows
gives a value that is undefined.  `parse_nanos` looks at its first character before
it compares the position with the end of the text, so the byte behind the text is
an argument as well, if there is one that can be read.
-/

namespace ReactiveToolbox.Sys

open ReactiveToolbox.Io ReactiveToolbox.Lib ReactiveToolbox.Lib.CheckedInt

/-- A number of nanoseconds. -/
abbrev Nanos := CheckedInt 64

/-- `isdigit`. -/
def isDigit (c : Byte) : Bool :=
  '0'.toUInt8 ≤ c && c ≤ '9'.toUInt8

/-- `c - '0'`. -/
def digitOf (c : Byte) : ℤ :=
  c.toNat - '0'.toNat

/-! ## Numbers -/

/-- The loop of `ston` over the digits that follow the first. -/
def stonLoop (n : BitVec 64) : List Byte → BitVec 64
  | [] => n
  | c :: rest => if isDigit c then stonLoop (n * 10 + BitVec.ofInt 64 (digitOf c)) rest else n

/-- `ston` of a text without a sign. -/
def stonDigits : List Byte → BitVec 64
  | [] => 0
  | c :: rest => if isDigit c then stonLoop (BitVec.ofInt 64 (digitOf c)) rest else 0

/-- `ston<int>`; the result is converted from the unsigned type of the loop. -/
def ston (text : List Byte) : ℤ :=
  match text with
  | [] => 0
  | c :: rest =>
      if c = '-'.toUInt8 then
        if rest = [] then 0
        else ((-stonDigits rest).setWidth 32).toInt
      else ((stonDigits text).setWidth 32).toInt

/-! ## Dates -/

/-- `parse_date`, which reads a number of any digits. -/
def parseDate (text : List Byte) : ℤ :=
  ston text

/-- `jd_to_time`: the nanoseconds between the Unix epoch and noon of a Julian day. -/
def jdToTime (jd : CInt) : Nanos :=
  let jdUnixEpoc : CInt := 2440588
  let msInDay : CheckedInt 64 := 24 * 60 * 60 * 1000
  -- Add half day for 12pm.
  ((jd - jdUnixEpoc).widen 64 * msInDay + msInDay / 2) * 1000000

/-! ## Times of the day -/

/-- What a fraction is multiplied by, for as many digits as have been read. -/
def fractionScale : List CInt :=
  [0, 100000000, 10000000, 1000000, 100000, 10000, 1000, 100, 10, 1]

/-- The loop of `parse_nanos` over the digits that follow the first, and how many were read. -/
def nanosLoop (ns : CInt) (read : Nat) : List Byte → CInt × Nat
  | [] => (ns, read)
  | c :: rest =>
      if isDigit c then nanosLoop (ns * 10 + num 32 (digitOf c)) (read + 1) rest else (ns, read)

/-- `parse_nanos`, with the byte behind the text, which it may read. -/
def parseNanos (text : List Byte) (behind : Option Byte) : Nanos :=
  -- Truncate to ensure that we process no more than 9 decimal places.
  match text.take 9 with
  | [] =>
      match behind with
      | none => undefined
      | some c => if isDigit c then undefined else 0
  | c :: rest =>
      let (ns, read) := if isDigit c then nanosLoop (num 32 (digitOf c)) 1 rest else (0, 0)
      (ns * fractionScale.getD read undefined).widen 64

/-- `parse_time_only`, with the byte behind the text. -/
def parseTimeOnly (text : List Byte) (behind : Option Byte) : Option Nanos :=
  match text with
  | h₁ :: h₀ :: c₂ :: m₁ :: m₀ :: c₅ :: s₁ :: s₀ :: rest =>
      if !isDigit h₁ || !isDigit h₀ || c₂ ≠ ':'.toUInt8 || !isDigit m₁ || !isDigit m₀ ||
          c₅ ≠ ':'.toUInt8 || !isDigit s₁ || !isDigit s₀ then
        none
      else
        let h : Nanos := num 64 (digitOf h₁ * 10 + digitOf h₀)
        let m : Nanos := num 64 (digitOf m₁ * 10 + digitOf m₀)
        let s : Nanos := num 64 (digitOf s₁ * 10 + digitOf s₀)
        let ns := ((h * 60 + m) * 60 + s) * 1000000000
        match rest with
        | [] => some ns
        | c₈ :: fraction =>
            if c₈ ≠ '.'.toUInt8 then none else some (ns + parseNanos fraction behind)
  | _ => none

/-- The part of `parse_time` that is about the date. -/
def dateTime (text : List Byte) : Nanos :=
  let d := parseDate text
  -- Julian days start at noon.
  if d ≠ 0 then jdToTime (isoToJd (num 32 d)) - 43200000000000 else 0

/-- `parse_time`: a date of eight characters, and a time behind one separator. -/
def parseTime (text : List Byte) (behind : Option Byte) : Option Nanos :=
  if text.length < 8 then none
  else
    let dt := dateTime (text.take 8)
    match text.drop 8 with
    | [] => some dt
    | c₈ :: rest =>
        if c₈ ≠ '-'.toUInt8 && c₈ ≠ 'T'.toUInt8 then none
        else
          match parseTimeOnly rest behind with
          | none => none
          | some t => some (dt + t)

/-- What follows the date decides. -/
theorem parseTime_append {date : List Byte} (length : date.length = 8) (rest : List Byte)
    (behind : Option Byte) :
    parseTime (date ++ rest) behind =
      match rest with
      | [] => some (dateTime date)
      | c₈ :: time =>
          if c₈ ≠ '-'.toUInt8 && c₈ ≠ 'T'.toUInt8 then none
          else
            match parseTimeOnly time behind with
            | none => none
            | some t => some (dateTime date + t) := by
  have long : ¬ (date ++ rest).length < 8 := by
    rw [List.length_append, length]
    omega
  rw [parseTime, if_neg long, List.take_left' length, List.drop_left' length]

end ReactiveToolbox.Sys
