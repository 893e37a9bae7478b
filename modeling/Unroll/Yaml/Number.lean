import Unroll.Text.Digits

set_option autoImplicit false

/-!
# Numbers in YAML

Integers are decimal, or in another base behind `0x`, `0o`, `0b` or a plain zero. Decimal fractions
are rounded to the nearest number with 53 binary digits, of two equally near ones to the even one.
-/

namespace Unroll.Yaml

open Digits

/-- The value of digits in a base. -/
def natural? (base : Nat) (digits : Bytes) : Option Nat :=
  (digits.mapM (digitValue? base)).map (·.foldl (fun value digit => value * base + digit) 0)

/-- The value of digits in a base, of which there has to be one. -/
def nonempty? (base : Nat) (digits : Bytes) : Option Nat :=
  if digits.isEmpty then none else natural? base digits

/-- An unsigned integer whose first characters tell the base. -/
def unsigned? : Bytes → Option Nat
  | [] => none
  | first :: rest =>
    if first = byte '0' then
      match rest with
      | letter :: digit :: digits =>
        match baseOf? letter with
        | some base => natural? base (digit :: digits)
        | none => natural? 8 rest
      | _ => natural? 8 rest
    else natural? 10 (first :: rest)

def signed? (text : Bytes) : Option Int :=
  let (isNegative, digits) := splitSign text
  (unsigned? digits).bind fun value => inWord? (withSign isNegative value)

/-- A signed number whose base letter stands in front of the sign. -/
def prefixed? (text : Bytes) : Option Int :=
  match text with
  | zero :: letter :: rest =>
    if zero = byte '0' ∧ (letter = byte 'b' ∨ letter = byte 'o') then
      let (isNegative, digits) := splitSign rest
      ((baseOf? letter).bind (nonempty? · digits)).bind fun value =>
        inWord? (withSign isNegative value)
    else none
  | _ => none

/-- An integer of 64 bits, with or without a sign bit. -/
def integer? (text : Bytes) : Option Int :=
  signed? text <|> ((unsigned? text).filter (· < 0x10000000000000000)).map Int.ofNat

/-- A decimal fraction: its digits as a number, and the power of ten it is scaled by. -/
structure Decimal where
  isNegative : Bool
  digits : Nat
  exponent : Int

def isDigitByte (b : UInt8) : Bool := 0x30 ≤ b && b ≤ 0x39

/-- The exponent at the end of a fraction. -/
def exponent? : Bytes → Option Int
  | [] => some 0
  | letter :: rest =>
    if letter = byte 'e' ∨ letter = byte 'E' then
      let (isNegative, digits) := splitSign rest
      if digits.all isDigitByte then (nonempty? 10 digits).map (withSign isNegative) else none
    else none

/-- Reads digits with a point before, between or behind them, and an exponent. -/
def Decimal.ofText? (text : Bytes) : Option Decimal := do
  let (isNegative, text) := splitSign text
  let whole := text.takeWhile isDigitByte
  let rest := text.dropWhile isDigitByte
  let (fraction, rest) :=
    match rest with
    | point :: behind =>
      if point = byte '.' then (behind.takeWhile isDigitByte, behind.dropWhile isDigitByte)
      else ([], rest)
    | [] => ([], rest)
  let digits ← nonempty? 10 (whole ++ fraction)
  let exponent ← exponent? rest
  return ⟨isNegative, digits, exponent - fraction.length⟩

/-- The quotient rounded to the nearest integer, a tie to the even one. -/
def roundedQuotient (numerator denominator : Nat) : Nat :=
  let quotient := numerator / denominator
  let twice := 2 * (numerator % denominator)
  if denominator < twice ∨ (twice = denominator ∧ quotient % 2 = 1) then quotient + 1
  else quotient

/-- The integer part of a positive quotient that is first rounded to 53 binary digits. -/
def truncatedDouble (numerator denominator : Nat) : Nat :=
  let estimate : Int := (Nat.log2 numerator : Int) - (Nat.log2 denominator : Int)
  let isBelow :=
    if 0 ≤ estimate then numerator < denominator <<< estimate.toNat
    else numerator <<< (-estimate).toNat < denominator
  let magnitude := if isBelow then estimate - 1 else estimate
  let shift := 52 - magnitude
  if 0 ≤ shift then roundedQuotient (numerator <<< shift.toNat) denominator >>> shift.toNat
  else roundedQuotient numerator (denominator <<< (-shift).toNat) <<< (-shift).toNat

/-- The integer part of a fraction as a number of double precision. There is none if it is too
large for one. -/
def Decimal.truncated? (decimal : Decimal) : Option Int :=
  let size : Int := (Bytes.decimal decimal.digits).length + decimal.exponent
  if decimal.digits = 0 then some 0
  else if 400 < size then none
  else if size < -10 then some 0
  else
    let whole :=
      if 0 ≤ decimal.exponent then
        truncatedDouble (decimal.digits * Nat.pow 10 decimal.exponent.toNat) 1
      else truncatedDouble decimal.digits (Nat.pow 10 (-decimal.exponent).toNat)
    if whole < 1 <<< 1024 then some (withSign decimal.isNegative whole) else none

end Unroll.Yaml
