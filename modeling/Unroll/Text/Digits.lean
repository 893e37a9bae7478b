import Unroll.Text.Bytes

set_option autoImplicit false

/-!
# Digits and signs

What texts of numbers have in common: digits in a base, the letters that stand for a base behind a
leading zero, and signs.
-/

namespace Unroll.Digits

/-- The value of a digit of a base, letters counting from ten in either case. -/
def digitValue? (base : Nat) (digit : UInt8) : Option Nat :=
  let value? :=
    if 0x30 ≤ digit ∧ digit ≤ 0x39 then some (digit.toNat - 0x30)
    else if 0x61 ≤ digit ∧ digit ≤ 0x7a then some (digit.toNat - 0x57)
    else if 0x41 ≤ digit ∧ digit ≤ 0x5a then some (digit.toNat - 0x37)
    else none
  value?.filter (· < base)

/-- The base that a letter behind a zero stands for, in either case. -/
def baseOf? (letter : UInt8) : Option Nat :=
  if letter = byte 'x' ∨ letter = byte 'X' then some 16
  else if letter = byte 'o' ∨ letter = byte 'O' then some 8
  else if letter = byte 'b' ∨ letter = byte 'B' then some 2
  else none

/-- The sign of a number, and what stands behind it. -/
def splitSign : Bytes → Bool × Bytes
  | [] => (false, [])
  | first :: rest =>
    if first = byte '-' then (true, rest)
    else if first = byte '+' then (false, rest)
    else (false, first :: rest)

def withSign (isNegative : Bool) (value : Nat) : Int := if isNegative then -value else value

/-- A signed number of 64 bits. -/
def inWord? (value : Int) : Option Int :=
  if -0x8000000000000000 ≤ value ∧ value < 0x8000000000000000 then some value else none

end Unroll.Digits
