import Unroll.Fault
import Unroll.Token.Rules

set_option autoImplicit false

/-!
# Values of integer literals

A literal may end in a type name, hold underscores, and start with `0x`, `0o` or `0b`. A leading
zero alone does not change the base. Digits are read from left to right, and the first one that is
no digit of the base or brings the value to 2^64 decides what is wrong.
-/

namespace Unroll.Numeral

/-- The type names, each one in front of those that end it. -/
def suffixes : List Bytes :=
  [word ['u', '1', '2', '8'], word ['i', '1', '2', '8'], word ['u', 's', 'i', 'z', 'e'],
    word ['i', 's', 'i', 'z', 'e'], word ['u', '1', '6'], word ['u', '3', '2'],
    word ['u', '6', '4'], word ['i', '1', '6'], word ['i', '3', '2'], word ['i', '6', '4'],
    word ['u', '8'], word ['i', '8']]

def withoutSuffix (raw : Bytes) : Bytes :=
  match suffixes.find? (·.isSuffixOf raw) with
  | some suffix => raw.take (raw.length - suffix.length)
  | none => raw

def withoutUnderscores (raw : Bytes) : Bytes := raw.filter (! Rule.isUnderscore ·)

/-- The base that a letter behind a leading zero stands for. -/
def baseOf? (letter : UInt8) : Option Nat :=
  if letter = byte 'x' then some 16
  else if letter = byte 'o' then some 8
  else if letter = byte 'b' then some 2
  else none

/-- The base of a numeral and its digits. A base letter counts only if something follows it. -/
def splitBase : Bytes → Nat × Bytes
  | zero :: letter :: digit :: rest =>
    if zero = byte '0' then
      match baseOf? letter with
      | some base => (base, digit :: rest)
      | none => (10, zero :: letter :: digit :: rest)
    else (10, zero :: letter :: digit :: rest)
  | digits => (10, digits)

/-- The value of a digit or letter, letters counting from ten. -/
def digitValue? (digit : UInt8) : Option Nat :=
  if Rule.isDigit digit then some (digit.toNat - 48)
  else if Rule.isLower digit then some (digit.toNat - 87)
  else if Rule.isUpper digit then some (digit.toNat - 55)
  else none

/-- The value of digits behind others whose value is given. -/
def readFrom (base : Nat) (all : Bytes) (value : Nat) : Bytes → Except NumeralError Nat
  | [] => .ok value
  | digit :: rest =>
    match digitValue? digit with
    | none => .error (.malformed all)
    | some digitValue =>
      if base ≤ digitValue then .error (.malformed all)
      else if 0x10000000000000000 ≤ value * base + digitValue then .error (.tooLarge all)
      else readFrom base all (value * base + digitValue) rest

def readDigits (base : Nat) (digits : Bytes) : Except NumeralError Nat :=
  if digits.isEmpty then .error (.malformed digits) else readFrom base digits 0 digits

def read (raw : Bytes) : Except NumeralError UInt64 :=
  let (base, digits) := splitBase (withoutUnderscores (withoutSuffix raw))
  (readDigits base digits).map UInt64.ofNat

end Unroll.Numeral
