import Unroll.Text.Digits

set_option autoImplicit false

/-!
# Values of flags

A switch takes one of twelve words. A number may have a sign and start with `0x`, `0o`, `0b` or a
plain zero for base eight, and underscores may stand between its digits or behind the base.
Digits are read from left to right, and the first thing wrong with them decides.
-/

namespace Unroll.Command

open Digits

inductive ValueError where
  | malformed
  | outOfRange
  deriving DecidableEq, Repr

namespace ValueError

def message : ValueError → Bytes
  | .malformed => utf8 "invalid syntax"
  | .outOfRange => utf8 "value out of range"

end ValueError

def isUnderscore (b : UInt8) : Bool := b == byte '_'

/-- The base of a numeral and its digits. A base letter counts only if something follows it. -/
def splitBase : Bytes → Nat × Bytes
  | [] => (10, [])
  | first :: rest =>
    if first = byte '0' then
      match rest with
      | letter :: digit :: digits =>
        match baseOf? letter with
        | some base => (base, digit :: digits)
        | none => (8, rest)
      | _ => (8, rest)
    else (10, first :: rest)

/-- The value of digits behind others whose value is given, underscores passed over. -/
def readDigits (base value : Nat) : Bytes → Except ValueError Nat
  | [] => .ok value
  | digit :: rest =>
    if isUnderscore digit then readDigits base value rest
    else
      match digitValue? base digit with
      | none => .error .malformed
      | some digitValue =>
        if 0x10000000000000000 ≤ value * base + digitValue then .error .outOfRange
        else readDigits base (value * base + digitValue) rest

/-- Whether each underscore stands behind a digit and in front of one. The flag says whether there
is one in front of the text. -/
def underscoresFit (behindDigit : Bool) : Bytes → Bool
  | [] => behindDigit
  | b :: rest =>
    if isUnderscore b then behindDigit && underscoresFit false rest else underscoresFit true rest

def readNumber (text : Bytes) : Except ValueError Int := do
  let (isNegative, numeral) := splitSign text
  if numeral.isEmpty then throw .malformed
  let (base, digits) := splitBase numeral
  let value ← readDigits base 0 digits
  unless underscoresFit (base != 10) digits do throw .malformed
  match inWord? (withSign isNegative value) with
  | some number => return number
  | none => throw .outOfRange

def yes : List Bytes := [utf8 "1", utf8 "t", utf8 "T", utf8 "TRUE", utf8 "true", utf8 "True"]

def no : List Bytes := [utf8 "0", utf8 "f", utf8 "F", utf8 "FALSE", utf8 "false", utf8 "False"]

def readSwitch (text : Bytes) : Except ValueError Bool :=
  if yes.contains text then .ok true
  else if no.contains text then .ok false
  else .error .malformed

end Unroll.Command
