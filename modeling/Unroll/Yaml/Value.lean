import Unroll.Text.Base64
import Unroll.Yaml.Number

set_option autoImplicit false

/-!
# Values of YAML scalars

What a plain scalar stands for: nothing, a truth value, a number, a point in time or a string. Any
other scalar is a string. A tag asks for a value of its type, and the scalar has to be one; a tag of
an unknown type makes a scalar a string.
-/

namespace Unroll.Yaml

open Digits

/-- A number of double precision, as far as its integer part goes. -/
inductive Fraction where
  | finite (truncated : Int)
  | infinite (isNegative : Bool)
  | notANumber
  deriving DecidableEq, Repr

inductive Value where
  | null
  | bool (value : Bool)
  | int (value : Int)
  | float (value : Fraction)
  | timestamp
  | string
  | binary (bytes : Bytes)
  deriving DecidableEq, Repr

def Value.tag : Value → Bytes
  | .null => utf8 "!!null"
  | .bool _ => utf8 "!!bool"
  | .int _ => utf8 "!!int"
  | .float _ => utf8 "!!float"
  | .timestamp => utf8 "!!timestamp"
  | .string => utf8 "!!str"
  | .binary _ => utf8 "!!binary"

/-- The words that stand for a value of their own. -/
def words : List (List String × Value) :=
  [(["", "~", "null", "Null", "NULL"], .null), (["true", "True", "TRUE"], .bool true),
    (["false", "False", "FALSE"], .bool false), ([".nan", ".NaN", ".NAN"], .float .notANumber),
    ([".inf", ".Inf", ".INF", "+.inf", "+.Inf", "+.INF"], .float (.infinite false)),
    (["-.inf", "-.Inf", "-.INF"], .float (.infinite true))]

def wordValue? (text : Bytes) : Option Value :=
  (words.find? fun (spellings, _) => spellings.any fun spelling => utf8 spelling == text).map
    Prod.snd

/-- One or two digits at the start of a text with a value in a range, and what follows them. -/
def smallNumber? (least most : Nat) (text : Bytes) : Option (Nat × Bytes) := do
  let digits := (text.take 2).takeWhile isDigitByte
  let value ← nonempty? 10 digits
  if least ≤ value ∧ value ≤ most then return (value, text.drop digits.length) else none

def expect? (character : Char) : Bytes → Option Bytes
  | first :: rest => if first = byte character then some rest else none
  | [] => none

def isLeapYear (year : Nat) : Bool := year % 4 == 0 && (year % 100 != 0 || year % 400 == 0)

def daysIn (year month : Nat) : Nat :=
  if month = 2 then (if isLeapYear year then 29 else 28)
  else if month = 4 ∨ month = 6 ∨ month = 9 ∨ month = 11 then 30
  else 31

/-- Passes over a date. -/
def date? (text : Bytes) : Option Bytes := do
  let digits := text.takeWhile isDigitByte
  if digits.length ≠ 4 then none
  let year ← nonempty? 10 digits
  let (month, rest) ← smallNumber? 1 12 (← expect? '-' (text.drop 4))
  let (_, rest) ← smallNumber? 1 (daysIn year month) (← expect? '-' rest)
  return rest

/-- Passes over a time of day with a fraction of a second. -/
def clock? (text : Bytes) : Option Bytes := do
  let (_, rest) ← smallNumber? 0 23 text
  let (_, rest) ← smallNumber? 0 59 (← expect? ':' rest)
  let (_, rest) ← smallNumber? 0 59 (← expect? ':' rest)
  match rest with
  | point :: digit :: _ =>
    if (point = byte '.' ∨ point = byte ',') ∧ isDigitByte digit = true then
      return (rest.drop 1).dropWhile isDigitByte
    else return rest
  | _ => return rest

/-- Whether a text is a time zone: the letter for none, or a sign with hours and minutes. -/
def isZone (text : Bytes) : Bool :=
  match text with
  | [letter] => letter == byte 'Z'
  | [sign, h₁, h₂, colon, m₁, m₂] =>
    (sign == byte '+' || sign == byte '-') && colon == byte ':' &&
      (nonempty? 10 [h₁, h₂]).any (· ≤ 24) && (nonempty? 10 [m₁, m₂]).any (· ≤ 60)
  | _ => false

def isTimestamp (text : Bytes) : Bool :=
  match date? text with
  | none => false
  | some [] => true
  | some (separator :: rest) =>
    match clock? rest with
    | none => false
    | some behind =>
      ((separator == byte 'T' || separator == byte 't') && isZone behind) ||
        (separator == byte ' ' && behind.isEmpty)

def underscore : UInt8 := byte '_'

/-- Whether every underscore stands between two digits, behind a digit or something else. -/
def underscoresSeparate (behindDigit : Bool) : Bytes → Bool
  | [] => true
  | first :: rest =>
    (first != underscore || (behindDigit && (rest.head?.any isDigitByte))) &&
      underscoresSeparate (isDigitByte first) rest

def fraction? (text : Bytes) : Option Value :=
  ((Decimal.ofText? text).bind Decimal.truncated?).map fun truncated => .float (.finite truncated)

/-- A fraction in which underscores may stand between two digits. -/
def groupedFraction? (text : Bytes) : Option Value :=
  if underscoresSeparate false text then fraction? (text.filter (· != underscore)) else none

/-- The value of a scalar that starts with a digit or a sign. -/
def numberValue (text : Bytes) : Value :=
  if isTimestamp text then .timestamp
  else
    let digits := text.filter (· != underscore)
    let candidates := [(integer? digits).map Value.int, fraction? digits,
      (prefixed? digits).map Value.int]
    (candidates.findSome? id).getD .string

def plainValue (text : Bytes) : Value :=
  match wordValue? text with
  | some value => value
  | none =>
    match text with
    | [] => .null
    | first :: _ =>
      if isDigitByte first ∨ first = byte '+' ∨ first = byte '-' then numberValue text
      else if first = byte '.' then (groupedFraction? text).getD .string
      else .string

/-- What the tags of the standard types start with when they are written out. -/
def standardTags : Bytes := utf8 "tag:yaml.org,2002:"

/-- A tag with the standard beginning abbreviated. -/
def shortTag (tag : Bytes) : Bytes :=
  if standardTags.isPrefixOf tag then utf8 "!!" ++ tag.drop standardTags.length else tag

/-- The tags whose scalars have to be values of the type. -/
def checkedTags : List String := ["!!null", "!!bool", "!!int", "!!float", "!!timestamp"]

/-- An integer as a number of double precision. -/
def nearestDouble (number : Int) : Int :=
  if number = 0 then 0 else withSign (number < 0) (truncatedDouble number.natAbs 1)

/-- The value of a scalar with a tag. There is none if the tag asks for another value. Signed
integers may also stand for fractions. -/
def scalarValue? (tag text : Bytes) : Option Value :=
  if tag = utf8 "!!binary" then (Base64.decode? text).map .binary
  else if (checkedTags.map utf8).contains tag then
    let value := plainValue text
    if tag = value.tag then some value
    else
      match value with
      | .int number =>
        if tag = utf8 "!!float" ∧ number < 0x8000000000000000 then
          some (.float (.finite (nearestDouble number)))
        else none
      | _ => none
  else some .string

/-- The least integer of 64 bits. -/
def leastInteger : Int := -0x8000000000000000

/-- A fraction as an integer of 64 bits. Below the least integer all fractions are the least one,
and so is 2^63 itself. -/
def Fraction.toInt? : Fraction → Option Int
  | .finite truncated =>
    if -leastInteger < truncated then none
    else if truncated = -leastInteger ∨ truncated < leastInteger then some leastInteger
    else some truncated
  | .infinite isNegative => if isNegative then some leastInteger else none
  | .notANumber => none

/-- The text that a scalar gives: that of a null is none, and that of binary data is the data. -/
def Value.text? (text : Bytes) : Value → Option Bytes
  | .null => none
  | .binary bytes => some bytes
  | _ => some text

/-- A value as an integer of 64 bits. -/
def Value.toInt? : Value → Option Int
  | .int value => if value < -leastInteger then some value else none
  | .float value => value.toInt?
  | _ => none

end Unroll.Yaml
