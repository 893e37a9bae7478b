set_option autoImplicit false

/-!
# Byte texts

Sources, names and messages are sequences of bytes. They need not be well-formed UTF-8, so offsets
and lexemes count bytes and no text is ever repaired on its way through.
-/

namespace Unroll

abbrev Bytes := List UInt8

/-- The byte of an ASCII character. -/
def byte (character : Char) : UInt8 := character.toNat.toUInt8

/-- The bytes of an ASCII word. -/
def word (characters : List Char) : Bytes := characters.map byte

/-- The UTF-8 form of a string of this library's own wording. -/
def utf8 (text : String) : Bytes := text.toUTF8.toList

namespace Bytes

def newline : UInt8 := 0x0a

def blank : UInt8 := 0x20

def comma : UInt8 := 0x2c

/-- The decimal digits of a number, without leading zeros. -/
def decimal (number : Nat) : Bytes :=
  if number < 10 then [(48 + number).toUInt8]
  else decimal (number / 10) ++ [(48 + number % 10).toUInt8]
termination_by number

/-- The decimal digits of an integer, behind a minus sign if it is negative. -/
def signedDecimal : Int → Bytes
  | .ofNat number => decimal number
  | .negSucc number => byte '-' :: decimal (number + 1)

/-- The lower-case hexadecimal digit of a number below sixteen. -/
def hexDigit (number : Nat) : UInt8 :=
  if number < 10 then (48 + number).toUInt8 else (87 + number).toUInt8

/-- The `width` lowest hexadecimal digits of a number. -/
def hexadecimal : (width : Nat) → Nat → Bytes
  | 0, _ => []
  | width + 1, number => hexadecimal width (number / 16) ++ [hexDigit (number % 16)]

/-- The pieces of a text between the occurrences of a separator. -/
def splitOn (separator : UInt8) : Bytes → List Bytes
  | [] => [[]]
  | head :: rest =>
    match splitOn separator rest with
    | [] => [[head]]
    | piece :: pieces =>
      if head = separator then [] :: piece :: pieces else (head :: piece) :: pieces

/-- A text up to the first occurrence of a separator, and what follows it. -/
def cut (separator : UInt8) (text : Bytes) : Bytes × Bytes :=
  (text.takeWhile (· ≠ separator), (text.dropWhile (· ≠ separator)).drop 1)

end Bytes

end Unroll
