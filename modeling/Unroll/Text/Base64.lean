import Unroll.Text.Bytes

set_option autoImplicit false

/-!
# Base 64

Four characters of an alphabet of sixty-four stand for three bytes. The last four may end in one or
two equals signs and stand for fewer bytes. Line breaks count for nothing.
-/

namespace Unroll.Base64

def digit? (b : UInt8) : Option Nat :=
  if 0x41 ≤ b ∧ b ≤ 0x5a then some (b.toNat - 0x41)
  else if 0x61 ≤ b ∧ b ≤ 0x7a then some (b.toNat - 0x61 + 26)
  else if 0x30 ≤ b ∧ b ≤ 0x39 then some (b.toNat - 0x30 + 52)
  else if b = byte '+' then some 62
  else if b = byte '/' then some 63
  else none

def padding : UInt8 := byte '='

/-- The first bytes that digits stand for, given with as many digits as three bytes need. -/
def bytesOf (count : Nat) (digits : List Nat) : Bytes :=
  let bits := digits.foldl (fun value digit => value * 64 + digit) 0
  [(bits / 65536).toUInt8, (bits / 256).toUInt8, bits.toUInt8].take count

/-- The bytes that a text without line breaks stands for. -/
def decodeUnbroken? : Bytes → Option Bytes
  | [] => some []
  | a :: b :: c :: d :: rest =>
    if d = padding ∧ rest = [] then
      if c = padding then do
        return bytesOf 1 [← digit? a, ← digit? b, 0, 0]
      else do
        return bytesOf 2 [← digit? a, ← digit? b, ← digit? c, 0]
    else do
      let bytes := bytesOf 3 [← digit? a, ← digit? b, ← digit? c, ← digit? d]
      return bytes ++ (← decodeUnbroken? rest)
  | _ => none

def decode? (text : Bytes) : Option Bytes :=
  decodeUnbroken? (text.filter fun b => b ≠ 0x0a ∧ b ≠ 0x0d)

end Unroll.Base64
