import Unroll.Text.Bytes

set_option autoImplicit false

/-!
# Characters of a byte text

A text is read as UTF-8 from left to right. A byte that starts no well-formed sequence is a
character of its own, so that every text has a length in characters and the characters'
bytes are the text again.
-/

namespace Unroll.Utf8

/-- A character of a text: a code point with the bytes that encode it, or a byte that encodes
nothing. -/
inductive Glyph where
  | char (code : Nat) (bytes : Bytes)
  | stray (single : UInt8)
  deriving DecidableEq

def Glyph.bytes : Glyph → Bytes
  | .char _ bytes => bytes
  | .stray single => [single]

/-- What a decoder reports for bytes that encode no character. -/
def replacement : Nat := 0xfffd

def Glyph.code : Glyph → Nat
  | .char code _ => code
  | .stray _ => replacement

def isTail (b : UInt8) : Bool := 0x80 ≤ b && b ≤ 0xbf

/-- Two bytes that encode a character. -/
def isPair (a b : UInt8) : Bool := 0xc2 ≤ a && a ≤ 0xdf && isTail b

/-- Three bytes that encode a character: neither an overlong form nor a surrogate. -/
def isTriple (a b c : UInt8) : Bool :=
  0xe0 ≤ a && a ≤ 0xef && isTail b && isTail c && (a != 0xe0 || 0xa0 ≤ b) && (a != 0xed || b ≤ 0x9f)

/-- Four bytes that encode a character: neither an overlong form nor beyond the last plane. -/
def isQuadruple (a b c d : UInt8) : Bool :=
  0xf0 ≤ a && a ≤ 0xf4 && isTail b && isTail c && isTail d &&
    (a != 0xf0 || 0x90 ≤ b) && (a != 0xf4 || b ≤ 0x8f)

def payload (b : UInt8) : Nat := b.toNat % 64

/-- The character at the start of a text with the given first byte and rest. -/
def leading (a : UInt8) (rest : Bytes) : Glyph :=
  if a < 0x80 then .char a.toNat [a]
  else match rest with
    | [] => .stray a
    | [b] => ofPair a b
    | [b, c] => if isTriple a b c then ofTriple a b c else ofPair a b
    | b :: c :: d :: _ =>
      if isQuadruple a b c d then
        .char (((a.toNat % 8 * 64 + payload b) * 64 + payload c) * 64 + payload d) [a, b, c, d]
      else if isTriple a b c then ofTriple a b c
      else ofPair a b
where
  ofPair (a b : UInt8) : Glyph :=
    if isPair a b then .char (a.toNat % 32 * 64 + payload b) [a, b] else .stray a
  ofTriple (a b c : UInt8) : Glyph :=
    .char ((a.toNat % 16 * 64 + payload b) * 64 + payload c) [a, b, c]

/-- The characters of a text from left to right. -/
def glyphs (text : Bytes) : List Glyph :=
  match text with
  | [] => []
  | a :: rest =>
    let first := leading a rest
    first :: glyphs (rest.drop (first.bytes.length - 1))
termination_by text.length
decreasing_by simp only [List.length_drop, List.length_cons]; omega

/-- The number of characters, stray bytes counting one each. -/
def length (text : Bytes) : Nat := (glyphs text).length

/-- Whether a number is the code point of a character. -/
def isScalar (code : Int) : Bool :=
  (0 ≤ code && code < 0xd800) || (0xdfff < code && code ≤ 0x10ffff)

def encodeScalar (code : Nat) : Bytes :=
  if code < 0x80 then [code.toUInt8]
  else if code < 0x800 then [(0xc0 + code / 64).toUInt8, (0x80 + code % 64).toUInt8]
  else if code < 0x10000 then
    [(0xe0 + code / 4096).toUInt8, (0x80 + code / 64 % 64).toUInt8, (0x80 + code % 64).toUInt8]
  else
    [(0xf0 + code / 262144).toUInt8, (0x80 + code / 4096 % 64).toUInt8,
      (0x80 + code / 64 % 64).toUInt8, (0x80 + code % 64).toUInt8]

/-- The bytes of a code point. A number that is none is written as the replacement character. -/
def encode (code : Int) : Bytes :=
  encodeScalar (if isScalar code then code.toNat else replacement)

/-- The code point of the first character, the replacement character if there is none. -/
def firstCode (text : Bytes) : Nat :=
  match glyphs text with
  | [] => replacement
  | first :: _ => first.code

end Unroll.Utf8
