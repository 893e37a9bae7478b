import Unroll.Text.Utf8

set_option autoImplicit false

/-!
# Decoding YAML texts

A YAML text is in UTF-8, or in UTF-16 behind a byte order mark. It is decoded in portions of 512
bytes; a character that a portion cuts in two belongs to the next one. What is wrong with a portion
matters only to a reader that needs one of its characters.
-/

namespace Unroll.Yaml

/-- Characters that a YAML text may hold. -/
def isAllowed (code : Nat) : Bool :=
  code == 0x09 || code == 0x0a || code == 0x0d || (0x20 ≤ code && code ≤ 0x7e) || code == 0x85 ||
    (0xa0 ≤ code && code ≤ 0xd7ff) || (0xe000 ≤ code && code ≤ 0xfffd) ||
    (0x10000 ≤ code && code ≤ 0x10ffff)

/-- What some bytes start with. -/
inductive Leading where
  | character (code width : Nat)
  | incomplete
  | invalid

namespace Leading

def ofCode (code width : Nat) : Leading :=
  if isAllowed code then .character code width else .invalid

/-- How many bytes a character takes, judging by its first one. -/
def width? (first : UInt8) : Option Nat :=
  if first < 0x80 then some 1
  else if first < 0xc0 then none
  else if first < 0xe0 then some 2
  else if first < 0xf0 then some 3
  else if first < 0xf8 then some 4
  else none

def ofUtf8 : Bytes → Leading
  | [] => .incomplete
  | first :: rest =>
    match width? first with
    | none => .invalid
    | some width =>
      if rest.length + 1 < width then .incomplete
      else
        match Utf8.leading first rest with
        | .char code bytes => ofCode code bytes.length
        | .stray _ => .invalid

/-- Two units of a surrogate pair, the second of which may be missing. -/
def ofSurrogates (high : Nat) : Option Nat → Leading
  | none => .incomplete
  | some low =>
    if 0xdc00 ≤ low ∧ low ≤ 0xdfff then
      ofCode (0x10000 + (high - 0xd800) * 1024 + (low - 0xdc00)) 4
    else .invalid

def ofUtf16 (unit : UInt8 → UInt8 → Nat) : Bytes → Leading
  | a :: b :: rest =>
    let first := unit a b
    if first < 0xd800 ∨ 0xdfff < first then ofCode first 2
    else if 0xdc00 ≤ first then .invalid
    else
      ofSurrogates first <|
        match rest with
        | c :: d :: _ => some (unit c d)
        | _ => none
  | _ => .incomplete

end Leading

/-- A decoded text: the characters of its sound portions, the sizes of these portions, and whether a
portion behind them cannot be decoded. -/
structure Decoded where
  codes : List Nat
  sizes : List Nat
  isBroken : Bool

namespace Decoded

/-- The characters of a portion and the bytes of one that it cuts in two. -/
def portion? (leading : Bytes → Leading) : (fuel : Nat) → Bytes → Option (List Nat × Bytes)
  | 0, bytes => some ([], bytes)
  | fuel + 1, bytes =>
    if bytes.isEmpty then some ([], [])
    else
      match leading bytes with
      | .invalid => none
      | .incomplete => some ([], bytes)
      | .character code width =>
        (portion? leading fuel (bytes.drop width)).map fun (codes, cut) => (code :: codes, cut)

def portionSize : Nat := 512

/-- Decodes a portion and what remains behind it. -/
def ofPortion (leading : Bytes → Leading) : (fuel : Nat) → (bytes remaining : Bytes) → Decoded
  | 0, _, _ => ⟨[], [], true⟩
  | fuel + 1, bytes, remaining =>
    match portion? leading bytes.length bytes with
    | none => ⟨[], [], true⟩
    | some (codes, cut) =>
      if remaining.isEmpty then ⟨codes, [codes.length], !cut.isEmpty⟩
      else
        let count := portionSize - cut.length
        let rest := ofPortion leading fuel (cut ++ remaining.take count) (remaining.drop count)
        ⟨codes ++ rest.codes, codes.length :: rest.sizes, rest.isBroken⟩

/-- Decodes a text without the byte order mark at its start. -/
def ofText (text : Bytes) : Decoded :=
  let decode (leading : Bytes → Leading) (mark : Nat) : Decoded :=
    ofPortion leading (text.length + 1) ((text.take portionSize).drop mark) (text.drop portionSize)
  match text with
  | 0xff :: 0xfe :: _ => decode (Leading.ofUtf16 fun low high => high.toNat * 256 + low.toNat) 2
  | 0xfe :: 0xff :: _ => decode (Leading.ofUtf16 fun high low => high.toNat * 256 + low.toNat) 2
  | 0xef :: 0xbb :: 0xbf :: _ => decode Leading.ofUtf8 3
  | _ => decode Leading.ofUtf8 0

end Decoded

end Unroll.Yaml
