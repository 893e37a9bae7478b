import Unroll.Text.Utf8

set_option autoImplicit false

/-!
# Words in any letter case

Texts in any letter case are compared with ASCII words only, byte by byte. Of a character that is
none of ASCII it then matters whether its small letter is one of ASCII, and how many bytes the small
letter takes. All characters whose small letter takes as many bytes as they do are left alone.
-/

namespace Unroll.Text

/-- The characters whose small letter takes another number of bytes, with the small letter. -/
def resized : List (Nat × Nat) :=
  [(0x130, 0x69), (0x23a, 0x2c65), (0x23e, 0x2c66), (0x1e9e, 0xdf), (0x2126, 0x3c9), (0x212a, 0x6b),
    (0x212b, 0xe5), (0x2c62, 0x26b), (0x2c64, 0x27d), (0x2c6d, 0x251), (0x2c6e, 0x271),
    (0x2c6f, 0x250), (0x2c70, 0x252), (0x2c7e, 0x23f), (0x2c7f, 0x240), (0xa78d, 0x265),
    (0xa7aa, 0x266), (0xa7ab, 0x25c), (0xa7ac, 0x261), (0xa7ad, 0x26c), (0xa7ae, 0x26a),
    (0xa7b0, 0x29e), (0xa7b1, 0x287), (0xa7b2, 0x29d), (0xa7c5, 0x282), (0xa7cb, 0x264),
    (0xa7dc, 0x19b)]

def lowerCode (code : Nat) : Nat :=
  if 0x41 ≤ code ∧ code ≤ 0x5a then code + 0x20 else (resized.lookup code).getD code

/-- Whether a text is a small ASCII word, letter case apart. -/
def spells (smallWord : List Char) (text : Bytes) : Bool :=
  (Utf8.glyphs text).map (fun glyph => lowerCode glyph.code) == smallWord.map Char.toNat

/-- A text in lower case, as far as a comparison with ASCII words can tell. -/
def lowered (text : Bytes) : Bytes :=
  (Utf8.glyphs text).flatMap fun glyph => Utf8.encode (lowerCode glyph.code)

end Unroll.Text
