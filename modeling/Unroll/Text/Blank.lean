import Unroll.Text.Utf8

set_option autoImplicit false

/-!
# White space

The characters with the property White_Space, and texts without them at either end.
-/

namespace Unroll.Text

def isBlank (code : Nat) : Bool :=
  (0x09 ≤ code && code ≤ 0x0d) || code == 0x20 || code == 0x85 || code == 0xa0 || code == 0x1680 ||
    (0x2000 ≤ code && code ≤ 0x200a) || code == 0x2028 || code == 0x2029 || code == 0x202f ||
    code == 0x205f || code == 0x3000

def blankGlyph : Utf8.Glyph → Bool
  | .char code _ => isBlank code
  | .stray _ => false

def trimmed (text : Bytes) : Bytes :=
  let inner := (Utf8.glyphs text).dropWhile blankGlyph
  ((inner.reverse.dropWhile blankGlyph).reverse).flatMap Utf8.Glyph.bytes

end Unroll.Text
