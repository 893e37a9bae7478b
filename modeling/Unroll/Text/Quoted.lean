import Unroll.Text.Printable
import Unroll.Text.Utf8

set_option autoImplicit false

/-!
# Quoted texts

A text in double quotes, as messages show it: printable characters stand for themselves, all others
are escaped. Every quoted text is valid UTF-8 and holds no control character.
-/

namespace Unroll.Text

/-- The letter of a short escape. -/
def shortEscape? (code : Nat) : Option Char :=
  match code with
  | 0x07 => some 'a'
  | 0x08 => some 'b'
  | 0x09 => some 't'
  | 0x0a => some 'n'
  | 0x0b => some 'v'
  | 0x0c => some 'f'
  | 0x0d => some 'r'
  | 0x22 => some '"'
  | 0x5c => some '\\'
  | _ => none

def escaped (letter : Char) (width code : Nat) : Bytes :=
  byte '\\' :: byte letter :: Bytes.hexadecimal width code

def quoteGlyph : Utf8.Glyph → Bytes
  | .stray single => escaped 'x' 2 single.toNat
  | .char code bytes =>
    match shortEscape? code with
    | some letter => [byte '\\', byte letter]
    | none =>
      if isPrintable code then bytes
      else if code < 0x80 then escaped 'x' 2 code
      else if code < 0x10000 then escaped 'u' 4 code
      else escaped 'U' 8 code

def quoted (text : Bytes) : Bytes :=
  byte '"' :: (Utf8.glyphs text).flatMap quoteGlyph ++ [byte '"']

end Unroll.Text
