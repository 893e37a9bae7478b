import Unroll.Text.Bytes

set_option autoImplicit false

/-!
# Templates

A template is a text with places for other texts, written as a percent sign and the letter `s`. Two
percent signs are one. Places without a text, texts without a place and a percent sign at the end
are shown as such.
-/

namespace Unroll.Template

/-- The texts that a template has no place for. -/
def surplus (texts : List Bytes) : Bytes :=
  if texts.isEmpty then []
  else
    utf8 "%!(EXTRA " ++ List.intercalate (utf8 ", ") (texts.map (utf8 "string=" ++ ·)) ++ utf8 ")"

def fill : Bytes → List Bytes → Bytes
  | [], texts => surplus texts
  | [last], texts => (if last = byte '%' then utf8 "%!(NOVERB)" else [last]) ++ surplus texts
  | first :: second :: rest, texts =>
    if first ≠ byte '%' then first :: fill (second :: rest) texts
    else if second = byte 's' then
      match texts with
      | text :: others => text ++ fill rest others
      | [] => utf8 "%!s(MISSING)" ++ fill rest []
    else if second = byte '%' then second :: fill rest texts
    else first :: fill (second :: rest) texts

end Unroll.Template
