import Unroll.Span

set_option autoImplicit false

/-!
# Token trees

A stream is a sequence of nodes. A node is an identifier, a literal, a punctuation character, or a
group: a stream between two brackets. Punctuation remembers whether another punctuation character
follows without a gap. Delimiters and literal kinds may carry a tag outside the known ones; such a
delimiter has no brackets to write.
-/

namespace Unroll

inductive Bracket where
  | round
  | curly
  | square
  deriving DecidableEq, Repr

namespace Bracket

def opener : Bracket → UInt8
  | .round => byte '('
  | .curly => byte '\x7b'
  | .square => byte '['

def closer : Bracket → UInt8
  | .round => byte ')'
  | .curly => byte '\x7d'
  | .square => byte ']'

end Bracket

inductive Delimiter where
  | bracket (kind : Bracket)
  | unknown (tag : Int8)
  deriving DecidableEq, Repr

namespace Delimiter

@[match_pattern] abbrev round : Delimiter := .bracket .round

@[match_pattern] abbrev curly : Delimiter := .bracket .curly

@[match_pattern] abbrev square : Delimiter := .bracket .square

def ofTag (tag : Int8) : Delimiter :=
  if tag = 0 then round else if tag = 1 then curly else if tag = 2 then square else .unknown tag

def name : Delimiter → Bytes
  | round => utf8 "Paren"
  | curly => utf8 "Brace"
  | square => utf8 "Bracket"
  | .unknown tag => utf8 "Delimiter(" ++ Bytes.signedDecimal tag.toInt ++ utf8 ")"

end Delimiter

inductive LiteralKind where
  | int
  | float
  | string
  | char
  | unknown (tag : Int8)
  deriving DecidableEq, Repr

namespace LiteralKind

def ofTag (tag : Int8) : LiteralKind :=
  if tag = 0 then .int else if tag = 1 then .float else if tag = 2 then .string
  else if tag = 3 then .char else .unknown tag

def name : LiteralKind → Bytes
  | .int => utf8 "IntLit"
  | .float => utf8 "FloatLit"
  | .string => utf8 "StrLit"
  | .char => utf8 "CharLit"
  | .unknown tag => utf8 "LitKind(" ++ Bytes.signedDecimal tag.toInt ++ utf8 ")"

end LiteralKind

/-- Whether another punctuation character follows without a gap. -/
inductive Spacing where
  | alone
  | joint
  deriving DecidableEq, Repr

inductive Node where
  | ident (name : Bytes) (span : Span)
  | literal (kind : LiteralKind) (raw : Bytes) (span : Span)
  | punct (char : Int32) (spacing : Spacing) (span : Span)
  | group (delimiter : Delimiter) (children : List Node) (span : Span)
  deriving Inhabited, Repr

abbrev Stream := List Node

/-- The number of an ASCII character, as punctuation holds it. -/
def charCode (character : Char) : Int32 := Int32.ofNat character.toNat

namespace Node

def span : Node → Span
  | .ident _ span => span
  | .literal _ _ span => span
  | .punct _ _ span => span
  | .group _ _ span => span

def isPunct (char : Int32) : Node → Bool
  | .punct own _ _ => own == char
  | _ => false

def isIdent (name : Bytes) : Node → Bool
  | .ident own _ => own == name
  | _ => false

/-- The children of a group with the given delimiter. -/
def childrenOf? (delimiter : Delimiter) : Node → Option Stream
  | .group own children _ => if own = delimiter then some children else none
  | _ => none

/-- The unsuffixed decimal literal of a value. -/
def ofValue (value : UInt64) (span : Span) : Node :=
  .literal .int (Bytes.decimal value.toNat) span

end Node

namespace Stream

/-- The span that covers all nodes. -/
def span (stream : Stream) : Span :=
  stream.foldl (fun covered node => covered.extend node.span) Span.null

end Stream

end Unroll
