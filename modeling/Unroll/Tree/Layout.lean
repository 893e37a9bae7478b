import Unroll.Tree.Basic

set_option autoImplicit false

/-!
# Streams as source text

Nodes are separated by single blanks, except where a reader expects none: behind joint punctuation
and `.` and `'`, in front of `;` `,` `.` `:` `?`, between a name and its argument list, and between
`!` or `#` and a group. A group in braces is padded with blanks unless it is empty. The only stream
without a text is one that holds a delimiter without brackets.
-/

namespace Unroll

/-- A delimiter that has no brackets to write. -/
structure MissingBrackets where
  tag : Int8
  deriving DecidableEq, Repr

namespace Delimiter

def opening : Delimiter → Except MissingBrackets UInt8
  | .bracket kind => .ok kind.opener
  | .unknown tag => .error ⟨tag⟩

def closing : Delimiter → Except MissingBrackets UInt8
  | .bracket kind => .ok kind.closer
  | .unknown tag => .error ⟨tag⟩

end Delimiter

namespace Layout

/-- Punctuation that sticks to whatever follows it. -/
def gluesForward (char : Int32) : Bool := char == charCode '.' || char == charCode '\''

/-- Punctuation that sticks to a group behind it. -/
def gluesToGroup (char : Int32) : Bool := char == charCode '!' || char == charCode '#'

/-- Punctuation that sticks to whatever stands in front of it. -/
def gluesBackward (char : Int32) : Bool :=
  char == charCode ';' || char == charCode ',' || char == charCode '.' || char == charCode ':' ||
    char == charCode '?'

/-- Whether the left one of two neighbours allows a blank. -/
def blankBehind : Node → Node → Bool
  | .punct _ .joint _, _ => false
  | .punct char .alone _, .group _ _ _ => !gluesForward char && !gluesToGroup char
  | .punct char .alone _, _ => !gluesForward char
  | _, _ => true

/-- Whether the right one of two neighbours allows a blank. -/
def blankBefore : Node → Node → Bool
  | _, .punct char _ _ => !gluesBackward char
  | .ident _ _, .group delimiter _ _ => delimiter == .curly
  | _, _ => true

def blankBetween (left right : Node) : Bool := blankBehind left right && blankBefore left right

/-- What stands between a node and its left neighbour. -/
def gap : Option Node → Node → Bytes
  | none, _ => []
  | some left, right => if blankBetween left right then [Bytes.blank] else []

/-- What stands between the brackets of a group and its children. -/
def padding (delimiter : Delimiter) (children : Stream) : Bytes :=
  if delimiter = .curly ∧ children.isEmpty = false then [Bytes.blank] else []

end Layout

mutual

/-- The first delimiter of a node without brackets, from left to right. -/
def Node.missingBrackets? : Node → Option MissingBrackets
  | .group (.unknown tag) _ _ => some ⟨tag⟩
  | .group (.bracket _) children _ => Stream.missingBrackets? children
  | _ => none

def Stream.missingBrackets? : List Node → Option MissingBrackets
  | [] => none
  | node :: rest =>
    match node.missingBrackets? with
    | some missing => some missing
    | none => Stream.missingBrackets? rest

end

mutual

/-- Writes a node in front of a text. -/
def Node.write : Node → Bytes → Bytes
  | .ident name _, text => name ++ text
  | .literal _ raw _, text => raw ++ text
  | .punct char _ _, text => Utf8.encode char.toInt ++ text
  | .group (.bracket kind) children _, text =>
    let padding := Layout.padding (.bracket kind) children
    kind.opener :: padding ++
      Layout.writeBehind none children (padding ++ kind.closer :: text)
  | .group (.unknown _) children _, text => Layout.writeBehind none children text

/-- Writes a stream that stands behind a node in front of a text, the gap to the node included. -/
def Layout.writeBehind (left : Option Node) : List Node → Bytes → Bytes
  | [], text => text
  | node :: rest, text =>
    Layout.gap left node ++ node.write (Layout.writeBehind (some node) rest text)

end

def Node.text (node : Node) : Except MissingBrackets Bytes :=
  match node.missingBrackets? with
  | some missing => .error missing
  | none => .ok (node.write [])

def Stream.text (stream : Stream) : Except MissingBrackets Bytes :=
  match Stream.missingBrackets? stream with
  | some missing => .error missing
  | none => .ok (Layout.writeBehind none stream [])

namespace Layout

/-- What a message shows in place of a text that cannot be written. -/
def MissingBrackets.notice (missing : MissingBrackets) : Bytes :=
  utf8 "%!s(PANIC=String method: runtime error: index out of range [" ++
    Bytes.signedDecimal missing.tag.toInt ++
    (if missing.tag < 0 then utf8 "])" else utf8 "] with length 3)")

/-- A node as messages show it. -/
def shown (node : Node) : Bytes :=
  match node.text with
  | .ok text => text
  | .error missing => MissingBrackets.notice missing

end Layout

end Unroll
