import Unroll.Loop.Range
import Unroll.Loop.Substitution

set_option autoImplicit false

/-!
# Repeated sections

A repeated section is a marker, a group in parentheses and a continuation. It is replaced by the
copies of the group's children, one for each value of the range. Everything else is kept as it is,
and other groups are searched in turn.
-/

namespace Unroll

/-- The copies of a stream for the values of a range, one behind the other. -/
def Stream.copies (paste : Int32) (header : Header) (body : Stream) : Stream :=
  header.range.values.flatMap fun value =>
    Stream.substitute paste ⟨header.variableName, value⟩ body

/-- The children of a repeated section made of these three nodes. -/
def Style.section? (style : Style) (first second third : Node) : Option Stream :=
  if first.isPunct style.marker ∧ third.isPunct style.continuation then
    second.childrenOf? .round
  else none

/-- A stream with its repeated sections filled in, and whether it has any. -/
structure Filled where
  stream : Stream
  found : Bool

def Filled.cons (first : Node × Bool) (rest : Filled) : Filled :=
  ⟨first.1 :: rest.stream, first.2 || rest.found⟩

mutual

/-- A node outside repeated sections, with those inside it filled in. -/
def Node.fill (style : Style) (header : Header) : Node → Node × Bool
  | .group delimiter children span =>
    let inner := Stream.fill style header children
    (.group delimiter inner.stream span, inner.found)
  | node => (node, false)

def Stream.fill (style : Style) (header : Header) : List Node → Filled
  | [] => ⟨[], false⟩
  | first :: second :: third :: rest =>
    match style.section? first second third with
    | some body =>
      ⟨Stream.copies style.paste header body ++ (Stream.fill style header rest).stream, true⟩
    | none =>
      .cons (first.fill style header) (Stream.fill style header (second :: third :: rest))
  | node :: rest => .cons (node.fill style header) (Stream.fill style header rest)

end

end Unroll
