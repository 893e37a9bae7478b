import Unroll.Loop.Header
import Unroll.Loop.Marker

set_option autoImplicit false

/-!
# Expansion

An invocation's input is a header and a body in braces. If the body holds repeated sections, these
are repeated and the rest appears once; otherwise the whole body is repeated.
-/

namespace Unroll

/-- The parts of an invocation's input. -/
structure Loop where
  header : List Node
  body : Stream
  bodySpan : Span

namespace Loop

/-- Splits a stream behind `before` at its first group in braces, which has to be the last node. -/
def splitBehind (all before : List Node) : List Node → Except Fault Loop
  | [] => .error (.diagnosed (Stream.span all) .missingBody)
  | node :: rest =>
    match node.childrenOf? .curly with
    | none => splitBehind all (node :: before) rest
    | some body =>
      match rest with
      | [] => .ok ⟨before.reverse, body, node.span⟩
      | extra :: _ => .error (.diagnosed extra.span (.afterBody extra))

def ofStream (stream : Stream) : Except Fault Loop := splitBehind stream [] stream

end Loop

def Stream.expand (style : Style) (stream : Stream) : Except Fault Stream := do
  let loop ← Loop.ofStream stream
  let header ← Header.ofNodes loop.header loop.bodySpan
  let filled := Stream.fill style header loop.body
  return if filled.found then filled.stream else Stream.copies style.paste header loop.body

end Unroll
