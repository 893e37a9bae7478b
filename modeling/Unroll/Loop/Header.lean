import Unroll.Loop.Numeral
import Unroll.Loop.Range

set_option autoImplicit false

/-!
# Reading headers

A header is `name in first..last` or `name in first..=last`. The dots have to touch each other, and
the equals sign the second dot. A fault lies at the first node that does not fit, or at the given
end if the header is too short.
-/

namespace Unroll.Header

/-- The fault of a header that needs something else next. -/
def unexpected (what : Expectation) (atEnd : Span) : List Node → Fault
  | [] => .diagnosed atEnd (.expected what none)
  | node :: _ => .diagnosed node.span (.expected what (some node))

def readVariable (atEnd : Span) : List Node → Except Fault ((Bytes × Span) × List Node)
  | .ident name span :: rest => .ok ((name, span), rest)
  | nodes => .error (unexpected .identifier atEnd nodes)

def keyword : Bytes := word ['i', 'n']

def readKeyword (atEnd : Span) (nodes : List Node) : Except Fault (List Node) :=
  match nodes with
  | node :: rest =>
    if node.isIdent keyword then .ok rest else .error (unexpected .keywordIn atEnd nodes)
  | [] => .error (unexpected .keywordIn atEnd nodes)

def readInteger (atEnd : Span) : List Node → Except Fault (UInt64 × List Node)
  | .literal .int raw span :: rest =>
    match Numeral.read raw with
    | .ok value => .ok (value, rest)
    | .error reason => .error (.diagnosed span (.unreadableNumeral raw reason))
  | nodes => .error (unexpected .integer atEnd nodes)

/-- Reads what may stand behind the second dot: an equals sign that touches it. -/
def readInclusive (spacing : Spacing) (nodes : List Node) : Bool × List Node :=
  match spacing, nodes with
  | .joint, node :: rest => if node.isPunct (charCode '=') then (true, rest) else (false, nodes)
  | _, _ => (false, nodes)

/-- Reads the dots, and tells whether the range is inclusive. -/
def readOperator (atEnd : Span) (nodes : List Node) : Except Fault (Bool × List Node) :=
  match nodes with
  | .punct char spacing span :: rest =>
    if char = charCode '.' then
      match spacing, rest with
      | .joint, .punct second spacing' _ :: rest' =>
        if second = charCode '.' then .ok (readInclusive spacing' rest')
        else .error (.diagnosed span .loneDot)
      | _, _ => .error (.diagnosed span .loneDot)
    else .error (unexpected .rangeOperator atEnd nodes)
  | _ => .error (unexpected .rangeOperator atEnd nodes)

def ofNodes (nodes : List Node) (atEnd : Span) : Except Fault Header := do
  let ((variableName, variableSpan), nodes) ← readVariable atEnd nodes
  let nodes ← readKeyword atEnd nodes
  let (start, nodes) ← readInteger atEnd nodes
  let (inclusive, nodes) ← readOperator atEnd nodes
  let (stop, nodes) ← readInteger atEnd nodes
  match nodes with
  | [] => return { variableName, variableSpan, range := { start, stop, inclusive } }
  | node :: _ => throw (.diagnosed node.span (.afterRange node))

end Unroll.Header
