import Unroll.Token.Scanner

set_option autoImplicit false

/-!
# From tokens to trees

Tokens are folded into a tree with a stack of open groups. A closing bracket without its partner
fails at once. At the end the first reported fault comes first, then the innermost bracket that is
still open.
-/

namespace Unroll

/-- An open group: its bracket, the span of the opening token, and the nodes in front of it, the
last one first. -/
structure OpenGroup where
  bracket : Bracket
  opener : Span
  before : List Node

/-- The outcome of reading tokens, and how many events were read for it. -/
structure Assembly where
  pulled : Nat
  result : Except Fault Stream

namespace Assembly

/-- Marks a punctuation node as joint if it ends where the next one starts. -/
def join (nextStart : Nat) : List Node → List Node
  | .punct char spacing span :: earlier =>
    .punct char (if span.stop = nextStart then .joint else spacing) span :: earlier
  | nodes => nodes

/-- Puts the leaf of a token in front of the nodes before it, the last one first. -/
def addLeaf (token : Token) (before : List Node) : List Node :=
  match token.kind with
  | .ident => .ident token.lexeme token.span :: before
  | .int => .literal .int token.lexeme token.span :: before
  | .float => .literal .float token.lexeme token.span :: before
  | .string => .literal .string token.lexeme token.span :: before
  | .char => .literal .char token.lexeme token.span :: before
  | kind => .punct kind.number.toInt32 .alone token.span :: join token.span.start before

/-- What remains at the end of the tokens. -/
def finish (reported : Option Fault) (stack : List OpenGroup) (nodes : List Node) :
    Except Fault Stream :=
  match reported, stack with
  | some fault, _ => .error fault
  | none, innermost :: _ => .error (.diagnosed innermost.opener (.unclosed innermost.bracket))
  | none, [] => .ok nodes.reverse

/-- Reads events with the open groups, innermost first, and the nodes of the innermost one, the
last one first. -/
def run (pulled : Nat) (reported : Option Fault) (stack : List OpenGroup) (nodes : List Node) :
    List Event → Assembly
  | [] => ⟨pulled, finish reported stack nodes⟩
  | .report fault :: events => run (pulled + 1) (reported.or (some fault)) stack nodes events
  | .token token :: events =>
    match token.kind with
    | .eof => ⟨pulled + 1, finish reported stack nodes⟩
    | .opening bracket =>
      run (pulled + 1) reported (⟨bracket, token.span, nodes⟩ :: stack) [] events
    | .closing bracket =>
      match stack with
      | [] => ⟨pulled + 1, .error (.diagnosed token.span (.unexpectedCloser token.lexeme))⟩
      | innermost :: outer =>
        if bracket = innermost.bracket then
          let group := Node.group (.bracket bracket) nodes.reverse
            (innermost.opener.extend token.span)
          run (pulled + 1) reported outer (group :: innermost.before) events
        else
          ⟨pulled + 1, .error (.diagnosed token.span
            (.mismatchedCloser innermost.bracket token.lexeme))⟩
    | _ => run (pulled + 1) reported stack (addLeaf token nodes) events

def ofEvents (events : List Event) : Assembly := run 0 none [] [] events

end Assembly

/-- The token tree of a source. -/
def Stream.parse (source : Bytes) : Except Fault Stream :=
  (Assembly.ofEvents (Scanner.ofSource source).events).result

end Unroll
