import Unroll.Tree.Basic

set_option autoImplicit false

/-!
# Substitution

One copy of a body for one value of the loop variable. The variable on its own becomes the decimal
literal of the value. Identifiers joined by paste characters become one identifier, in which the
variable stands for the value's digits, except at the head, which keeps its name. A paste character
that joins nothing stays.
-/

namespace Unroll

/-- The punctuation that directs a loop: what opens and what closes a repeated section around its
parentheses, and what joins identifiers. -/
structure Style where
  marker : Int32 := charCode '#'
  continuation : Int32 := charCode '*'
  paste : Int32 := charCode '~'
  deriving DecidableEq, Repr

/-- The value that a loop gives to its variable. -/
structure Binding where
  variableName : Bytes
  value : UInt64
  deriving DecidableEq, Repr

namespace Binding

/-- What an identifier adds to a chain in which it is not the head. -/
def piece (binding : Binding) (name : Bytes) : Bytes :=
  if name = binding.variableName then Bytes.decimal binding.value.toNat else name

end Binding

/-- A chain of identifiers that is still being read. -/
structure Chain where
  name : Bytes
  span : Span
  pasted : Bool

namespace Chain

def head (name : Bytes) (span : Span) : Chain := ⟨name, span, false⟩

def join (chain : Chain) (piece : Bytes) : Chain := ⟨chain.name ++ piece, chain.span, true⟩

/-- The node that a chain becomes. -/
def node (binding : Binding) (chain : Chain) : Node :=
  if chain.pasted = false ∧ chain.name = binding.variableName then
    .ofValue binding.value chain.span
  else .ident chain.name chain.span

end Chain

mutual

def Node.substitute (paste : Int32) (binding : Binding) : Node → Node
  | .group delimiter children span =>
    .group delimiter (Stream.substitute paste binding children) span
  | .ident name span => (Chain.head name span).node binding
  | node => node

/-- The copy of a stream outside a chain. -/
def Stream.substitute (paste : Int32) (binding : Binding) : List Node → List Node
  | [] => []
  | .ident name span :: rest => Stream.continueChain paste binding (.head name span) rest
  | node :: rest => node.substitute paste binding :: Stream.substitute paste binding rest

/-- The copy of what follows a chain: the chain goes on for as long as the paste character and an
identifier stand next. -/
def Stream.continueChain (paste : Int32) (binding : Binding) (chain : Chain) :
    List Node → List Node
  | [] => [chain.node binding]
  | .punct char spacing span :: .ident name nameSpan :: rest =>
    if char = paste then
      Stream.continueChain paste binding (chain.join (binding.piece name)) rest
    else
      chain.node binding :: .punct char spacing span ::
        Stream.continueChain paste binding (.head name nameSpan) rest
  | .ident name span :: rest =>
    chain.node binding :: Stream.continueChain paste binding (.head name span) rest
  | node :: rest =>
    chain.node binding :: node.substitute paste binding :: Stream.substitute paste binding rest

end

end Unroll
