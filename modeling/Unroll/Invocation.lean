import Unroll.Loop.Expansion

set_option autoImplicit false

/-!
# Invocations

An invocation is the name of a registered generator, an exclamation mark and a group. Splicing
replaces it by what the generator makes of the group's children, in which invocations are spliced
again, one level deeper. The limit bounds the number of levels. A semicolon directly behind an
invocation belongs to it unless its group is in braces.
-/

namespace Unroll

abbrev Generator := Stream → Except Fault Stream

/-- Generators by name. Of two with the same name the one in front counts. -/
abbrev Generators := List (Bytes × Generator)

namespace Generators

def register (name : Bytes) (generator : Generator) (table : Generators) : Generators :=
  (name, generator) :: table

def get? (table : Generators) (name : Bytes) : Option Generator := table.lookup name

def find (table : Generators) (name : Bytes) : Except Fault Generator :=
  match table.get? name with
  | some generator => .ok generator
  | none => .error (.diagnosed Span.null (.unknownGenerator name))

end Generators

structure Invocation where
  generator : Generator
  delimiter : Delimiter
  arguments : Stream
  span : Span

namespace Invocation

/-- The invocation that these three nodes make. -/
def ofNodes? (table : Generators) : Node → Node → Node → Option Invocation
  | .ident name span, second, .group delimiter children groupSpan =>
    if second.isPunct (charCode '!') then
      (table.get? name).map fun generator =>
        ⟨generator, delimiter, children, span.extend groupSpan⟩
    else none
  | _, _, _ => none

/-- Whether a node directly behind an invocation belongs to it. -/
def ownsSemicolon (invocation : Invocation) (node : Node) : Bool :=
  invocation.delimiter != .curly && node.isPunct (charCode ';')

end Invocation

mutual

/-- Replaces the invocations inside a node. -/
def Node.spliceWith (table : Generators) (replace : Invocation → Except Fault Stream) :
    Node → Except Fault Node
  | .group delimiter children span => do
    return .group delimiter (← Stream.spliceWith table replace children) span
  | node => .ok node

/-- Replaces the invocations of a stream from left to right. -/
def Stream.spliceWith (table : Generators) (replace : Invocation → Except Fault Stream) :
    List Node → Except Fault Stream
  | [] => .ok []
  | first :: second :: third :: rest =>
    match Invocation.ofNodes? table first second third with
    | some invocation => do
      let output ← replace invocation
      match rest with
      | [] => return output
      | fourth :: rest =>
        if invocation.ownsSemicolon fourth then
          return output ++ (← Stream.spliceWith table replace rest)
        else return output ++ (← Stream.spliceWith table replace (fourth :: rest))
    | none => do
      let node ← first.spliceWith table replace
      return node :: (← Stream.spliceWith table replace (second :: third :: rest))
  | node :: rest => do
    let node ← node.spliceWith table replace
    return node :: (← Stream.spliceWith table replace rest)

end

/-- Splices a stream with so many levels left. -/
def Stream.spliceLevels (table : Generators) (limit : Int) : (levels : Nat) → Stream →
    Except Fault Stream
  | 0 => Stream.spliceWith table fun invocation =>
      .error (.diagnosed invocation.span (.tooDeep limit))
  | levels + 1 => Stream.spliceWith table fun invocation => do
      let generated ← invocation.generator invocation.arguments
      Stream.spliceLevels table limit levels generated

def Stream.splice (table : Generators) (limit : Int) (stream : Stream) : Except Fault Stream :=
  Stream.spliceLevels table limit limit.toNat stream

/-- The limit where none is given. -/
def Stream.defaultLimit : Int := 64

end Unroll
