import Unroll.Yaml.Lexeme
import Unroll.Yaml.Value

set_option autoImplicit false

/-!
# YAML documents

The first document of a YAML text as a tree. Every node knows its line, counted from one, and its
tag. A reference leads to the node that had the name when it was made, which may be a node around
it. What stands behind the first document is read only as far as the lexemes' look ahead goes.
-/

namespace Unroll.Yaml

/-- A node of a document. References are numbered, and so are the nodes with names that they lead
to. -/
inductive Node where
  | scalar (line : Nat) (tag text : Bytes)
  | sequence (line : Nat) (tag : Bytes) (items : List Node)
  | mapping (line : Nat) (tag : Bytes) (entries : List (Node × Node))
  | reference (line : Nat) (name : Bytes) (number target : Nat)
  deriving Inhabited

def Node.line : Node → Nat
  | .scalar line _ _ => line
  | .sequence line _ _ => line
  | .mapping line _ _ => line
  | .reference line _ _ _ => line

def mergeTag : Bytes := utf8 "!!merge"

def sequenceTag : Bytes := utf8 "!!seq"

def mappingTag : Bytes := utf8 "!!map"

/-- The tag of a scalar that has none of its own. -/
def impliedTag (text : Bytes) (isPlain : Bool) : Bytes :=
  if !isPlain then utf8 "!!str" else if text = utf8 "<<" then mergeTag else (plainValue text).tag

/-- A document that is being read: the names of nodes, those nodes as far as they are complete, how
many named nodes and references there are, and what the handles of tags stand for. -/
structure Reading where
  lexer : Lexer
  names : List (Bytes × Nat) := []
  nodes : List (Nat × Node) := []
  nodeCount : Nat := 0
  referenceCount : Nat := 0
  hasVersion : Bool := false
  handles : List (Bytes × Bytes) := []

abbrev Reader := StateT Reading Option

namespace Reader

def fail {α : Type} : Reader α := fun _ => none

def lex {α : Type} (lex : Lex α) : Reader α := fun reading =>
  (lex reading.lexer).map fun (result, lexer) => (result, { reading with lexer })

def look : Reader Lexeme := lex Lex.look

def skip : Reader Unit := lex Lex.skip

/-- The scalar that stands where a node is missing. -/
def emptyAt (line : Nat) : Node := .scalar (line + 1) (utf8 "!!null") []

/-- What stands in front of a node: a name and a tag. -/
structure Properties where
  line : Nat
  anchor : Option Bytes := none
  tag : Option Tag := none

/-- Reads an anchor and a tag in either order. -/
def properties : Reader Properties := do
  let first ← look
  let start : Properties := { line := first.line + 1 }
  match first.mark with
  | .anchor name =>
    skip
    match (← look).mark with
    | .tag tag =>
      skip
      return { start with anchor := some name, tag := some tag }
    | _ => return { start with anchor := some name }
  | .tag tag =>
    skip
    match (← look).mark with
    | .anchor name =>
      skip
      return { start with anchor := some name, tag := some tag }
    | _ => return { start with tag := some tag }
  | _ => return start

/-- The tag that properties give, in which the handle is replaced by what it stands for. The lone
mark of a tag gives none. -/
def explicitTag (properties : Properties) : Reader (Option Bytes) := do
  match properties.tag with
  | none => return none
  | some tag =>
    let beginning ←
      if tag.handle.isEmpty then pure []
      else
        match (← get).handles.lookup tag.handle with
        | some beginning => pure beginning
        | none => fail
    let whole := beginning ++ tag.suffix
    return if whole = utf8 "!" then none else some (shortTag whole)

/-- Gives a node that is about to be read its name. -/
def announce (properties : Properties) : Reader (Option Nat) := do
  match properties.anchor with
  | none => return none
  | some name =>
    modifyGet fun reading =>
      (some reading.nodeCount,
        { reading with
          names := (name, reading.nodeCount) :: reading.names
          nodeCount := reading.nodeCount + 1 })

/-- Keeps a node that has a name. -/
def keep (number : Option Nat) (node : Node) : Reader Node := do
  match number with
  | some number => modify fun reading => { reading with nodes := (number, node) :: reading.nodes }
  | none => pure ()
  return node

/-- A reference to a node that has been given a name. -/
def referTo (line : Nat) (name : Bytes) : Reader Node := do
  let reading ← get
  match reading.names.lookup name with
  | some target =>
    set { reading with referenceCount := reading.referenceCount + 1 }
    return .reference (line + 1) name reading.referenceCount target
  | none => fail

end Reader

open Reader

mutual

/-- Reads a node. In block context it may be a block collection, and a sequence without an
indentation of its own where that is allowed. -/
def readNode (inBlock indentless : Bool) : (fuel : Nat) → Reader Node
  | 0 => fail
  | fuel + 1 => do
    let first ← look
    if let .reference name := first.mark then
      skip
      return ← referTo first.line name
    let properties ← properties
    let tag ← explicitTag properties
    let lexeme ← look
    let sequence (items : Reader (List Node)) : Reader Node := do
      let number ← announce properties
      let items ← items
      keep number (.sequence properties.line (tag.getD sequenceTag) items)
    let mapping (entries : Reader (List (Node × Node))) : Reader Node := do
      let number ← announce properties
      let entries ← entries
      keep number (.mapping properties.line (tag.getD mappingTag) entries)
    let scalar (text : Bytes) (isPlain : Bool) : Reader Node := do
      let number ← announce properties
      keep number (.scalar properties.line (tag.getD (impliedTag text isPlain)) text)
    match lexeme.mark with
    | .scalar text isPlain =>
      skip
      scalar text isPlain
    | .flowSequence =>
      skip
      sequence (readFlowItems true fuel)
    | .flowMapping =>
      skip
      mapping (readFlowEntries true fuel)
    | mark =>
      if mark = .blockEntry ∧ indentless then sequence (readIndentlessItems fuel)
      else if mark = .blockSequence ∧ inBlock then
        skip
        sequence (readBlockItems fuel)
      else if mark = .blockMapping ∧ inBlock then
        skip
        mapping (readBlockEntries fuel)
      else if properties.anchor.isSome ∨ properties.tag.isSome then scalar [] true
      else fail

/-- Reads a node unless one of the given marks stands next, or else an empty one at a line. -/
def readUnless (marks : List Mark) (inBlock indentless : Bool) (line : Nat) :
    (fuel : Nat) → Reader Node
  | 0 => fail
  | fuel + 1 => do
    if marks.contains (← look).mark then return emptyAt line
    readNode inBlock indentless fuel

def readBlockItems : (fuel : Nat) → Reader (List Node)
  | 0 => fail
  | fuel + 1 => do
    let lexeme ← look
    match lexeme.mark with
    | .blockEntry =>
      skip
      let item ← readUnless [.blockEntry, .blockEnd] true false lexeme.line fuel
      return item :: (← readBlockItems fuel)
    | .blockEnd =>
      skip
      return []
    | _ => fail

def readIndentlessItems : (fuel : Nat) → Reader (List Node)
  | 0 => fail
  | fuel + 1 => do
    let lexeme ← look
    match lexeme.mark with
    | .blockEntry =>
      skip
      let item ← readUnless [.blockEntry, .key, .value, .blockEnd] true false lexeme.line fuel
      return item :: (← readIndentlessItems fuel)
    | _ => return []

def readBlockEntries : (fuel : Nat) → Reader (List (Node × Node))
  | 0 => fail
  | fuel + 1 => do
    let lexeme ← look
    match lexeme.mark with
    | .key =>
      skip
      let key ← readUnless [.key, .value, .blockEnd] true true lexeme.line fuel
      let value ← readBlockValue fuel
      return (key, value) :: (← readBlockEntries fuel)
    | .blockEnd =>
      skip
      return []
    | _ => fail

def readBlockValue : (fuel : Nat) → Reader Node
  | 0 => fail
  | fuel + 1 => do
    let lexeme ← look
    match lexeme.mark with
    | .value =>
      skip
      readUnless [.key, .value, .blockEnd] true true lexeme.line fuel
    | _ => return emptyAt lexeme.line

/-- Reads the value of an entry of a flow collection that the given mark closes. -/
def readFlowValue (closing : Mark) : (fuel : Nat) → Reader Node
  | 0 => fail
  | fuel + 1 => do
    let lexeme ← look
    match lexeme.mark with
    | .value =>
      skip
      readUnless [.flowEntry, closing] false false lexeme.line fuel
    | _ => return emptyAt lexeme.line

/-- Reads an entry of a flow sequence that is a mapping with a single entry. A mark in place of the
key is taken for the end of the key. -/
def readSinglePair : (fuel : Nat) → Reader (Node × Node)
  | 0 => fail
  | fuel + 1 => do
    let lexeme ← look
    let key ←
      match lexeme.mark with
      | .value | .flowEntry | .flowSequenceEnd =>
        skip
        pure (emptyAt lexeme.line)
      | _ => readNode false false fuel
    return (key, ← readFlowValue .flowSequenceEnd fuel)

def readFlowItems (isFirst : Bool) : (fuel : Nat) → Reader (List Node)
  | 0 => fail
  | fuel + 1 => do
    if (← look).mark == .flowSequenceEnd then
      skip
      return []
    if !isFirst then
      if (← look).mark == .flowEntry then skip else fail
    let lexeme ← look
    match lexeme.mark with
    | .flowSequenceEnd =>
      skip
      return []
    | .key =>
      skip
      let pair ← readSinglePair fuel
      return .mapping (lexeme.line + 1) mappingTag [pair] :: (← readFlowItems false fuel)
    | _ =>
      let item ← readNode false false fuel
      return item :: (← readFlowItems false fuel)

def readFlowEntries (isFirst : Bool) : (fuel : Nat) → Reader (List (Node × Node))
  | 0 => fail
  | fuel + 1 => do
    if (← look).mark == .flowMappingEnd then
      skip
      return []
    if !isFirst then
      if (← look).mark == .flowEntry then skip else fail
    match (← look).mark with
    | .flowMappingEnd =>
      skip
      return []
    | .key =>
      skip
      let line := (← look).line
      let key ← readUnless [.value, .flowEntry, .flowMappingEnd] false false line fuel
      let value ← readFlowValue .flowMappingEnd fuel
      return (key, value) :: (← readFlowEntries false fuel)
    | _ =>
      let key ← readNode false false fuel
      let value := emptyAt (← look).line
      return (key, value) :: (← readFlowEntries false fuel)

end

def standardHandles : List (Bytes × Bytes) :=
  [(utf8 "!", utf8 "!"), (utf8 "!!", standardTags)]

/-- Follows a directive: the version is given once and is 1.1, and a handle is given once. -/
def follow : Directive → Reader Unit
  | .version major minor => do
    let reading ← get
    if reading.hasVersion ∨ major ≠ 1 ∨ minor ≠ 1 then fail
    set { reading with hasVersion := true }
  | .tag handle beginning => do
    let reading ← get
    if (reading.handles.lookup handle).isSome then fail
    set { reading with handles := (handle, beginning) :: reading.handles }

/-- Follows the directives in front of a document, and tells whether there are any. -/
def readDirectives : (fuel : Nat) → Reader Bool
  | 0 => fail
  | fuel + 1 => do
    match (← look).mark with
    | .directive directive =>
      follow directive
      skip
      let _ ← readDirectives fuel
      return true
    | _ => return false

/-- The root of the first document, if there is a document. Directives have to be followed by the
start of one. -/
def readRoot (fuel : Nat) : Reader (Option Node) := do
  let _ ← look
  skip
  let isDirected ← readDirectives fuel
  modify fun reading => { reading with handles := reading.handles ++ standardHandles }
  match (← look).mark with
  | .documentStart =>
    skip
    let lexeme ← look
    match lexeme.mark with
    | .directive _ | .documentStart | .documentEnd | .streamEnd => return some (emptyAt lexeme.line)
    | _ => return some (← readNode true false fuel)
  | .streamEnd => if isDirected then fail else return none
  | _ => if isDirected then fail else return some (← readNode true false fuel)

/-- A document: its root, the nodes that references lead to, by their numbers, and how many
references there are. -/
structure Document where
  root : Node
  nodes : List (Nat × Node)
  referenceCount : Nat

/-- Reads the first document of a text: no document and no valid YAML are told apart. Behind the
root the next lexeme has to be sound. -/
def readDocument (text : Bytes) : Option (Option Document) := do
  let cursor := Cursor.ofText text
  let fuel := 16 * cursor.left + 64
  let (root, reading) ← (readRoot fuel).run { lexer := { cursor } }
  match root with
  | none => return none
  | some root =>
    let (_, reading) ← look.run reading
    return some ⟨root, reading.nodes, reading.referenceCount⟩

end Unroll.Yaml
