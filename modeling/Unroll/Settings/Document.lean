import Unroll.Settings.Basic
import Unroll.Yaml.Document

set_option autoImplicit false

/-!
# Settings documents

A settings document is a YAML mapping from the names of settings to scalars. Settings that are not
named, or have no value, keep their standard value, and unknown names are passed over. The key `<<`
merges other mappings into one: they give the settings that it does not name itself. All values of
the wrong type are reported together.
-/

namespace Unroll.Settings

/-- A setting that a document may name: a text, or the limit of nested invocations. -/
inductive Field where
  | text (set : Bytes → Settings → Settings)
  | depth

def field? (name : Bytes) : Option Field :=
  if name = utf8 "trace" then some (.text fun value settings => { settings with trace := value })
  else if name = utf8 "macro" then
    some (.text fun value settings => { settings with macroName := value })
  else if name = utf8 "marker" then
    some (.text fun value settings => { settings with marker := value })
  else if name = utf8 "continuation" then
    some (.text fun value settings => { settings with continuation := value })
  else if name = utf8 "paste" then
    some (.text fun value settings => { settings with paste := value })
  else if name = utf8 "maxDepth" then some .depth
  else none

abbrev Complaint := Nat × Bytes

/-- A value as complaints show it: a long one is cut off. -/
def abbreviated (value : Bytes) : Bytes :=
  if 10 < value.length then value.take 7 ++ utf8 "..." else value

/-- The complaint about a node with a tag and a text where none of the kind belongs. -/
def misplaced (line : Nat) (tag text : Bytes) (target : String) : Complaint :=
  let value :=
    if tag = Yaml.sequenceTag ∨ tag = Yaml.mappingTag then text
    else utf8 " " ++ Problem.ticked (abbreviated text)
  (line, utf8 "cannot unmarshal " ++ tag ++ value ++ utf8 " into " ++ utf8 target)

/-- Whether two keys of a mapping collide: two scalars with the same text, two references to the
same name, or two collections of the same kind. -/
def sameKey : Yaml.Node → Yaml.Node → Bool
  | .scalar _ _ text, .scalar _ _ text' => text == text'
  | .sequence _ _ _, .sequence _ _ _ => true
  | .mapping _ _ _, .mapping _ _ _ => true
  | .reference _ name _ _, .reference _ name' _ _ => name == name'
  | _, _ => false

def keyText : Yaml.Node → Bytes
  | .scalar _ _ text => text
  | .reference _ name _ _ => name
  | _ => []

abbrev Entries := List (Yaml.Node × Yaml.Node)

/-- The keys of a mapping that collide with earlier ones. -/
def repeatedKeys : Entries → List Complaint
  | [] => []
  | (key, _) :: rest =>
    (rest.filter fun (other, _) => sameKey key other).map (fun (other, _) =>
      (other.line, utf8 "mapping key " ++ Text.quoted (keyText other) ++
        utf8 " already defined at line " ++ Bytes.decimal key.line)) ++ repeatedKeys rest

def isMergeKey : Yaml.Node → Bool
  | .scalar _ tag text => tag == Yaml.mergeTag && text == utf8 "<<"
  | _ => false

/-- The value of the last key for merging. -/
def merged? (entries : Entries) : Option Yaml.Node :=
  ((entries.filter fun (key, _) => isMergeKey key).getLast?).map Prod.snd

/-- What has been decoded so far: the settings, the complaints with the last one first, the names
that mappings being merged must not set again, how many nodes have been visited and how many of
them through references, and the references that are being followed. -/
structure Decoding where
  settings : Settings := standard
  complaints : List Complaint := []
  taken : Option (List Bytes) := none
  visits : Nat := 0
  referred : Nat := 0
  followed : List Nat := []

/-- Decoding stops where the document as a whole has to be refused. -/
abbrev Decoder := StateT Decoding (Except DocumentError)

namespace Decoder

def refuse {α : Type} : Decoder α := throw .unparsable

def complain (complaint : Complaint) : Decoder Unit :=
  modify fun decoding => { decoding with complaints := complaint :: decoding.complaints }

/-- Whether so many visits through references are too many. Up to 400000 visits they may be 99 of a
hundred, and from 4000000 on ten of a hundred; in between the part shrinks evenly. -/
def isExcessive (visits referred : Nat) : Bool :=
  let share :=
    if visits ≤ 400000 then 99 * 3600000
    else if 4000000 ≤ visits then 10 * 3600000
    else 99 * 3600000 - 89 * (visits - 400000)
  100 < referred && 1000 < visits && share * visits < referred * 100 * 3600000

def visit : Decoder Unit := do
  modify fun decoding =>
    { decoding with
      visits := decoding.visits + 1
      referred := decoding.referred + if decoding.followed.isEmpty then 0 else 1 }
  let decoding ← get
  if isExcessive decoding.visits decoding.referred then refuse

/-- Visits a node, or the node that a reference leads to. A reference inside that node may not be
followed again. -/
def visiting {α : Type} (nodes : List (Nat × Yaml.Node)) (node : Yaml.Node)
    (decode : Yaml.Node → Decoder α) : Decoder α := do
  visit
  match node with
  | .reference _ _ number target =>
    let followed := (← get).followed
    if followed.contains number then refuse
    match nodes.lookup target with
    | none => refuse
    | some node =>
      modify fun decoding => { decoding with followed := number :: followed }
      visit
      let result ← decode node
      modify fun decoding => { decoding with followed }
      return result
  | node => decode node

def scalarValue (tag text : Bytes) : Decoder Yaml.Value :=
  match Yaml.scalarValue? tag text with
  | some value => return value
  | none => refuse

/-- Complains about the keys of a mapping that collide, and tells whether there are any. -/
def checkKeys (entries : Entries) : Decoder Bool := do
  let collisions := repeatedKeys entries
  collisions.forM complain
  return collisions.isEmpty

/-- A scalar read as something, with complaints about anything else. -/
def readScalar {α : Type} (nodes : List (Nat × Yaml.Node)) (target : String)
    (read : Bytes → Yaml.Value → Option α) (node : Yaml.Node) : Decoder (Option α) :=
  visiting nodes node fun
    | .scalar line tag text => do
      let value ← scalarValue tag text
      let result := read text value
      if result.isNone ∧ value ≠ .null then complain (misplaced line tag text target)
      return result
    | .sequence line tag _ => do
      complain (misplaced line tag [] target)
      return none
    | .mapping line tag entries => do
      if ← checkKeys entries then complain (misplaced line tag [] target)
      return none
    | .reference _ _ _ _ => refuse

def readText (nodes : List (Nat × Yaml.Node)) : Yaml.Node → Decoder (Option Bytes) :=
  readScalar nodes "string" fun text value => value.text? text

def readInteger (nodes : List (Nat × Yaml.Node)) : Yaml.Node → Decoder (Option Int) :=
  readScalar nodes "int" fun _ value => value.toInt?

def setField (nodes : List (Nat × Yaml.Node)) (field : Field) (node : Yaml.Node) :
    Decoder Unit := do
  match field with
  | .text set =>
    if let some text ← readText nodes node then
      modify fun decoding => { decoding with settings := set text decoding.settings }
  | .depth =>
    if let some maxDepth ← readInteger nodes node then
      modify fun decoding => { decoding with settings := { decoding.settings with maxDepth } }

/-- Takes a name for the mapping being decoded, unless it has been taken. -/
def takeName (name : Bytes) : Decoder Bool := do
  match (← get).taken with
  | none => return true
  | some names =>
    if names.contains name then return false
    modify fun decoding => { decoding with taken := some (name :: names) }
    return true

/-- Decodes the entries of a mapping from left to right. A setting is set once. -/
def setEntries (nodes : List (Nat × Yaml.Node)) : (done : List Bytes) → Entries → Decoder Unit
  | _, [] => return
  | done, (key, value) :: rest => do
    if isMergeKey key then return ← setEntries nodes done rest
    match ← readText nodes key with
    | none => setEntries nodes done rest
    | some name =>
      match if ← takeName name then field? name else none with
      | none => setEntries nodes done rest
      | some field =>
        if done.contains name then
          complain (key.line, utf8 "field " ++ name ++ utf8 " already set in type main.Config")
        else setField nodes field value
        setEntries nodes (name :: done) rest

/-- What a node is as a value of any type. There is none of a mapping with keys that collide. -/
inductive Shape where
  | text (text : Bytes)
  | collection
  | other
  | none

/-- Merges mappings into one with the given entries: a mapping or a sequence of mappings, or
references to such. The names that the entries give are taken first. They are compared as values of
any type, which collections cannot be. -/
def merge (nodes : List (Nat × Yaml.Node)) (shape : Yaml.Node → Decoder Shape)
    (decode : Yaml.Node → Decoder Unit) (entries : Entries) (merged : Yaml.Node) :
    Decoder Unit := do
  let isOutermost := (← get).taken.isNone
  if isOutermost then
    modify fun decoding => { decoding with taken := some [] }
    for (key, _) in entries do
      match ← shape key with
      | .text name => let _ ← takeName name
      | .collection => throw .incomparableKey
      | _ => pure ()
  let decodeMapping (node : Yaml.Node) : Decoder Unit :=
    match node with
    | .mapping _ _ _ => decode node
    | .reference _ _ _ target =>
      match nodes.lookup target with
      | some (.mapping _ _ _) => decode node
      | _ => refuse
    | _ => refuse
  match merged with
  | .sequence _ _ items => items.forM decodeMapping
  | node => decodeMapping node
  if isOutermost then modify fun decoding => { decoding with taken := none }

/-- The tag of a node, or of the one that a reference leads to. -/
def tagOf (nodes : List (Nat × Yaml.Node)) : Yaml.Node → Bytes
  | .scalar _ tag _ | .sequence _ tag _ | .mapping _ tag _ => tag
  | .reference _ _ _ target =>
    match nodes.lookup target with
    | some (.scalar _ tag _) | some (.sequence _ tag _) | some (.mapping _ tag _) => tag
    | _ => []

/-- Whether all keys of a mapping are strings. -/
def hasTextKeys (nodes : List (Nat × Yaml.Node)) (entries : Entries) : Bool :=
  entries.all fun (key, _) =>
    let tag := tagOf nodes key
    tag == utf8 "!!str" || tag == Yaml.mergeTag

/-- Visits a node as a value of any type, and all nodes in it. -/
def shape (nodes : List (Nat × Yaml.Node)) : (fuel : Nat) → Yaml.Node → Decoder Shape
  | 0, _ => refuse
  | fuel + 1, node => visiting nodes node fun
    | .scalar _ tag text => do
      match ← scalarValue tag text with
      | .string => return .text text
      | .binary bytes => return .text bytes
      | _ => return .other
    | .sequence _ _ items => do
      for item in items do
        let _ ← shape nodes fuel item
      return .collection
    | .mapping _ _ entries => do
      if !(← checkKeys entries) then return .none
      let taken := (← get).taken
      let textKeys := hasTextKeys nodes entries
      modify fun decoding => { decoding with taken := none }
      for (key, value) in entries do
        if !isMergeKey key then
          let keyShape ←
            if textKeys then pure ((← readText nodes key).elim .none .text)
            else shape nodes fuel key
          match keyShape with
          | .none => pure ()
          | .collection => throw (if taken.isSome then .incomparableKey else .unparsable)
          | _ => let _ ← shape nodes fuel value
      modify fun decoding => { decoding with taken }
      match merged? entries with
      | some merged =>
        merge nodes (shape nodes fuel) (fun node => discard (shape nodes fuel node)) entries merged
      | none => pure ()
      return .collection
    | .reference _ _ _ _ => refuse

/-- Decodes a node that should be a mapping of settings. -/
def decode (nodes : List (Nat × Yaml.Node)) : (fuel : Nat) → Yaml.Node → Decoder Unit
  | 0, _ => refuse
  | fuel + 1, node => visiting nodes node fun
    | .scalar line tag text => do
      if (← scalarValue tag text) ≠ .null then complain (misplaced line tag text "main.Config")
    | .sequence line tag _ => complain (misplaced line tag [] "main.Config")
    | .mapping _ _ entries => do
      if ← checkKeys entries then
        setEntries nodes [] entries
        match merged? entries with
        | some merged => merge nodes (shape nodes fuel) (decode nodes fuel) entries merged
        | none => pure ()
    | .reference _ _ _ _ => refuse

end Decoder

/-- Decodes a document. A path through it passes each reference once at most, and fewer nodes
between two of them than the document has characters. -/
def decode (text : Bytes) (document : Yaml.Document) :
    Except DocumentError (Settings × List Complaint) := do
  let fuel := (4 * text.length + 16) * (document.referenceCount + 1)
  let (_, decoding) ← (Decoder.decode document.nodes fuel document.root).run { }
  return (decoding.settings, decoding.complaints.reverse)

/-- The settings that a text gives, or why it is refused. -/
def read (text : Bytes) : Except DocumentError Settings :=
  match Yaml.readDocument text with
  | none => .error .unparsable
  | some none => .ok standard
  | some (some document) => do
    let (settings, complaints) ← decode text document
    if complaints.isEmpty then return settings else throw (.mistyped complaints)

/-- Reads a settings document on top of the standard settings, and checks the result. -/
def ofDocument (text : Bytes) : Except Fault Settings :=
  match read text with
  | .ok settings => settings.validate
  | .error reason => .error (.diagnosed Span.null (.malformedSettings reason))

end Unroll.Settings
