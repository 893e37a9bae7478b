import Unroll.Yaml.ScalarText
import Unroll.Yaml.Tag

set_option autoImplicit false

/-!
# YAML lexemes

A YAML text as lexemes in which indentation has become the start and the end of collections. Whether
a node is the key of a mapping shows only at the colon behind it; the marks of the key and of its
mapping are then put in front of it. So lexemes wait in a queue: the first one can be taken only if
two others wait behind it and it cannot turn out to be a key any more.
-/

namespace Unroll.Yaml

inductive Mark where
  | streamStart
  | streamEnd
  | directive (directive : Directive)
  | documentStart
  | documentEnd
  | blockSequence
  | blockMapping
  | blockEnd
  | blockEntry
  | flowSequence
  | flowSequenceEnd
  | flowMapping
  | flowMappingEnd
  | flowEntry
  | key
  | value
  | reference (name : Bytes)
  | anchor (name : Bytes)
  | tag (tag : Tag)
  | scalar (text : Bytes) (isPlain : Bool)
  deriving DecidableEq, Repr

structure Lexeme where
  mark : Mark
  line : Nat
  deriving DecidableEq, Repr

/-- A node that may turn out to be a key: its place among the lexemes and in the text, and how many
flow collections it is in. It has to be a key if it starts at the column of the innermost block
collection. -/
structure PossibleKey where
  place : Nat
  level : Nat
  required : Bool
  line : Nat
  column : Nat
  index : Nat

structure Lexer where
  cursor : Cursor
  queue : List Lexeme := [⟨.streamStart, 0⟩]
  /-- How many lexemes have been put into the queue, and how many have been taken from it. -/
  made : Nat := 1
  taken : Nat := 0
  indent : Int := -1
  outerIndents : List Int := []
  blockLevel : Nat := 0
  flowLevel : Nat := 0
  keyAllowed : Bool := true
  /-- The possible keys of the flow collections around the cursor, the innermost first. -/
  keys : List PossibleKey := []

/-- How many collections of a kind may be open. -/
def deepestNesting : Nat := 10000

namespace PossibleKey

/-- A key has to be on the line of its colon, and no more than 1024 characters away from it. -/
def isStale (key : PossibleKey) (cursor : Cursor) : Bool :=
  key.line < cursor.line || key.index + 1024 < cursor.index

end PossibleKey

abbrev Lex := StateT Lexer Option

namespace Lex

def fail {α : Type} : Lex α := fun _ => none

def scan {α : Type} (scan : Scan α) : Lex α := fun lexer =>
  (scan lexer.cursor).map fun (result, cursor) => (result, { lexer with cursor })

def cursor : Lex Cursor := return (← get).cursor

def inFlow : Lex Bool := return 0 < (← get).flowLevel

def allowKey (keyAllowed : Bool) : Lex Unit := modify fun lexer => { lexer with keyAllowed }

/-- Adds a lexeme at the end of the queue. -/
def push (mark : Mark) (line : Nat) : Lex Unit :=
  modify fun lexer =>
    { lexer with queue := lexer.queue ++ [⟨mark, line⟩], made := lexer.made + 1 }

/-- Puts a lexeme in front of the one at a place. -/
def insert (place : Nat) (mark : Mark) (line : Nat) : Lex Unit :=
  modify fun lexer =>
    let (front, behind) := lexer.queue.splitAt (place - lexer.taken)
    { lexer with queue := front ++ ⟨mark, line⟩ :: behind, made := lexer.made + 1 }

/-- Passes over characters that can be seen, and adds a lexeme for them. -/
def take (width : Nat) (mark : Mark) : Lex Unit := do
  let line := (← cursor).line
  scan (Scan.skipMany width)
  push mark line

def closeLoop (column : Int) : List Int → Lex Unit
  | [] => return
  | outer :: rest => do
    let lexer ← get
    if column < lexer.indent then
      set { lexer with indent := outer, outerIndents := rest, blockLevel := lexer.blockLevel - 1 }
      push .blockEnd lexer.cursor.line
      closeLoop column rest

/-- Closes the block collections that start behind a column. -/
def closeBlocks (column : Int) : Lex Unit := do
  if ← inFlow then return
  closeLoop column (← get).outerIndents

/-- Opens a block collection at a column unless one is open there. -/
def openBlock (column : Nat) (add : Lex Unit) : Lex Unit := do
  let lexer ← get
  if 0 < lexer.flowLevel ∨ lexer.indent ≥ column then return
  let blockLevel := lexer.blockLevel + 1
  if deepestNesting < blockLevel then fail
  let outerIndents := lexer.indent :: lexer.outerIndents
  set { lexer with indent := column, outerIndents, blockLevel }
  add

/-- The possible key on the level of the cursor. -/
def ownKey? (lexer : Lexer) : Option PossibleKey :=
  lexer.keys.head?.filter (·.level == lexer.flowLevel)

def forgetKey : Lex Unit := modify fun lexer => { lexer with keys := lexer.keys.drop 1 }

/-- Gives up the possible key on the level of the cursor. A required one may not be given up. -/
def dropKey : Lex Unit := do
  match ownKey? (← get) with
  | some key => if key.required then fail else forgetKey
  | none => return

/-- Remembers that the next lexeme may be a key. -/
def saveKey : Lex Unit := do
  if (← get).keyAllowed then
    dropKey
    let lexer ← get
    let cursor := lexer.cursor
    let key : PossibleKey :=
      { place := lexer.made
        level := lexer.flowLevel
        required := lexer.flowLevel == 0 && lexer.indent == cursor.column
        line := cursor.line
        column := cursor.column
        index := cursor.index }
    set { lexer with keys := key :: lexer.keys }

/-- The possible key on the level of the cursor, if it still can be one. -/
def readyKey : Lex (Option PossibleKey) := do
  let lexer ← get
  match ownKey? lexer with
  | none => return none
  | some key =>
    if key.isStale lexer.cursor then
      if key.required then fail
      forgetKey
      return none
    else return some key

/-- Passes over white space, line breaks and comments. If the window of the text starts with a byte
order mark, the first character of a line is passed over too. -/
def skipGap : (fuel : Nat) → Lex Unit
  | 0 => return
  | fuel + 1 => do
    scan (Scan.demand 1)
    let cursor ← cursor
    if cursor.column == 0 && cursor.window == byteOrderMark then scan Scan.skip
    scan (Scan.demand 1)
    let lexer ← get
    let tabs := 0 < lexer.flowLevel || !lexer.keyAllowed
    scan (Scan.skipWhile fun code => code == 0x20 || (tabs && code == 0x09))
    if (← Lex.cursor).stands '#' then scan (Scan.skipComments lexer.cursor.left)
    if isBreak (← Lex.cursor).current then
      scan (Scan.demand 2)
      scan Scan.skipLine
      if !(← inFlow) then allowKey true
      skipGap fuel

/-- The end of the text, which starts a line of its own. -/
def streamEnd : Lex Unit := do
  modify fun lexer =>
    let cursor := lexer.cursor
    let line := if cursor.column = 0 then cursor.line else cursor.line + 1
    { lexer with cursor := { cursor with line, column := 0 } }
  closeBlocks (-1)
  dropKey
  allowKey false
  push .streamEnd (← cursor).line

def documentMark (mark : Mark) : Lex Unit := do
  closeBlocks (-1)
  dropKey
  allowKey false
  take 3 mark

def directive : Lex Unit := do
  closeBlocks (-1)
  dropKey
  allowKey false
  let line := (← cursor).line
  push (.directive (← scan Directive.read)) line

def flowStart (mark : Mark) : Lex Unit := do
  saveKey
  modify fun lexer => { lexer with flowLevel := lexer.flowLevel + 1, keyAllowed := true }
  if deepestNesting < (← get).flowLevel then fail
  take 1 mark

def flowEnd (mark : Mark) : Lex Unit := do
  dropKey
  modify fun lexer => { lexer with flowLevel := lexer.flowLevel - 1, keyAllowed := false }
  take 1 mark

def flowEntry : Lex Unit := do
  dropKey
  allowKey true
  take 1 .flowEntry

/-- In block context an indicator may only stand where a key is allowed. -/
def checkPlace : Lex Unit := do
  let lexer ← get
  if lexer.flowLevel = 0 ∧ !lexer.keyAllowed then fail

def openHere (mark : Mark) : Lex Unit := do
  let cursor ← cursor
  openBlock cursor.column (push mark cursor.line)

def blockEntry : Lex Unit := do
  checkPlace
  openHere .blockSequence
  dropKey
  allowKey true
  take 1 .blockEntry

def explicitKey : Lex Unit := do
  checkPlace
  openHere .blockMapping
  dropKey
  allowKey (!(← inFlow))
  take 1 .key

def value : Lex Unit := do
  match ← readyKey with
  | some key =>
    insert key.place .key key.line
    openBlock key.column (insert key.place .blockMapping key.line)
    forgetKey
    allowKey false
  | none =>
    checkPlace
    openHere .blockMapping
    allowKey (!(← inFlow))
  take 1 .value

/-- Reads the name of an anchor or of a reference to one. -/
def readName : Scan Bytes := do
  Scan.skip
  Scan.demand 1
  let name ← Scan.readOnto isNameCode []
  let code ← Scan.current
  let ends := isGap code || [0x3f, 0x3a, 0x2c, 0x5d, 0x7d, 0x25, 0x40, 0x60].contains code
  if name.isEmpty || !ends then Scan.fail
  return encoded name

def named (mark : Bytes → Mark) : Lex Unit := do
  saveKey
  allowKey false
  let line := (← cursor).line
  push (mark (← scan readName)) line

def tagged : Lex Unit := do
  saveKey
  allowKey false
  let line := (← cursor).line
  push (.tag (← scan Tag.read)) line

def blockScalar (isFolded : Bool) : Lex Unit := do
  dropKey
  allowKey true
  let lexer ← get
  scan Scan.skip
  let codes ← scan (readBlock isFolded lexer.indent)
  push (.scalar (encoded codes) false) lexer.cursor.line

def quotedScalar : Lex Unit := do
  saveKey
  allowKey false
  let cursor ← cursor
  scan Scan.skip
  let codes ← scan (readQuoted cursor.current cursor.left [])
  push (.scalar (encoded codes) false) cursor.line

def plainScalar : Lex Unit := do
  saveKey
  let lexer ← get
  let cursor := lexer.cursor
  let (codes, pending) ←
    scan (readPlain (0 < lexer.flowLevel) (lexer.indent + 1).toNat cursor.left [] { })
  allowKey pending.isBroken
  push (.scalar (encoded codes) true) cursor.line

/-- Characters that start something else than a plain scalar, or nothing. -/
def isIndicator (code : Nat) : Bool :=
  [0x2d, 0x3f, 0x3a, 0x2c, 0x5b, 0x5d, 0x7b, 0x7d, 0x23, 0x26, 0x2a, 0x21, 0x7c, 0x3e, 0x27, 0x22,
    0x25, 0x40, 0x60].contains code

def startsPlain (inFlow : Bool) (code next : Nat) : Bool :=
  !(isGap code || isIndicator code) || (code == 0x2d && !isBlank next) ||
    (!inFlow && (code == 0x3f || code == 0x3a) && !isGap next)

/-- Reads a lexeme of a document's content. -/
def content : Lex Unit := do
  let cursor ← cursor
  let inFlow ← inFlow
  let gapNext := isGap (cursor.peek 1)
  if cursor.stands '[' then flowStart .flowSequence
  else if cursor.stands '\x7b' then flowStart .flowMapping
  else if cursor.stands ']' then flowEnd .flowSequenceEnd
  else if cursor.stands '\x7d' then flowEnd .flowMappingEnd
  else if cursor.stands ',' then flowEntry
  else if cursor.stands '-' && gapNext then blockEntry
  else if cursor.stands '?' && (inFlow || gapNext) then explicitKey
  else if cursor.stands ':' && (inFlow || gapNext) then value
  else if cursor.stands '*' then named .reference
  else if cursor.stands '&' then named .anchor
  else if cursor.stands '!' then tagged
  else if cursor.stands '|' && !inFlow then blockScalar false
  else if cursor.stands '>' && !inFlow then blockScalar true
  else if cursor.stands '\'' || cursor.stands '"' then quotedScalar
  else if startsPlain inFlow cursor.current (cursor.peek 1) then plainScalar
  else fail

/-- Reads at least one lexeme into the queue. A comment behind it on its line belongs to it, unless
it is the indicator of a block sequence's entry. -/
def fetch : Lex Unit := do
  skipGap ((← cursor).left + 1)
  closeBlocks (← cursor).column
  scan (Scan.demand 4)
  let cursor ← cursor
  if cursor.current == endCode then streamEnd
  else if cursor.column == 0 && cursor.stands '%' then directive
  else if cursor.atDocumentMark '-' then documentMark .documentStart
  else if cursor.atDocumentMark '.' then documentMark .documentEnd
  else
    content
    if !(cursor.stands '-' && isGap (cursor.peek 1)) then scan Scan.skipTrailingComment

/-- Whether the first lexeme of the queue may still turn out to be a key. -/
def firstMayBeKey : Lex Bool := do
  let lexer ← get
  let waiting := lexer.keys.takeWhile fun key => lexer.taken ≤ key.place
  match waiting.find? (·.place == lexer.taken) with
  | none => return false
  | some key =>
    if key.isStale lexer.cursor then
      if key.required then fail
      set { lexer with keys := lexer.keys.filter (·.place != lexer.taken) }
      return false
    else return true

def fill : (fuel : Nat) → Lex Unit
  | 0 => fail
  | fuel + 1 => do
    match (← get).queue with
    | _ :: _ :: _ :: _ => if !(← firstMayBeKey) then return
    | _ => pure ()
    fetch
    fill fuel

/-- The next lexeme. -/
def look : Lex Lexeme := do
  fill ((← cursor).left + 8)
  match (← get).queue with
  | lexeme :: _ => return lexeme
  | [] => fail

/-- Takes the next lexeme from the queue. -/
def skip : Lex Unit :=
  modify fun lexer => { lexer with queue := lexer.queue.drop 1, taken := lexer.taken + 1 }

end Lex

end Unroll.Yaml
