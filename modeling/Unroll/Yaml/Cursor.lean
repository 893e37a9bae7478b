import Unroll.Yaml.Encoding

set_option autoImplicit false

/-!
# Reading YAML characters

A cursor stands in front of a character and knows its line and column, both from zero. Characters
have to be demanded before they can be seen, because the portions of the text are decoded on demand:
a scan fails where it demands one that cannot be decoded. All loops of a scan take the number of
characters they may pass, which is never more than the text has left.
-/

namespace Unroll.Yaml

def isBreak (code : Nat) : Bool :=
  code == 0x0a || code == 0x0d || code == 0x85 || code == 0x2028 || code == 0x2029

def isBlank (code : Nat) : Bool := code == 0x20 || code == 0x09

/-- What stands for the end of the text: no allowed character has this code. -/
def endCode : Nat := 0

def isEnd (code : Nat) : Bool := isBreak code || code == endCode

def isGap (code : Nat) : Bool := isBlank code || isEnd code

def isDecimal (code : Nat) : Bool := 0x30 ≤ code && code ≤ 0x39

/-- Characters of names. -/
def isNameCode (code : Nat) : Bool :=
  isDecimal code || (0x41 ≤ code && code ≤ 0x5a) || (0x61 ≤ code && code ≤ 0x7a) || code == 0x5f ||
    code == 0x2d

def hexValue? (code : Nat) : Option Nat :=
  if 0x30 ≤ code ∧ code ≤ 0x39 then some (code - 0x30)
  else if 0x61 ≤ code ∧ code ≤ 0x66 then some (code - 0x57)
  else if 0x41 ≤ code ∧ code ≤ 0x46 then some (code - 0x37)
  else none

def byteOrderMark : Nat := 0xfeff

structure Cursor where
  rest : List Nat
  /-- How many characters the text has. -/
  size : Nat
  /-- The sizes of the portions that have not been decoded yet. -/
  sizes : List Nat
  isBroken : Bool
  /-- How many characters have been decoded, ends of the text that were looked at included. -/
  known : Nat := 0
  /-- The character in front of which the last portion was demanded. -/
  window : Nat := endCode
  index : Nat := 0
  line : Nat := 0
  column : Nat := 0
  /-- Whether only blanks stand between the cursor and the line break in front of it. -/
  afterBreak : Bool := false

namespace Cursor

def ofText (text : Bytes) : Cursor :=
  let decoded := Decoded.ofText text
  { rest := decoded.codes
    size := decoded.codes.length
    sizes := decoded.sizes
    isBroken := decoded.isBroken }

/-- How many characters are left. -/
def left (cursor : Cursor) : Nat := cursor.size - cursor.index

/-- The character so many places ahead. -/
def peek (cursor : Cursor) (ahead : Nat) : Nat := cursor.rest.getD ahead endCode

def current (cursor : Cursor) : Nat := cursor.rest.headD endCode

def stands (cursor : Cursor) (character : Char) : Bool := cursor.current == character.toNat

/-- Decodes portions until so many characters are known. At the end of the text the end is. -/
def decode? (cursor : Cursor) (needed : Nat) : List Nat → (known : Nat) → Option Cursor
  | [], known =>
    if needed ≤ known then some { cursor with sizes := [], known }
    else if cursor.isBroken then none
    else some { cursor with sizes := [], known := known + 1 }
  | size :: sizes, known =>
    if needed ≤ known then some { cursor with sizes := size :: sizes, known }
    else decode? cursor needed sizes (known + size)

/-- Makes sure that the next characters can be seen. -/
def demand? (cursor : Cursor) (count : Nat) : Option Cursor :=
  if cursor.index + count ≤ cursor.known then some cursor
  else
    { cursor with window := cursor.current }.decode? (cursor.index + count) cursor.sizes
      cursor.known

def skip (cursor : Cursor) : Cursor :=
  { cursor with
    rest := cursor.rest.drop 1
    column := cursor.column + 1
    index := cursor.index + 1
    afterBreak := cursor.afterBreak && isBlank cursor.current }

/-- Passes over a line break. A carriage return and a newline are one break. -/
def skipLine (cursor : Cursor) : Cursor :=
  let width := if cursor.current == 0x0d && cursor.peek 1 == 0x0a then 2 else 1
  { cursor with
    rest := cursor.rest.drop width
    line := cursor.line + 1
    column := 0
    index := cursor.index + width
    afterBreak := true }

/-- The break in front of the cursor as a scalar holds it. -/
def breakCode (cursor : Cursor) : Nat :=
  if cursor.current == 0x2028 || cursor.current == 0x2029 then cursor.current else 0x0a

/-- Whether the cursor stands in front of `---` or `...` at the start of a line. -/
def atDocumentMark (cursor : Cursor) (character : Char) : Bool :=
  cursor.column == 0 && cursor.stands character && cursor.peek 1 == character.toNat &&
    cursor.peek 2 == character.toNat && isGap (cursor.peek 3)

def atDocumentBoundary (cursor : Cursor) : Bool :=
  cursor.atDocumentMark '-' || cursor.atDocumentMark '.'

end Cursor

/-- What a cursor reads. There is nothing if the text breaks the rules. -/
abbrev Scan := StateT Cursor Option

namespace Scan

def fail {α : Type} : Scan α := fun _ => none

def demand (count : Nat) : Scan Unit := fun cursor =>
  (cursor.demand? count).map fun next => ((), next)

def current : Scan Nat := return (← get).current

def peek (ahead : Nat) : Scan Nat := return (← get).peek ahead

def skip : Scan Unit := modify Cursor.skip

def skipLine : Scan Unit := modify Cursor.skipLine

/-- Passes over characters that can be seen. -/
def skipMany : (count : Nat) → Scan Unit
  | 0 => return
  | count + 1 => do
    skip
    skipMany count

/-- Passes over a line break and gives it as a scalar holds it. -/
def readBreak : Scan Nat := do
  demand 2
  let cursor ← get
  set cursor.skipLine
  return cursor.breakCode

/-- Passes over characters that satisfy a condition, and puts them in front of others. -/
def readLoop (condition : Nat → Bool) : (fuel : Nat) → List Nat → Scan (List Nat)
  | 0, codes => return codes
  | fuel + 1, codes => do
    let code ← current
    if condition code then
      skip
      demand 1
      readLoop condition fuel (code :: codes)
    else return codes

/-- The characters that satisfy a condition, in front of others and with the last one first. -/
def readOnto (condition : Nat → Bool) (codes : List Nat) : Scan (List Nat) := do
  readLoop condition (← get).left codes

def readWhile (condition : Nat → Bool) : Scan (List Nat) := do
  return (← readOnto condition []).reverse

def skipWhile (condition : Nat → Bool) : Scan Unit := do
  let _ ← readOnto condition []

/-- Passes over what is left of the line, except its break. -/
def skipToEnd : Scan Unit := skipWhile (!isEnd ·)

/-- The place of the next `#` behind the given number of characters, if only characters that satisfy
a condition stand in front of it, and fewer than 512. -/
def commentAhead? (condition : Nat → Bool) : (fuel ahead : Nat) → Scan (Option Nat)
  | 0, _ => return none
  | fuel + 1, ahead => do
    if 512 ≤ ahead then return none
    demand (ahead + 1)
    let code ← peek ahead
    if condition code then commentAhead? condition fuel (ahead + 1)
    else return if code == 0x23 then some ahead else none

/-- Passes over a comment behind blanks on the line of the last lexeme. -/
def skipTrailingComment : Scan Unit := do
  if (← get).afterBreak then return
  match ← commentAhead? isBlank 512 0 with
  | none => return
  | some _ => skipToEnd

/-- Passes over blanks and newlines up to a place. -/
def skipTo (place : Nat) : (fuel : Nat) → Scan Unit
  | 0 => return
  | fuel + 1 => do
    demand 1
    let cursor ← get
    if place ≤ cursor.index then return
    if isBreak cursor.current then
      demand 2
      skipLine
    else skip
    skipTo place fuel

/-- Passes over a comment, and over the comments on the lines behind it whatever their indentation,
up to the end of the line of the last one. -/
def skipComments : (fuel : Nat) → Scan Unit
  | 0 => return
  | fuel + 1 => do
    skipToEnd
    demand 2
    if 0x80 ≤ (← current) then return
    match ← commentAhead? (fun code => isBlank code || code == 0x0a || code == 0x0d) 512 1 with
    | none => return
    | some ahead =>
      let cursor ← get
      skipTo (cursor.index + ahead) ahead
      skipComments fuel

end Scan

/-- The text of characters that stand with the last one first. -/
def encoded (codes : List Nat) : Bytes :=
  codes.foldl (fun text code => Utf8.encodeScalar code ++ text) []

end Unroll.Yaml
