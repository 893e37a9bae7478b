import Unroll.Yaml.Cursor

set_option autoImplicit false

/-!
# Tags and directives of YAML

A tag is written out between `!<` and `>`, or it is the rest of one behind a handle: `!`, `!!` or a
name between two `!`. A directive gives the version, or the beginning of tags that a handle stands
for.
-/

namespace Unroll.Yaml

open Scan

/-- A tag as it is written. One that is written out has no handle. -/
structure Tag where
  handle : Bytes
  suffix : Bytes
  deriving DecidableEq, Repr

inductive Directive where
  | version (major minor : Nat)
  | tag (handle beginning : Bytes)
  deriving DecidableEq, Repr

namespace Tag

def isUriCode (code : Nat) : Bool :=
  isNameCode code ||
    [0x3b, 0x2f, 0x3f, 0x3a, 0x40, 0x26, 0x3d, 0x2b, 0x24, 0x2c, 0x2e, 0x21, 0x7e, 0x2a, 0x27, 0x28,
      0x29, 0x5b, 0x5d, 0x25].contains code

/-- Reads a byte that is written as a percent sign and two hexadecimal digits. -/
def readOctet : Scan UInt8 := do
  demand 3
  let cursor ← get
  match hexValue? (cursor.peek 1), hexValue? (cursor.peek 2) with
  | some high, some low =>
    if !cursor.stands '%' then fail
    skipMany 3
    return (high * 16 + low).toUInt8
  | _, _ => fail

/-- Reads the further bytes of a character and puts them in front of others. -/
def readTrailing : (count : Nat) → Bytes → Scan Bytes
  | 0, bytes => return bytes
  | count + 1, bytes => do
    let octet ← readOctet
    if Utf8.isTail octet then readTrailing count (octet :: bytes) else fail

/-- Reads a character that is written by its bytes. -/
def readEscaped (bytes : Bytes) : Scan Bytes := do
  let first ← readOctet
  match Leading.width? first with
  | some width => readTrailing (width - 1) (first :: bytes)
  | none => fail

/-- Reads the characters of a tag in front of others, the last one first. -/
def readUriLoop : (fuel : Nat) → Bytes → Scan Bytes
  | 0, bytes => return bytes
  | fuel + 1, bytes => do
    let code ← current
    if isUriCode code then
      let bytes ←
        if code == 0x25 then readEscaped bytes
        else do
          skip
          pure (code.toUInt8 :: bytes)
      demand 1
      readUriLoop fuel bytes
    else return bytes

/-- Reads the characters of a tag behind others. -/
def readUri (beginning : Bytes) : Scan Bytes := do
  demand 1
  let bytes ← readUriLoop (← get).left beginning.reverse
  return bytes.reverse

/-- Reads the characters of a tag, of which there has to be one. -/
def readNonemptyUri : Scan Bytes := do
  let uri ← readUri []
  if uri.isEmpty then fail
  return uri

/-- Reads what may be a handle: a `!`, a name, and another `!` if there is one. -/
def readHandle : Scan Bytes := do
  demand 1
  if (← current) ≠ 0x21 then fail
  skip
  demand 1
  let name ← readOnto isNameCode [0x21]
  if (← current) == 0x21 then
    skip
    return encoded (0x21 :: name)
  return encoded name

def isHandle (text : Bytes) : Bool := 1 < text.length && text.getLast? == some (byte '!')

/-- Reads a tag behind no other character than its first. -/
def readShort : Scan Tag := do
  let handle ← readHandle
  if isHandle handle then return ⟨handle, ← readNonemptyUri⟩
  let suffix ← readUri (handle.drop 1)
  return if suffix.isEmpty then ⟨[], utf8 "!"⟩ else ⟨utf8 "!", suffix⟩

def readVerbatim : Scan Tag := do
  skipMany 2
  let uri ← readNonemptyUri
  if (← current) ≠ 0x3e then fail
  skip
  return ⟨[], uri⟩

def read : Scan Tag := do
  demand 2
  let tag ← if (← peek 1) == 0x3c then readVerbatim else readShort
  demand 1
  if isGap (← current) then return tag else fail

end Tag

namespace Directive

/-- Reads a number of at most two digits. -/
def readNumber : Scan Nat := do
  demand 1
  let digits ← readWhile isDecimal
  if digits.isEmpty ∨ 2 < digits.length then fail
  return digits.foldl (fun value digit => value * 10 + (digit - 0x30)) 0

def readVersion : Scan Directive := do
  let major ← readNumber
  if (← current) ≠ 0x2e then fail
  skip
  return .version major (← readNumber)

def readTag : Scan Directive := do
  let handle ← Tag.readHandle
  if handle ≠ utf8 "!" ∧ !Tag.isHandle handle then fail
  demand 1
  if !isBlank (← current) then fail
  skipWhile isBlank
  let beginning ← Tag.readNonemptyUri
  demand 1
  if isGap (← current) then return .tag handle beginning else fail

/-- Passes over the end of a line, which may hold a comment only. -/
def finishLine : Scan Unit := do
  demand 1
  skipWhile isBlank
  if (← current) == 0x23 then skipToEnd
  let code ← current
  if !isEnd code then fail
  if isBreak code then
    demand 2
    skipLine

/-- Reads a directive and the end of its line. -/
def read : Scan Directive := do
  skip
  demand 1
  let name := encoded (← readOnto isNameCode [])
  if !isGap (← current) then fail
  skipWhile isBlank
  let directive ←
    if name = utf8 "YAML" then readVersion
    else if name = utf8 "TAG" then readTag
    else fail
  finishLine
  return directive

end Directive

end Unroll.Yaml
