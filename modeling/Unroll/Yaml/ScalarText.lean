import Unroll.Yaml.Cursor

set_option autoImplicit false

/-!
# Texts of YAML scalars

Plain, quoted and block scalars with their line folding. The characters of a scalar are collected
with the last one first. Every loop takes the number of characters it may still read.
-/

namespace Unroll.Yaml

open Scan

/-- White space inside a scalar that has been read but not yet added: blanks on one line, or a
first line break and those behind it. All stand with the last one first. -/
structure Pending where
  blanks : List Nat := []
  firstBreak : Option Nat := none
  breaks : List Nat := []
  isBroken : Bool := false

namespace Pending

/-- Adds the white space to a scalar: a single newline is folded into a blank. -/
def addTo (pending : Pending) (codes : List Nat) : List Nat :=
  if pending.isBroken then
    if pending.firstBreak == some 0x0a then
      if pending.breaks.isEmpty then 0x20 :: codes else pending.breaks ++ codes
    else pending.breaks ++ (pending.firstBreak.toList ++ codes)
  else pending.blanks ++ codes

/-- Reads blanks and breaks. A tab in front of the column `indent` of a new line is an error. -/
def read (indent : Nat) : (fuel : Nat) → Pending → Scan Pending
  | 0, pending => return pending
  | fuel + 1, pending => do
    let cursor ← get
    let code := cursor.current
    if isBlank code then
      if pending.isBroken && code == 0x09 && cursor.column < indent then fail
      skip
      demand 1
      read indent fuel
        (if pending.isBroken then pending else { pending with blanks := code :: pending.blanks })
    else if isBreak code then
      let newline ← readBreak
      demand 1
      read indent fuel
        (if pending.isBroken then { pending with breaks := newline :: pending.breaks }
          else { firstBreak := some newline, isBroken := true })
    else return pending

end Pending

/-- Whether a character ends a run of a plain scalar. -/
def endsPlain (inFlow : Bool) (code next : Nat) : Bool :=
  isGap code || (code == 0x3a && isGap next) ||
    (inFlow && [0x2c, 0x3f, 0x5b, 0x5d, 0x7b, 0x7d].contains code)

/-- Reads a plain scalar up to white space or an indicator. -/
def readPlainRun (inFlow : Bool) : (fuel : Nat) → List Nat → Pending → Scan (List Nat × Pending)
  | 0, codes, pending => return (codes, pending)
  | fuel + 1, codes, pending => do
    let code ← current
    if endsPlain inFlow code (← peek 1) then return (codes, pending)
    skip
    demand 2
    readPlainRun inFlow fuel (code :: pending.addTo codes) { }

/-- Reads a plain scalar behind characters and white space. Outside flow collections its further
lines start at the column `indent` or behind it. The white space at its end is given too. -/
def readPlain (inFlow : Bool) (indent : Nat) : (fuel : Nat) → List Nat → Pending →
    Scan (List Nat × Pending)
  | 0, codes, pending => return (codes, pending)
  | fuel + 1, codes, pending => do
    demand 4
    let cursor ← get
    if cursor.atDocumentBoundary || cursor.stands '#' then return (codes, pending)
    let (codes, pending) ← readPlainRun inFlow cursor.left codes pending
    let code ← current
    if !(isBlank code || isBreak code) then return (codes, pending)
    demand 1
    let pending ← pending.read indent (← get).left
    if !inFlow && (← get).column < indent then return (codes, pending)
    readPlain inFlow indent fuel codes pending

/-- The character of a one-letter escape. -/
def escapeCode? (letter : Nat) : Option Nat :=
  if letter = 0x30 then some 0x00
  else if letter = 0x61 then some 0x07
  else if letter = 0x62 then some 0x08
  else if letter = 0x74 ∨ letter = 0x09 then some 0x09
  else if letter = 0x6e then some 0x0a
  else if letter = 0x76 then some 0x0b
  else if letter = 0x66 then some 0x0c
  else if letter = 0x72 then some 0x0d
  else if letter = 0x65 then some 0x1b
  else if letter = 0x20 ∨ letter = 0x22 ∨ letter = 0x27 ∨ letter = 0x5c then some letter
  else if letter = 0x4e then some 0x85
  else if letter = 0x5f then some 0xa0
  else if letter = 0x4c then some 0x2028
  else if letter = 0x50 then some 0x2029
  else none

/-- How many hexadecimal digits follow the letter of a numeric escape. -/
def escapeWidth? (letter : Nat) : Option Nat :=
  if letter = 0x78 then some 2
  else if letter = 0x75 then some 4
  else if letter = 0x55 then some 8
  else none

/-- The character with the given hexadecimal digits. -/
def scalarOfDigits? (digits : List Nat) : Option Nat := do
  let values ← digits.mapM hexValue?
  let code : Nat := values.foldl (fun value digit => value * 16 + digit) 0
  if Utf8.isScalar code then some code else none

/-- Reads an escape behind its backslash. -/
def readEscape : Scan Nat := do
  let letter ← peek 1
  match escapeWidth? letter with
  | none =>
    match escapeCode? letter with
    | none => fail
    | some code =>
      skipMany 2
      return code
  | some width =>
    skipMany 2
    demand width
    match scalarOfDigits? ((List.range width).map (← get).peek) with
    | none => fail
    | some code =>
      skipMany width
      return code

/-- Reads a quoted scalar up to white space or its closing quote, and tells whether a line break was
escaped at its end. -/
def readQuotedRun (quote : Nat) : (fuel : Nat) → List Nat → Scan (List Nat × Bool)
  | 0, codes => return (codes, false)
  | fuel + 1, codes => do
    let code ← current
    let next ← peek 1
    if isGap code then return (codes, false)
    if code == quote then
      if quote == 0x27 && next == quote then
        skipMany 2
        demand 2
        readQuotedRun quote fuel (quote :: codes)
      else return (codes, false)
    else if quote == 0x22 && code == 0x5c then
      if isBreak next then
        demand 3
        skip
        skipLine
        return (codes, true)
      let escaped ← readEscape
      demand 2
      readQuotedRun quote fuel (escaped :: codes)
    else
      skip
      demand 2
      readQuotedRun quote fuel (code :: codes)

/-- Reads the inside of a quoted scalar and its closing quote. -/
def readQuoted (quote : Nat) : (fuel : Nat) → List Nat → Scan (List Nat)
  | 0, _ => fail
  | fuel + 1, codes => do
    demand 4
    let cursor ← get
    if cursor.atDocumentBoundary || cursor.current == endCode then fail
    let (codes, isBroken) ← readQuotedRun quote cursor.left codes
    demand 1
    if (← current) == quote then
      skip
      return codes
    let pending ← Pending.read 0 (← get).left { isBroken }
    readQuoted quote fuel (pending.addTo codes)

/-- What becomes of the line breaks at the end of a block scalar. -/
inductive Chomping where
  | clip
  | strip
  | keep
  deriving DecidableEq, Repr

/-- What stands behind the indicator of a block scalar: the chomping and an indentation. -/
structure BlockHeader where
  chomping : Chomping := .clip
  increment : Nat := 0

def chomping? (code : Nat) : Option Chomping :=
  if code = 0x2b then some .keep else if code = 0x2d then some .strip else none

/-- Reads the digit of an indentation, which is not zero. -/
def readIncrement : Scan Nat := do
  demand 1
  let code ← current
  if code == 0x30 then fail
  if isDecimal code then
    skip
    return code - 0x30
  return 0

def readChomping : Scan Chomping := do
  demand 1
  match chomping? (← current) with
  | some chomping =>
    skip
    return chomping
  | none => return .clip

/-- Reads a block scalar's header up to the end of its line. -/
def readBlockHeader : Scan BlockHeader := do
  demand 1
  let header : BlockHeader ←
    if (chomping? (← current)).isSome then do
      let chomping ← readChomping
      pure ⟨chomping, ← readIncrement⟩
    else if isDecimal (← current) then do
      let increment ← readIncrement
      pure ⟨← readChomping, increment⟩
    else pure { }
  demand 1
  skipWhile isBlank
  if (← current) == 0x23 then skipToEnd
  let code ← current
  if !isEnd code then fail
  if isBreak code then
    demand 2
    skipLine
  return header

/-- Passes over blanks in front of the column `indent`, or over all if it is zero. -/
def skipIndentation (indent : Nat) : (fuel : Nat) → Scan Unit
  | 0 => return
  | fuel + 1 => do
    let cursor ← get
    if (indent = 0 || cursor.column < indent) && cursor.current == 0x20 then
      skip
      demand 1
      skipIndentation indent fuel

/-- Reads the empty lines in front of a line of a block scalar, and gives the widest of their
indentations. An indentation of zero is not known yet. -/
def readIndentation (indent : Nat) : (fuel : Nat) → (widest : Nat) → List Nat →
    Scan (Nat × List Nat)
  | 0, widest, breaks => return (widest, breaks)
  | fuel + 1, widest, breaks => do
    demand 1
    skipIndentation indent (← get).left
    let cursor ← get
    let widest := max widest cursor.column
    if (indent = 0 || cursor.column < indent) && cursor.current == 0x09 then fail
    if isBreak cursor.current then
      let newline ← readBreak
      readIndentation indent fuel widest (newline :: breaks)
    else return (widest, breaks)

/-- A block scalar that is being read: its characters, the break of its last line and the breaks of
the empty lines behind that, all with the last one first. -/
structure BlockText where
  codes : List Nat := []
  lineBreak : Option Nat := none
  breaks : List Nat := []
  leadingBlank : Bool := false

namespace BlockText

/-- The characters with the breaks in front of a further line. A newline between two lines that do
not start with a blank is folded. -/
def joined (text : BlockText) (isFolded startsBlank : Bool) : List Nat :=
  let folds := isFolded && !text.leadingBlank && !startsBlank && text.lineBreak == some 0x0a
  let joint :=
    if folds then (if text.breaks.isEmpty then [0x20] else []) else text.lineBreak.toList
  text.breaks ++ (joint ++ text.codes)

/-- Reads the lines of a block scalar at an indentation. -/
def read (isFolded : Bool) (indent : Nat) : (fuel : Nat) → BlockText → Scan BlockText
  | 0, text => return text
  | fuel + 1, text => do
    let cursor ← get
    if cursor.column = indent ∧ cursor.current ≠ endCode then
      let leadingBlank := isBlank cursor.current
      let codes ← readOnto (!isEnd ·) (text.joined isFolded leadingBlank)
      demand 2
      let lineBreak ←
        if isBreak (← current) then pure (some (← readBreak)) else pure none
      let (_, breaks) ← readIndentation indent ((← get).left + 1) 0 []
      read isFolded indent fuel { codes, lineBreak, breaks, leadingBlank }
    else return text

/-- The characters that chomping leaves. -/
def chomped (text : BlockText) : Chomping → List Nat
  | .strip => text.codes
  | .clip => text.lineBreak.toList ++ text.codes
  | .keep => text.breaks ++ (text.lineBreak.toList ++ text.codes)

end BlockText

/-- Reads a block scalar behind its indicator, inside a collection at the column `parentIndent`. -/
def readBlock (isFolded : Bool) (parentIndent : Int) : Scan (List Nat) := do
  let header ← readBlockHeader
  let least := (max parentIndent 0).toNat
  let given := if header.increment = 0 then 0 else least + header.increment
  let (widest, breaks) ← readIndentation given ((← get).left + 1) 0 []
  let indent := if given = 0 then max (max widest (parentIndent + 1).toNat) 1 else given
  demand 1
  let text ← BlockText.read isFolded indent ((← get).left + 1) { breaks }
  return text.chomped header.chomping

end Unroll.Yaml
