import Unroll.Token.Basic
import Unroll.Token.Pattern

set_option autoImplicit false

/-!
# Token rules

The patterns of white space, comments, literals, names and single characters, in the order in which
they win over one another when they match the same text.
-/

namespace Unroll

/-- What becomes of a match. -/
inductive Action where
  | skip
  | emit (kind : Kind)
  deriving DecidableEq, Repr

structure Rule where
  pattern : Pattern
  action : Action

namespace Rule

open Pattern

def isLower (b : UInt8) : Bool := 0x61 ≤ b && b ≤ 0x7a

def isUpper (b : UInt8) : Bool := 0x41 ≤ b && b ≤ 0x5a

def isDigit (b : UInt8) : Bool := 0x30 ≤ b && b ≤ 0x39

def isUnderscore (b : UInt8) : Bool := b == 0x5f

def startsName (b : UInt8) : Bool := isLower b || isUpper b || isUnderscore b

def continuesName (b : UInt8) : Bool := isLower b || isUpper b || isDigit b || isUnderscore b

def continuesNumber (b : UInt8) : Bool := isDigit b || isUnderscore b

def isHexDigit (b : UInt8) : Bool :=
  isDigit b || (0x61 ≤ b && b ≤ 0x66) || (0x41 ≤ b && b ≤ 0x46)

def isOctalDigit (b : UInt8) : Bool := 0x30 ≤ b && b ≤ 0x37

def isBinaryDigit (b : UInt8) : Bool := b == 0x30 || b == 0x31

def isSpace (b : UInt8) : Bool := b == 0x20 || b == 0x09 || b == 0x0a || b == 0x0d

/-- A single ASCII character. -/
def only (character : Char) : Pattern := .byte (· == Unroll.byte character)

/-- Any byte between two, both included. -/
def between (low high : UInt8) : Pattern := .byte fun b => low ≤ b && b ≤ high

/-- Two slashes and the rest of the line, its newline included. -/
def lineComment : Pattern :=
  inOrder [only '/', only '/', .star (.byte (· != Bytes.newline)), optional (only '\n')]

/-- From a slash and a star to the first star and slash behind them. -/
def blockComment : Pattern :=
  inOrder [only '/', only '*',
    .star (.alt (.byte (· != Unroll.byte '*'))
      (.seq (plus (only '*')) (.byte fun b => b != Unroll.byte '*' && b != Unroll.byte '/'))),
    plus (only '*'), only '/']

def whiteSpace : Pattern := plus (.byte isSpace)

/-- A backslash and any byte. -/
def escapePair : Pattern := .seq (only '\\') (.byte fun _ => true)

def stringLiteral : Pattern :=
  inOrder [only '"',
    .star (.alt (.byte fun b => b != Unroll.byte '"' && b != Unroll.byte '\\') escapePair),
    only '"']

/-- The bytes of a character outside ASCII, by the ranges of its first byte alone. -/
def multibyte : Pattern :=
  oneOf [.seq (between 0xc2 0xdf) (between 0x80 0xbf),
    inOrder [between 0xe0 0xef, between 0x80 0xbf, between 0x80 0xbf],
    inOrder [between 0xf0 0xf4, between 0x80 0xbf, between 0x80 0xbf, between 0x80 0xbf]]

def charLiteral : Pattern :=
  inOrder [only '\'',
    oneOf [.byte fun b => b != Unroll.byte '\'' && b != Unroll.byte '\\' && b < 0x80, escapePair,
      multibyte],
    only '\'']

def name : Pattern := .seq (.byte startsName) (.star (.byte continuesName))

/-- The type names that may end an integer. -/
def integerSuffixes : List Bytes :=
  [word ['u', '8'], word ['u', '1', '6'], word ['u', '3', '2'], word ['u', '6', '4'],
    word ['u', '1', '2', '8'], word ['u', 's', 'i', 'z', 'e'], word ['i', '8'],
    word ['i', '1', '6'], word ['i', '3', '2'], word ['i', '6', '4'], word ['i', '1', '2', '8'],
    word ['i', 's', 'i', 'z', 'e']]

def integerSuffix : Pattern := optional (oneOf (integerSuffixes.map Pattern.literal))

/-- A digit, then digits and underscores. -/
def digits : Pattern := .seq (.byte isDigit) (.star (.byte continuesNumber))

def decimalLiteral : Pattern := .seq digits integerSuffix

/-- A zero, a letter, and at least one digit of the letter's base or underscore. -/
def basedLiteral (letter : Char) (isBaseDigit : UInt8 → Bool) : Pattern :=
  inOrder [only '0', only letter, plus (.byte fun b => isBaseDigit b || isUnderscore b),
    integerSuffix]

def hexLiteral : Pattern := basedLiteral 'x' isHexDigit

def octalLiteral : Pattern := basedLiteral 'o' isOctalDigit

def binaryLiteral : Pattern := basedLiteral 'b' isBinaryDigit

def exponent : Pattern :=
  inOrder [.byte fun b => b == Unroll.byte 'e' || b == Unroll.byte 'E',
    optional (.byte fun b => b == Unroll.byte '+' || b == Unroll.byte '-'), plus (.byte isDigit)]

def floatLiteral : Pattern :=
  inOrder [digits, only '.', digits, optional exponent,
    optional (.alt (literal (word ['f', '3', '2'])) (literal (word ['f', '6', '4'])))]

/-- The punctuation characters. -/
def marks : Bytes :=
  word ['~', '!', '@', '#', '$', '%', '^', '&', '*', '-', '+', '=', '|', '\\', ':', ';', ',', '.',
    '<', '>', '/', '?', '\'']

def brackets : Bytes :=
  [Bracket.round, Bracket.square, Bracket.curly].flatMap fun bracket =>
    [bracket.opener, bracket.closer]

def single (character : UInt8) : Rule := ⟨.byte (· == character), .emit (.ofByte character)⟩

def all : List Rule :=
  [⟨lineComment, .skip⟩, ⟨blockComment, .skip⟩, ⟨whiteSpace, .skip⟩,
    ⟨stringLiteral, .emit .string⟩, ⟨charLiteral, .emit .char⟩, ⟨name, .emit .ident⟩,
    ⟨decimalLiteral, .emit .int⟩, ⟨hexLiteral, .emit .int⟩, ⟨octalLiteral, .emit .int⟩,
    ⟨binaryLiteral, .emit .int⟩, ⟨floatLiteral, .emit .float⟩] ++
    (marks ++ brackets).map single

/-- The rules that are left after a byte. -/
def afterByte (b : UInt8) (rules : List Rule) : List Rule :=
  rules.filterMap fun rule =>
    let pattern := rule.pattern.derive b
    if pattern.isVoid then none else some ⟨pattern, rule.action⟩

end Rule

structure Match where
  size : Nat
  action : Action
  deriving DecidableEq, Repr

/-- The longest match at the start of a text that takes at least one byte, by the first rule among
those that match as much. -/
def longestMatch? (rules : List Rule) : Bytes → Option Match
  | [] => none
  | b :: rest =>
    let remaining := Rule.afterByte b rules
    if remaining.isEmpty then none
    else match longestMatch? remaining rest with
      | some found => some { found with size := found.size + 1 }
      | none => (remaining.find? (·.pattern.nullable)).map fun rule => ⟨1, rule.action⟩

/-- How many bytes are read before no rule is left, the last one included, or the text ends. -/
def deadEnd (rules : List Rule) : Bytes → Nat
  | [] => 0
  | b :: rest =>
    let remaining := Rule.afterByte b rules
    if remaining.isEmpty then 1 else deadEnd remaining rest + 1

theorem longestMatch?_size_pos {rules : List Rule} {text : Bytes} {found : Match}
    (matched : longestMatch? rules text = some found) : 0 < found.size := by
  cases text with
  | nil => simp [longestMatch?] at matched
  | cons b rest =>
    simp only [longestMatch?] at matched
    split at matched
    · simp at matched
    · split at matched
      · simp only [Option.some.injEq] at matched
        subst matched
        exact Nat.succ_pos _
      · obtain ⟨rule, -, rfl⟩ := Option.map_eq_some_iff.mp matched
        exact Nat.one_pos

theorem longestMatch?_nil (rules : List Rule) : longestMatch? rules [] = none := rfl

end Unroll
