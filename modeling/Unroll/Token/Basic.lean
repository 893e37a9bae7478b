import Unroll.Fault

set_option autoImplicit false

/-!
# Tokens

A token has a kind, the bytes it was read from, and their span. Kinds are numbered: a bracket or a
punctuation character has its own code, all other kinds are negative. A number that is neither
counts as punctuation.
-/

namespace Unroll

inductive Kind where
  | eof
  | ident
  | int
  | float
  | string
  | char
  | opening (bracket : Bracket)
  | closing (bracket : Bracket)
  | mark (code : Int64)
  deriving DecidableEq, Repr

namespace Kind

def ofNumber (number : Int64) : Kind :=
  if number = -1 then .eof
  else if number = -2 then .ident
  else if number = -3 then .int
  else if number = -4 then .float
  else if number = -5 then .string
  else if number = -6 then .char
  else if number = 40 then .opening .round
  else if number = 41 then .closing .round
  else if number = 91 then .opening .square
  else if number = 93 then .closing .square
  else if number = 123 then .opening .curly
  else if number = 125 then .closing .curly
  else .mark number

def number : Kind → Int64
  | .eof => -1
  | .ident => -2
  | .int => -3
  | .float => -4
  | .string => -5
  | .char => -6
  | .opening bracket => Int64.ofNat bracket.opener.toNat
  | .closing bracket => Int64.ofNat bracket.closer.toNat
  | .mark code => code

def ofByte (single : UInt8) : Kind := ofNumber (Int64.ofNat single.toNat)

end Kind

structure Token where
  kind : Kind
  lexeme : Bytes
  span : Span
  deriving DecidableEq, Repr

namespace Token

def text (token : Token) : Bytes := Text.quoted token.lexeme ++ token.span.text

/-- The token behind the last one. -/
def ending : Token := ⟨.eof, [], Span.null⟩

end Token

/-- What a source of tokens yields: a token, or the report of a fault after which it goes on. -/
inductive Event where
  | token (token : Token)
  | report (fault : Fault)

end Unroll
