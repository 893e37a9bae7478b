import Unroll.Text.Bytes

set_option autoImplicit false

/-!
# Patterns

Regular expressions over bytes. `Matches` is the language of a pattern. `derive` is its executable
counterpart: it turns a pattern into one for what may follow a byte. The constructors `followedBy`
and `either` keep the void pattern out of larger ones, so a derivative without words is the void
pattern itself and a dead end is seen at once.
-/

namespace Unroll

inductive Pattern where
  | void
  | empty
  | byte (accepts : UInt8 → Bool)
  | seq (first second : Pattern)
  | alt (left right : Pattern)
  | star (body : Pattern)

namespace Pattern

inductive Matches : Pattern → Bytes → Prop where
  | empty : Matches .empty []
  | byte {accepts single} : accepts single = true → Matches (.byte accepts) [single]
  | seq {first second head tail} :
      Matches first head → Matches second tail → Matches (.seq first second) (head ++ tail)
  | left {left right text} : Matches left text → Matches (.alt left right) text
  | right {left right text} : Matches right text → Matches (.alt left right) text
  | done {body} : Matches (.star body) []
  | more {body head tail} :
      Matches body head → Matches (.star body) tail → Matches (.star body) (head ++ tail)

def isVoid : Pattern → Bool
  | .void => true
  | _ => false

/-- Whether the empty text matches. -/
def nullable : Pattern → Bool
  | .void => false
  | .empty => true
  | .byte _ => false
  | .seq first second => first.nullable && second.nullable
  | .alt left right => left.nullable || right.nullable
  | .star _ => true

def followedBy : Pattern → Pattern → Pattern
  | .void, _ => .void
  | _, .void => .void
  | .empty, second => second
  | first, .empty => first
  | first, second => .seq first second

def either : Pattern → Pattern → Pattern
  | .void, right => right
  | left, .void => left
  | left, right => .alt left right

/-- The pattern of what may follow a byte. -/
def derive (single : UInt8) : Pattern → Pattern
  | .void => .void
  | .empty => .void
  | .byte accepts => if accepts single then .empty else .void
  | .seq first second =>
    let inFirst := (first.derive single).followedBy second
    if first.nullable then inFirst.either (second.derive single) else inFirst
  | .alt left right => (left.derive single).either (right.derive single)
  | .star body => (body.derive single).followedBy (.star body)

/-! Patterns built from others. -/

def literal : Bytes → Pattern
  | [] => .empty
  | single :: rest => .seq (.byte (· == single)) (literal rest)

def plus (body : Pattern) : Pattern := .seq body (.star body)

def optional (body : Pattern) : Pattern := .alt body .empty

def oneOf : List Pattern → Pattern
  | [] => .void
  | [only] => only
  | first :: rest => .alt first (oneOf rest)

def inOrder : List Pattern → Pattern
  | [] => .empty
  | [only] => only
  | first :: rest => .seq first (inOrder rest)

end Pattern

end Unroll
