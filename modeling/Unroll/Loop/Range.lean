import Unroll.Tree.Basic

set_option autoImplicit false

/-!
# Ranges

A loop runs its variable over the 64-bit numbers from a first one up to a last one, which belongs
to the range only if it is inclusive.
-/

namespace Unroll

structure Range where
  start : UInt64
  stop : UInt64
  inclusive : Bool
  deriving DecidableEq, Repr

namespace Range

/-- The values of a range from `value` on. The counter is only raised while it is below the stop,
so it cannot wrap around. -/
def valuesFrom (stop : UInt64) (inclusive : Bool) (value : UInt64) : List UInt64 :=
  if value < stop then value :: valuesFrom stop inclusive (value + 1)
  else if value = stop ∧ inclusive = true then [value]
  else []
termination_by stop.toNat - value.toNat
decreasing_by
  rename_i below
  have bound := UInt64.lt_iff_toNat_lt.mp below
  have fits := stop.toNat_lt
  rw [UInt64.toNat_add, UInt64.toNat_one, Nat.mod_eq_of_lt (by omega)]
  omega

def values (range : Range) : List UInt64 := valuesFrom range.stop range.inclusive range.start

/-- The first `count` values from `value` on, without looking at the others. -/
def firstFrom (stop : UInt64) (inclusive : Bool) : (count : Nat) → (value : UInt64) → List UInt64
  | 0, _ => []
  | count + 1, value =>
    if value < stop then value :: firstFrom stop inclusive count (value + 1)
    else if value = stop ∧ inclusive = true then [value]
    else []

def first (count : Nat) (range : Range) : List UInt64 :=
  firstFrom range.stop range.inclusive count range.start

/-- The number of values. The one range that has 2^64 of them counts one less. -/
def length (range : Range) : UInt64 :=
  if range.stop < range.start then 0
  else
    let distance := range.stop - range.start
    if range.inclusive ∧ distance < 0xffffffffffffffff then distance + 1 else distance

end Range

/-- What a header says: a variable, where it was named, and the range it runs over. -/
structure Header where
  variableName : Bytes
  variableSpan : Span
  range : Range
  deriving DecidableEq, Repr

namespace Header

def text (header : Header) : Bytes :=
  header.variableName ++ utf8 " in " ++ Bytes.decimal header.range.start.toNat ++ utf8 ".." ++
    (if header.range.inclusive then utf8 "=" else []) ++ Bytes.decimal header.range.stop.toNat

end Header

end Unroll
