import Unroll.Text.Utf8

set_option autoImplicit false

/-!
# Spans and positions

A span is a pair of byte offsets into a source. The pair of two zeros is the null span, carried by
everything without a place in a source. Positions count lines and characters from one.
-/

namespace Unroll

structure Span where
  start : Nat
  stop : Nat
  deriving DecidableEq, Repr, Inhabited

namespace Span

def null : Span := ⟨0, 0⟩

def isNull (span : Span) : Bool := span == null

/-- The number of bytes between the offsets, in 64-bit arithmetic: if the offsets are in the wrong
order it wraps around. -/
def length (span : Span) : Nat :=
  (span.stop + 0x10000000000000000 - span.start) % 0x10000000000000000

/-- The smallest span that covers both. The null span adds nothing on the left. On the right it is
an ordinary pair of offsets. -/
def extend (span other : Span) : Span :=
  if span.isNull then other else ⟨min span.start other.start, max span.stop other.stop⟩

def text (span : Span) : Bytes :=
  utf8 "(" ++ Bytes.decimal span.start ++ utf8 "…" ++ Bytes.decimal span.stop ++ utf8 ")"

end Span

structure Position where
  line : Nat
  column : Nat
  deriving DecidableEq, Repr

/-- The position behind the first `offset` bytes of a source: one more than the newlines among
them, and one more than the characters behind the last of these. -/
def Position.ofOffset (source : Bytes) (offset : Nat) : Position :=
  let before := source.take offset
  ⟨before.count Bytes.newline + 1,
    Utf8.length (before.reverse.takeWhile (· ≠ Bytes.newline)).reverse + 1⟩

/-- Offsets from here on are out of range for a position. -/
def Position.offsetLimit : Nat := 0x8000000000000000

/-- The position of a span's start. An offset behind the end of the source is the end. -/
def Span.position? (span : Span) (source : Bytes) : Option Position :=
  if span.start < Position.offsetLimit then some (.ofOffset source span.start) else none

end Unroll
