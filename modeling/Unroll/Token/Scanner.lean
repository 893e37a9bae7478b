import Unroll.Token.Rules

set_option autoImplicit false

/-!
# Scanning

A scanner reads a source token by token. Where no rule matches, it reports a fault once and behaves
from then on as if the source had ended there.
-/

namespace Unroll

/-- Line and column of a byte, counting the byte itself: a newline is column zero of the line it
begins. -/
def bytePosition (source : Bytes) (offset : Nat) : Position :=
  let through := source.take (offset + 1)
  ⟨through.count Bytes.newline + 1, (through.reverse.takeWhile (· ≠ Bytes.newline)).length⟩

/-- The fault of a source on which scanning stops at `start` with `read` bytes read in vain. -/
def unscannableAt (source : Bytes) (start read : Nat) : Fault :=
  let failing := start + read
  .diagnosed ⟨start, failing + 1⟩ (.unscannable
    { first := bytePosition source start
      failing := bytePosition source (min failing (source.length - 1))
      unmatched := (source.drop start).take (max 1 read) })

/-- The state of a scanner: the whole source, the offset reached and the rest from there, and
whether scanning has stopped. -/
structure Scanner where
  source : Bytes
  offset : Nat
  rest : Bytes
  stopped : Bool

/-- What stands next in a text: a token with what follows it, the end, or text that no rule
matches. -/
inductive Scanned where
  | token (token : Token) (offset : Nat) (rest : Bytes)
  | finished
  | stuck (offset : Nat) (rest : Bytes)

namespace Scanner

def ofSource (source : Bytes) : Scanner := ⟨source, 0, source, false⟩

/-- Passes over skipped matches up to the next token. -/
def find (offset : Nat) (rest : Bytes) : Scanned :=
  match rest with
  | [] => .finished
  | b :: tail =>
    match matched : longestMatch? Rule.all (b :: tail) with
    | none => .stuck offset (b :: tail)
    | some ⟨size, .emit kind⟩ =>
      .token ⟨kind, (b :: tail).take size, ⟨offset, offset + size⟩⟩ (offset + size)
        ((b :: tail).drop size)
    | some ⟨size, .skip⟩ =>
      have : 0 < size := longestMatch?_size_pos matched
      find (offset + size) ((b :: tail).drop size)
termination_by rest.length

/-- One step: the next token, the fault it reports, and the scanner behind it. -/
def next (scanner : Scanner) : Token × Option Fault × Scanner :=
  if scanner.stopped then (Token.ending, none, scanner)
  else match find scanner.offset scanner.rest with
    | .token token offset rest => (token, none, { scanner with offset, rest })
    | .finished => (Token.ending, none, { scanner with rest := [] })
    | .stuck offset rest =>
      let read := deadEnd Rule.all rest
      (⟨.eof, [], ⟨offset, offset + read + 1⟩⟩, some (unscannableAt scanner.source offset read),
        { scanner with offset, rest, stopped := true })

theorem find_token_length {offset offset' : Nat} {rest rest' : Bytes} {token : Token}
    (found : find offset rest = .token token offset' rest') : rest'.length < rest.length := by
  fun_induction find offset rest with
  | case1 => simp at found
  | case2 => simp at found
  | case3 offset b tail size kind matched =>
    have positive : 0 < size := longestMatch?_size_pos matched
    simp only [Scanned.token.injEq] at found
    obtain ⟨-, -, rfl⟩ := found
    simp only [List.length_drop, List.length_cons]
    omega
  | case4 offset b tail size matched positive inductionHypothesis =>
    have shorter := inductionHypothesis found
    simp only [List.length_drop, List.length_cons] at shorter ⊢
    omega

/-- Everything that a scanner yields, up to and including the token at the end. -/
def events (scanner : Scanner) : List Event :=
  if scanner.stopped then [.token Token.ending]
  else match found : find scanner.offset scanner.rest with
    | .token token offset rest => .token token :: events { scanner with offset, rest }
    | .finished => [.token Token.ending]
    | .stuck offset rest =>
      let read := deadEnd Rule.all rest
      [.report (unscannableAt scanner.source offset read),
        .token ⟨.eof, [], ⟨offset, offset + read + 1⟩⟩]
termination_by scanner.rest.length
decreasing_by exact find_token_length found

end Scanner

end Unroll
