import Unroll.Proofs.LayoutReading
import Unroll.Proofs.MadePieces

set_option autoImplicit false

/-!
# Reading an expansion

An expansion is made of spelled leaves: values become decimal literals, and what is pasted to a name
goes on as a name. So an expansion always has a text. What is not kept is which leaves stand side by
side.
-/

namespace Unroll

open Pattern

theorem Bytes.isDigit_decimal (number : Nat) :
    ∀ b ∈ Bytes.decimal number, Rule.isDigit b = true := by
  have digit : ∀ value < 10, Rule.isDigit (48 + value).toUInt8 = true := by decide
  fun_induction Bytes.decimal number with
  | case1 number small => simpa using digit number small
  | case2 number large inductionHypothesis =>
    intro b membership
    rcases List.mem_append.mp membership with inFront | isLast
    · exact inductionHypothesis b inFront
    · rw [List.mem_singleton.mp isLast]
      exact digit _ (Nat.mod_lt _ (by decide))

theorem Bytes.decimal_ne_nil (number : Nat) : Bytes.decimal number ≠ [] := by
  unfold Bytes.decimal
  split <;> simp

theorem Node.spelled_ofValue (value : UInt64) (span : Span) :
    (Node.ofValue value span).Spelled := by
  have allDigits := Bytes.isDigit_decimal value.toNat
  have nonempty := Bytes.decimal_ne_nil value.toNat
  have isInteger : Rule.decimalLiteral ∈ Rule.integers := by simp [Rule.integers]
  apply (Node.spelled_literal_iff _ _ _).mpr
  refine ⟨Rule.decimalLiteral, isInteger, ?_⟩
  generalize Bytes.decimal value.toNat = digits at allDigits nonempty
  cases digits with
  | nil => exact absurd rfl nonempty
  | cons first rest =>
    have inDigits : Matches Rule.digits (first :: rest) := by
      refine (Rule.digits_iff _).mpr ⟨first, rest, allDigits first (by simp), ?_, rfl⟩
      intro b membership
      simp [Rule.continuesNumber, allDigits b (by simp [membership])]
    have noSuffix : Matches Rule.integerSuffix [] := (matches_optional_iff _ _).mpr (.inr rfl)
    have whole := Matches.seq inDigits noSuffix
    rwa [List.append_nil] at whole

/-- What is made of spelled pieces is spelled: what is pasted to a name goes on as a name. -/
theorem Piece.Made.spelled {values : UInt64 → Prop} {given : List Piece}
    (areSpelled : ∀ piece ∈ given, piece.Spelled) {piece : Piece}
    (made : Piece.Made values given piece) : piece.Spelled := by
  induction made with
  | given membership => exact areSpelled _ membership
  | @value value isValue =>
    exact (Node.spelled_literal_iff _ _ _).mp (Node.spelled_ofValue value Span.null)
  | pasteName _ _ first second => exact Rule.name_append first (Rule.name_continuesName second)
  | @pasteValue name value _ isValue first =>
    apply Rule.name_append first
    intro b membership
    exact Rule.continuesName_of_isDigit (Bytes.isDigit_decimal value.toNat b membership)

theorem Stream.Makes.spelled {values : UInt64 → Prop} {stream out : Stream}
    (makes : Stream.Makes values stream out) (spelled : stream.Spelled) : out.Spelled := by
  intro piece membership
  exact (makes piece membership).spelled spelled

theorem Stream.spelled_expand {style : Style} {stream out : Stream}
    (spelled : Stream.Spelled stream) (expanded : stream.expand style = .ok out) :
    Stream.Spelled out :=
  (Stream.makes_expand expanded).spelled spelled

theorem Stream.spelled_of_parse {source : Bytes} {stream : Stream}
    (parsed : Stream.parse source = .ok stream) : Stream.Spelled stream :=
  (Stream.readsAs_of_parse parsed).spelled

/-- What a parsed source expands to has a text, and the text is parsed to the same stream exactly if
no piece of the expansion runs into what is written behind it. -/
theorem expansion_text_parses_iff (style : Style) (source : Bytes) (stream out : Stream)
    (parsed : Stream.parse source = .ok stream) (expanded : stream.expand style = .ok out) :
    ∃ text, out.text = .ok text ∧
      ((∃ back, Stream.parse text = .ok back ∧ Stream.alike back out = true) ↔ out.Apart) := by
  apply Stream.text_parse_iff
  exact Stream.spelled_expand (Stream.spelled_of_parse parsed) expanded

/-- A loop that writes its variable in front of a dot and a number. -/
def dottedLoop : Bytes :=
  word ['N', ' ', 'i', 'n', ' ', '0', '.', '.', '1', ' ', '\x7b', ' ', 'N', '.', '1', ' ', '\x7d']

def dottedLoopStream : Stream :=
  [.ident (word ['N']) ⟨0, 1⟩, .ident (word ['i', 'n']) ⟨2, 4⟩, .literal .int (word ['0']) ⟨5, 6⟩,
    .punct (charCode '.') .joint ⟨6, 7⟩, .punct (charCode '.') .alone ⟨7, 8⟩,
    .literal .int (word ['1']) ⟨8, 9⟩,
    .group .curly [.ident (word ['N']) ⟨12, 13⟩, .punct (charCode '.') .alone ⟨13, 14⟩,
      .literal .int (word ['1']) ⟨14, 15⟩] ⟨10, 17⟩]

def dottedExpansion : Stream :=
  [.literal .int (word ['0']) ⟨12, 13⟩, .punct (charCode '.') .alone ⟨13, 14⟩,
    .literal .int (word ['1']) ⟨14, 15⟩]

/-- The value, the dot and the number come back as one float. -/
theorem dottedExpansion_text_not_alike :
    Stream.parse dottedLoop = .ok dottedLoopStream ∧
      dottedLoopStream.expand {} = .ok dottedExpansion ∧
      ∃ text, dottedExpansion.text = .ok text ∧
        ¬ ∃ back, Stream.parse text = .ok back ∧ Stream.alike back dottedExpansion = true := by
  have parsed : Stream.parse dottedLoop = .ok dottedLoopStream := by with_unfolding_all rfl
  have expanded : dottedLoopStream.expand {} = .ok dottedExpansion := by
    with_unfolding_all rfl
  obtain ⟨text, written, reading⟩ := expansion_text_parses_iff {} _ _ _ parsed expanded
  refine ⟨parsed, expanded, text, written, ?_⟩
  intro comesBack
  have digits : Matches Rule.digits (word ['0']) := by decide
  exact (reading.mp comesBack).1 ⟨digits, byte '1', [], by decide, rfl⟩

end Unroll
