import Unroll.Proofs.NumeralReading

set_option autoImplicit false

/-!
# Spelled outputs

Whatever is done to a stream whose pieces could have been scanned, the pieces of the result could
have been scanned too. The result therefore has a text, and an integer in it is one of the stream's
own or the decimal of a value, which is read back as that value.
-/

namespace Unroll

/-- What can be made of a stream in one go, and which values may be written into it. -/
inductive Stream.Derives (stream : Stream) : (UInt64 → Prop) → Stream → Prop
  | substitute (paste : Int32) (binding : Binding) :
      Derives stream (· = binding.value) (Stream.substitute paste binding stream)
  | fill (style : Style) (header : Header) :
      Derives stream (· ∈ header.range.values) (Stream.fill style header stream).stream
  | expand {style : Style} {out : Stream} (expanded : stream.expand style = .ok out) :
      Derives stream (fun _ => True) out
  | splice {style : Style} {name : Bytes} {limit : Int} {out : Stream}
      (spliced : stream.splice (.register name (Stream.expand style) []) limit = .ok out) :
      Derives stream (fun _ => True) out

theorem Stream.Derives.makes {stream out : Stream} {values : UInt64 → Prop}
    (derives : stream.Derives values out) : Stream.Makes values stream out := by
  cases derives with
  | substitute paste binding =>
    apply Stream.makes_substitute
    rfl
  | fill style header => exact Stream.makes_fill (fun _ membership => membership) style stream
  | expand expanded => exact Stream.makes_expand expanded
  | splice spliced =>
    refine Stream.makes_splice ?_ spliced
    intro name generator registered input output generates
    rw [Generators.eq_of_get?_register registered] at generates
    exact Stream.makes_expand generates

/-- An integer that is not given is the decimal of a value. -/
theorem Piece.Made.int_cases {values : UInt64 → Prop} {given : List Piece} {raw : Bytes}
    (made : Piece.Made values given (.literal .int raw)) :
    .literal .int raw ∈ given ∨ ∃ value, values value ∧ raw = Bytes.decimal value.toNat := by
  cases made with
  | given membership => exact .inl membership
  | value isValue => exact .inr ⟨_, isValue, rfl⟩

/-- Parsed streams are spelled, and what is derived from a spelled stream is spelled. It has a text,
and each of its integers is one of the stream's or was written for a value. From an integer that is
written for a value, the value is read back. -/
theorem derived_streams_spelled :
    (∀ source stream, Stream.parse source = .ok stream → stream.Spelled) ∧
    (∀ (value : UInt64) (span : Span), ∃ raw, Node.ofValue value span = .literal .int raw span ∧
      Numeral.read raw = .ok value) ∧
    ∀ (stream out : Stream) (values : UInt64 → Prop), stream.Spelled → stream.Derives values out →
      out.Spelled ∧ (∃ text, out.text = .ok text) ∧
        ∀ raw, .literal .int raw ∈ Stream.pieces out →
          .literal .int raw ∈ Stream.pieces stream ∨ ∃ value, values value ∧
            raw = Bytes.decimal value.toNat ∧ Numeral.read raw = .ok value := by
  refine ⟨fun source stream => Stream.spelled_of_parse, ?_, ?_⟩
  · intro value span
    exact ⟨_, rfl, Numeral.read_decimal value⟩
  intro stream out values spelled derives
  have outSpelled := derives.makes.spelled spelled
  refine ⟨outSpelled, ⟨_, Stream.text_eq outSpelled⟩, ?_⟩
  intro raw membership
  rcases (derives.makes _ membership).int_cases with given | ⟨value, isValue, rfl⟩
  · exact .inl given
  · exact .inr ⟨value, isValue, rfl, Numeral.read_decimal value⟩

/-- `seq!(N in 9..11{x~N N})` -/
def pastedCall : Bytes :=
  word ['s', 'e', 'q', '!', '(', 'N', ' ', 'i', 'n', ' ', '9', '.', '.', '1', '1', '\x7b', 'x', '~',
    'N', ' ', 'N', '\x7d', ')']

def pastedCallStream : Stream :=
  [.ident (word ['s', 'e', 'q']) ⟨0, 3⟩, .punct (charCode '!') .alone ⟨3, 4⟩,
    .group .round
      [.ident (word ['N']) ⟨5, 6⟩, .ident (word ['i', 'n']) ⟨7, 9⟩,
        .literal .int (word ['9']) ⟨10, 11⟩, .punct (charCode '.') .joint ⟨11, 12⟩,
        .punct (charCode '.') .alone ⟨12, 13⟩, .literal .int (word ['1', '1']) ⟨13, 15⟩,
        .group .curly
          [.ident (word ['x']) ⟨16, 17⟩, .punct (charCode '~') .alone ⟨17, 18⟩,
            .ident (word ['N']) ⟨18, 19⟩, .ident (word ['N']) ⟨20, 21⟩] ⟨15, 22⟩] ⟨4, 23⟩]

theorem pastedCall_spelled :
    let table := Generators.register (word ['s', 'e', 'q']) (Stream.expand {}) []
    let out : Stream :=
      [.ident (word ['x', '9']) ⟨16, 17⟩, .literal .int (word ['9']) ⟨20, 21⟩,
        .ident (word ['x', '1', '0']) ⟨16, 17⟩, .literal .int (word ['1', '0']) ⟨20, 21⟩]
    Stream.parse pastedCall = .ok pastedCallStream ∧ pastedCallStream.Spelled ∧
      pastedCallStream.splice table 1 = .ok out ∧ out.Spelled ∧ (∃ text, out.text = .ok text) ∧
      ∃ value, word ['1', '0'] = Bytes.decimal value.toNat ∧
        Numeral.read (word ['1', '0']) = .ok value := by
  intro table out
  have parsed : Stream.parse pastedCall = .ok pastedCallStream := by with_unfolding_all rfl
  have spliced : pastedCallStream.splice table 1 = .ok out := by with_unfolding_all rfl
  have spelled := derived_streams_spelled.1 _ _ parsed
  obtain ⟨outSpelled, hasText, readBack⟩ :=
    derived_streams_spelled.2.2 _ out _ spelled (.splice spliced)
  refine ⟨parsed, spelled, spliced, outSpelled, hasText, ?_⟩
  have isNew : .literal .int (word ['1', '0']) ∉ Stream.pieces pastedCallStream := by decide
  have isOut : .literal .int (word ['1', '0']) ∈ Stream.pieces out := by decide
  obtain ⟨value, -, isDecimal, isRead⟩ := (readBack _ isOut).resolve_left isNew
  exact ⟨value, isDecimal, isRead⟩

end Unroll
