import Mathlib.Data.List.Induction
import Mathlib.Data.List.Infix
import Unroll.Span

set_option autoImplicit false

/-!
# Characters and positions

Characters in UTF-8 are read back one by one, so at the boundaries between them a position counts
the characters in front of it. From one boundary to a later one positions increase, first by line
and then by column.
-/

namespace Unroll

/-- The UTF-8 form of characters one behind the other: the sources that are valid UTF-8. -/
def encoded (characters : List Char) : Bytes := characters.flatMap String.utf8EncodeChar

@[simp] theorem encoded_nil : encoded [] = [] := rfl

@[simp] theorem encoded_cons (character : Char) (rest : List Char) :
    encoded (character :: rest) = String.utf8EncodeChar character ++ encoded rest := rfl

@[simp] theorem encoded_append (front back : List Char) :
    encoded (front ++ back) = encoded front ++ encoded back :=
  List.flatMap_append

theorem length_encoded_eq_zero {characters : List Char} :
    (encoded characters).length = 0 ↔ characters = [] := by
  cases characters with
  | nil => simp
  | cons character rest => simp [Nat.ne_of_gt character.utf8Size_pos]

namespace Utf8

/-! Which bytes encode a character, in numbers. -/

theorem isPair_iff (a b : UInt8) :
    isPair a b = true ↔ 0xc2 ≤ a.toNat ∧ a.toNat ≤ 0xdf ∧ 0x80 ≤ b.toNat ∧ b.toNat ≤ 0xbf := by
  simp [isPair, isTail, UInt8.le_iff_toNat_le, and_assoc]

theorem isTriple_iff (a b c : UInt8) :
    isTriple a b c = true ↔ 0xe0 ≤ a.toNat ∧ a.toNat ≤ 0xef ∧ 0x80 ≤ b.toNat ∧ b.toNat ≤ 0xbf ∧
      0x80 ≤ c.toNat ∧ c.toNat ≤ 0xbf ∧ (a.toNat = 0xe0 → 0xa0 ≤ b.toNat) ∧
      (a.toNat = 0xed → b.toNat ≤ 0x9f) := by
  simp [isTriple, isTail, UInt8.le_iff_toNat_le, ← UInt8.toNat_inj, and_assoc, imp_iff_not_or]

theorem isQuadruple_iff (a b c d : UInt8) :
    isQuadruple a b c d = true ↔ 0xf0 ≤ a.toNat ∧ a.toNat ≤ 0xf4 ∧ 0x80 ≤ b.toNat ∧
      b.toNat ≤ 0xbf ∧ 0x80 ≤ c.toNat ∧ c.toNat ≤ 0xbf ∧ 0x80 ≤ d.toNat ∧ d.toNat ≤ 0xbf ∧
      (a.toNat = 0xf0 → 0x90 ≤ b.toNat) ∧ (a.toNat = 0xf4 → b.toNat ≤ 0x8f) := by
  simp [isQuadruple, isTail, UInt8.le_iff_toNat_le, ← UInt8.toNat_inj, and_assoc, imp_iff_not_or]

/-- The forms of one encoded character. -/
inductive Encoding : Bytes → Prop
  | ascii {a : UInt8} (isAscii : a < 0x80) : Encoding [a]
  | pair {a b : UInt8} (isPair : isPair a b = true) : Encoding [a, b]
  | triple {a b c : UInt8} (isTriple : isTriple a b c = true) : Encoding [a, b, c]
  | quadruple {a b c d : UInt8} (isQuadruple : isQuadruple a b c d = true) :
      Encoding [a, b, c, d]

theorem encoding_utf8EncodeChar (character : Char) :
    Encoding (String.utf8EncodeChar character) := by
  have isScalar : character.val.toNat < 0xd800 ∨
      0xdfff < character.val.toNat ∧ character.val.toNat < 0x110000 := character.valid
  simp only [String.utf8EncodeChar]
  generalize character.val.toNat = code at isScalar ⊢
  by_cases oneByte : code ≤ 0x7f
  · rw [if_pos oneByte]
    refine .ascii (UInt8.lt_iff_toNat_lt.mpr ?_)
    rw [UInt8.toNat_ofNat']
    exact Nat.lt_of_le_of_lt (Nat.mod_le _ _) (Nat.lt_succ_of_le oneByte)
  rw [if_neg oneByte]
  by_cases twoBytes : code ≤ 0x7ff
  · rw [if_pos twoBytes]
    refine .pair ((isPair_iff _ _).mpr ?_)
    simp only [UInt8.toNat_ofNat']
    omega
  rw [if_neg twoBytes]
  by_cases threeBytes : code ≤ 0xffff
  · rw [if_pos threeBytes]
    refine .triple ((isTriple_iff _ _ _).mpr ?_)
    simp only [UInt8.toNat_ofNat']
    omega
  rw [if_neg threeBytes]
  refine .quadruple ((isQuadruple_iff _ _ _ _).mpr ?_)
  simp only [UInt8.toNat_ofNat']
  omega

theorem le_of_toNat {b : UInt8} (bound : 0x80 ≤ b.toNat) : 0x80 ≤ b :=
  UInt8.le_iff_toNat_le.mpr bound

namespace Encoding

variable {bytes : Bytes}

/-- An encoded character is one ASCII byte, or has none. -/
theorem singleton_or_forall (encoding : Encoding bytes) :
    (∃ a < 0x80, bytes = [a]) ∨ ∀ b ∈ bytes, 0x80 ≤ b := by
  cases encoding with
  | @ascii a isAscii => exact .inl ⟨a, isAscii, rfl⟩
  | pair isPair =>
    obtain ⟨first, -, second, -⟩ := (isPair_iff _ _).mp isPair
    refine .inr ?_
    simp [le_of_toNat second, le_of_toNat (Nat.le_trans (by decide) first)]
  | triple isTriple =>
    obtain ⟨first, -, second, -, third, -⟩ := (isTriple_iff _ _ _).mp isTriple
    refine .inr ?_
    simp [le_of_toNat second, le_of_toNat third, le_of_toNat (Nat.le_trans (by decide) first)]
  | quadruple isQuadruple =>
    obtain ⟨first, -, second, -, third, -, fourth, -⟩ := (isQuadruple_iff _ _ _ _).mp isQuadruple
    refine .inr ?_
    simp [le_of_toNat second, le_of_toNat third, le_of_toNat fourth,
      le_of_toNat (Nat.le_trans (by decide) first)]

/-- The decoder takes exactly the bytes of an encoded character, whatever follows. -/
theorem leading_bytes {a : UInt8} {tail : Bytes} (encoding : Encoding (a :: tail)) (rest : Bytes) :
    (leading a (tail ++ rest)).bytes = a :: tail := by
  -- longer forms are tried first, but the first byte alone rules them out
  cases encoding with
  | ascii isAscii =>
    rw [leading.eq_def, if_pos isAscii]
    rfl
  | @pair _ b isPair =>
    have bounds := (isPair_iff _ _).mp isPair
    have notAscii : ¬ a < 0x80 := UInt8.not_lt.mpr (le_of_toNat (by omega))
    have noTriple (c : UInt8) : ¬ isTriple a b c = true := by
      rw [isTriple_iff]
      omega
    have noQuadruple (c d : UInt8) : ¬ isQuadruple a b c d = true := by
      rw [isQuadruple_iff]
      omega
    rw [leading.eq_def, if_neg notAscii]
    rcases rest with _ | ⟨c, _ | ⟨d, rest⟩⟩ <;>
      simp [leading.ofPair, isPair, noTriple, noQuadruple, Glyph.bytes]
  | @triple _ b c isTriple =>
    have bounds := (isTriple_iff _ _ _).mp isTriple
    have notAscii : ¬ a < 0x80 := UInt8.not_lt.mpr (le_of_toNat (by omega))
    have noQuadruple (d : UInt8) : ¬ isQuadruple a b c d = true := by
      rw [isQuadruple_iff]
      omega
    rw [leading.eq_def, if_neg notAscii]
    cases rest <;> simp [leading.ofTriple, isTriple, noQuadruple, Glyph.bytes]
  | @quadruple _ b c d isQuadruple =>
    have bounds := (isQuadruple_iff _ _ _ _).mp isQuadruple
    have notAscii : ¬ a < 0x80 := UInt8.not_lt.mpr (le_of_toNat (by omega))
    rw [leading.eq_def, if_neg notAscii]
    simp [isQuadruple, Glyph.bytes]

theorem length_append (encoding : Encoding bytes) (rest : Bytes) :
    length (bytes ++ rest) = length rest + 1 := by
  cases bytes with
  | nil => cases encoding
  | cons a tail =>
    have taken : (leading a (tail ++ rest)).bytes.length - 1 = tail.length := by
      rw [encoding.leading_bytes, List.length_cons, Nat.add_sub_cancel]
    rw [length, List.cons_append, glyphs, List.length_cons, taken, List.drop_left, length]

end Encoding

theorem length_encoded (characters : List Char) :
    length (encoded characters) = characters.length := by
  induction characters with
  | nil => simp [length, glyphs]
  | cons character rest inductionHypothesis =>
    rw [encoded_cons, (encoding_utf8EncodeChar character).length_append, inductionHypothesis,
      List.length_cons]

theorem newline_not_mem_utf8EncodeChar {character : Char} (apart : character ≠ '\n') :
    Bytes.newline ∉ String.utf8EncodeChar character := by
  rcases (encoding_utf8EncodeChar character).singleton_or_forall with ⟨a, -, isSingle⟩ | areHigh
  · have size : character.utf8Size = 1 := by
      rw [← String.length_utf8EncodeChar, isSingle, List.length_singleton]
    have bound := UInt32.le_iff_toNat_le.mp (Char.utf8Size_eq_one_iff.mp size)
    rw [String.utf8EncodeChar_eq_singleton size, List.mem_singleton]
    intro same
    have code := congrArg UInt8.toNat same
    rw [UInt32.toNat_toUInt8] at code
    refine apart (Char.ext (UInt32.toNat_inj.mp ?_))
    change 10 = character.val.toNat % 256 at code
    change character.val.toNat ≤ 127 at bound
    change character.val.toNat = 10
    omega
  · intro membership
    exact absurd (areHigh _ membership) (by decide)

end Utf8

theorem count_newline_encoded (characters : List Char) :
    (encoded characters).count Bytes.newline = characters.count '\n' := by
  induction characters with
  | nil => rfl
  | cons character rest inductionHypothesis =>
    rw [encoded_cons, List.count_append, inductionHypothesis]
    by_cases isNewline : character = '\n'
    · subst isNewline
      rw [List.count_cons_self, Nat.add_comm]
      rfl
    · rw [List.count_cons_of_ne isNewline,
        List.count_eq_zero.mpr (Utf8.newline_not_mem_utf8EncodeChar isNewline), Nat.zero_add]

section LastPart

variable {α : Type} [DecidableEq α] {separator : α}

/-- The items behind the last occurrence of a separator. -/
def lastPart (separator : α) (items : List α) : List α :=
  (items.reverse.takeWhile (· ≠ separator)).reverse

theorem lastPart_append (front : List α) {back : List α} (apart : separator ∉ back) :
    lastPart separator (front ++ back) = lastPart separator front ++ back := by
  have passed : ∀ item ∈ back.reverse, decide (item ≠ separator) = true := by
    intro item membership
    apply decide_eq_true
    rintro rfl
    exact apart (List.mem_reverse.mp membership)
  rw [lastPart, List.reverse_append, List.takeWhile_append_of_pos passed, List.reverse_append,
    List.reverse_reverse, lastPart]

theorem lastPart_concat (front : List α) : lastPart separator (front ++ [separator]) = [] := by
  simp [lastPart]

end LastPart

theorem lastPart_encoded (characters : List Char) :
    lastPart Bytes.newline (encoded characters) = encoded (lastPart '\n' characters) := by
  induction characters using List.reverseRecOn with
  | nil => rfl
  | append_singleton front character inductionHypothesis =>
    have single : encoded [character] = String.utf8EncodeChar character := List.append_nil _
    by_cases isNewline : character = '\n'
    · subst isNewline
      rw [encoded_append, lastPart_concat]
      exact lastPart_concat (encoded front)
    · have inBytes := Utf8.newline_not_mem_utf8EncodeChar isNewline
      rw [← single] at inBytes
      have inCharacters : '\n' ∉ [character] := fun membership =>
        isNewline (List.mem_singleton.mp membership).symm
      rw [encoded_append, lastPart_append _ inBytes, inductionHypothesis, ← encoded_append,
        lastPart_append _ inCharacters]

namespace Position

/-- The position behind some characters: one more than the newlines among them, and one more than
the characters behind the last of these. -/
def behind (front : List Char) : Position :=
  ⟨front.count '\n' + 1, (lastPart '\n' front).length + 1⟩

theorem ofOffset_encoded (front back : List Char) :
    ofOffset (encoded (front ++ back)) (encoded front).length = behind front := by
  have column : ofOffset (encoded (front ++ back)) (encoded front).length =
      ⟨(encoded front).count Bytes.newline + 1,
        Utf8.length (lastPart Bytes.newline (encoded front)) + 1⟩ := by
    rw [ofOffset, encoded_append, List.take_left]
    rfl
  rw [column, count_newline_encoded, lastPart_encoded, Utf8.length_encoded, behind]

/-- An offset behind the end is the end. -/
theorem ofOffset_of_length_le {source : Bytes} {offset : Nat} (behindEnd : source.length ≤ offset) :
    ofOffset source offset = ofOffset source source.length := by
  rw [ofOffset, ofOffset, List.take_of_length_le behindEnd, List.take_length]

/-- An earlier line, or an earlier column of the same line. -/
def Precedes (earlier later : Position) : Prop :=
  earlier.line < later.line ∨ earlier.line = later.line ∧ earlier.column < later.column

theorem Precedes.asymm {position other : Position} (first : position.Precedes other) :
    ¬ other.Precedes position := by
  simp only [Precedes] at *
  omega

theorem behind_precedes (front : List Char) {middle : List Char} (nonempty : middle ≠ []) :
    (behind front).Precedes (behind (front ++ middle)) := by
  by_cases newLine : '\n' ∈ middle
  · have counted : 0 < middle.count '\n' := List.count_pos_iff.mpr newLine
    left
    simp only [behind, List.count_append]
    omega
  · have counted : middle.count '\n' = 0 := List.count_eq_zero.mpr newLine
    have longer : 0 < middle.length := List.length_pos_iff.mpr nonempty
    right
    simp only [behind, List.count_append, lastPart_append _ newLine, List.length_append]
    omega

end Position

/-- The offset lies between two characters, or at the beginning or the end of them. -/
def IsBoundary (characters : List Char) (offset : Nat) : Prop :=
  ∃ front, front <+: characters ∧ (encoded front).length = offset

instance (characters : List Char) (offset : Nat) : Decidable (IsBoundary characters offset) :=
  decidable_of_iff (offset ∈ characters.inits.map fun front => (encoded front).length) (by
    simp only [List.mem_map, List.mem_inits, IsBoundary])

namespace IsBoundary

variable {characters : List Char}

theorem zero (characters : List Char) : IsBoundary characters 0 := ⟨[], List.nil_prefix, rfl⟩

theorem length (characters : List Char) : IsBoundary characters (encoded characters).length :=
  ⟨characters, List.prefix_rfl, rfl⟩

/-- A byte of ASCII is a character of its own. -/
theorem behind_ascii {index : Nat} {b : UInt8} (isByte : (encoded characters)[index]? = some b)
    (isAscii : b < 0x80) : IsBoundary characters (index + 1) := by
  induction characters generalizing index with
  | nil => cases isByte
  | cons character rest inductionHypothesis =>
    rw [encoded_cons] at isByte
    by_cases inFirst : index < (String.utf8EncodeChar character).length
    · rw [List.getElem?_append_left inFirst] at isByte
      have encoding := Utf8.encoding_utf8EncodeChar character
      rcases encoding.singleton_or_forall with ⟨a, -, isSingle⟩ | areHigh
      · refine ⟨[character], List.prefix_append [character] rest, ?_⟩
        rw [isSingle, List.length_singleton] at inFirst
        rw [encoded_cons, encoded_nil, List.append_nil, isSingle, List.length_singleton]
        omega
      · exact absurd isAscii (UInt8.not_lt.mpr (areHigh b (List.mem_of_getElem? isByte)))
    · rw [List.getElem?_append_right (Nat.le_of_not_lt inFirst)] at isByte
      obtain ⟨front, isFront, size⟩ := inductionHypothesis isByte
      refine ⟨character :: front, List.cons_prefix_cons.mpr ⟨rfl, isFront⟩, ?_⟩
      rw [encoded_cons, List.length_append, size]
      omega

end IsBoundary

section Order

variable {characters front front' : List Char}

theorem front_eq_of_length_eq (isFront : front <+: characters) (isFront' : front' <+: characters)
    (same : (encoded front).length = (encoded front').length) : front = front' := by
  rcases List.prefix_or_prefix_of_prefix isFront isFront' with ⟨middle, rfl⟩ | ⟨middle, rfl⟩
  · rw [encoded_append, List.length_append, Nat.left_eq_add] at same
    rw [length_encoded_eq_zero.mp same, List.append_nil]
  · rw [encoded_append, List.length_append, Nat.add_eq_left] at same
    rw [length_encoded_eq_zero.mp same, List.append_nil]

namespace Position

/-- From one boundary to a later one positions increase. -/
theorem precedes_of_lt (isFront : front <+: characters) (isFront' : front' <+: characters)
    (earlier : (encoded front).length < (encoded front').length) :
    (behind front).Precedes (behind front') := by
  rcases List.prefix_or_prefix_of_prefix isFront isFront' with ⟨middle, rfl⟩ | ⟨middle, rfl⟩
  · apply behind_precedes
    rintro rfl
    rw [List.append_nil] at earlier
    exact Nat.lt_irrefl _ earlier
  · rw [encoded_append, List.length_append] at earlier
    omega

theorem precedes_behind_iff (isFront : front <+: characters) (isFront' : front' <+: characters) :
    (encoded front).length < (encoded front').length ↔ (behind front).Precedes (behind front') := by
  refine ⟨precedes_of_lt isFront isFront', ?_⟩
  intro precedes
  rcases Nat.lt_trichotomy (encoded front).length (encoded front').length with
    earlier | same | later
  · exact earlier
  · rw [front_eq_of_length_eq isFront isFront' same] at precedes
    exact absurd precedes precedes.asymm
  · exact absurd precedes (precedes_of_lt isFront' isFront later).asymm

theorem behind_eq_iff (isFront : front <+: characters) (isFront' : front' <+: characters) :
    (encoded front).length = (encoded front').length ↔ behind front = behind front' := by
  refine ⟨fun same => congrArg behind (front_eq_of_length_eq isFront isFront' same), ?_⟩
  intro samePosition
  by_contra apart
  rcases Nat.lt_or_gt_of_ne apart with earlier | later
  · have precedes := precedes_of_lt isFront isFront' earlier
    rw [samePosition] at precedes
    exact precedes.asymm precedes
  · have precedes := precedes_of_lt isFront' isFront later
    rw [samePosition] at precedes
    exact precedes.asymm precedes

end Position

end Order

end Unroll
