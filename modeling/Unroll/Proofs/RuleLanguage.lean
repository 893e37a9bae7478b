import Unroll.Proofs.Scanning

set_option autoImplicit false

/-!
# The languages of the rules

Which byte each rule starts with, and what its words look like as far as scanning depends on it: the
rules of one first byte are all that compete for a lexeme.
-/

namespace Unroll

/-- A property of the listed bytes is checked on the list, not on all bytes. -/
theorem Bytes.forall_mem_of_all {bytes : Bytes} {accepts : UInt8 → Prop} [DecidablePred accepts]
    (checked : bytes.all (fun b => decide (accepts b)) = true) : ∀ b ∈ bytes, accepts b := by
  intro b membership
  exact of_decide_eq_true (List.all_eq_true.mp checked b membership)

namespace Rule

open Pattern

/-! Classes of bytes. -/

theorem single_apart : ∀ character ∈ marks ++ brackets,
    startsName character = false ∧ isDigit character = false ∧ isSpace character = false ∧
      character ≠ byte '"' := by
  apply Bytes.forall_mem_of_all
  decide

theorem startsName_apart {b : UInt8} (starts : startsName b = true) :
    isDigit b = false ∧ isSpace b = false ∧ b ≠ byte '"' ∧ b ≠ byte '\'' ∧ b ≠ byte '/' := by
  simp only [startsName, isLower, isUpper, isUnderscore, isDigit, isSpace, byte] at *
  grind

theorem isDigit_apart {b : UInt8} (digit : isDigit b = true) :
    startsName b = false ∧ isSpace b = false ∧ b ≠ byte '"' ∧ b ≠ byte '\'' ∧ b ≠ byte '/' := by
  simp only [startsName, isLower, isUpper, isUnderscore, isDigit, isSpace, byte] at *
  grind

theorem isSpace_apart {b : UInt8} (space : isSpace b = true) :
    startsName b = false ∧ isDigit b = false ∧ b ≠ byte '"' ∧ b ≠ byte '\'' ∧ b ≠ byte '/' := by
  simp only [startsName, isLower, isUpper, isUnderscore, isDigit, isSpace, byte] at *
  grind

theorem continuesName_of_isDigit {b : UInt8} (digit : isDigit b = true) :
    continuesName b = true := by
  simp [continuesName, digit]

theorem continuesName_of_continuesNumber {b : UInt8} (continues : continuesNumber b = true) :
    continuesName b = true := by
  simp only [continuesNumber, continuesName, Bool.or_eq_true] at *
  grind

theorem continuesName_of_startsName {b : UInt8} (starts : startsName b = true) :
    continuesName b = true := by
  simp only [startsName, continuesName, Bool.or_eq_true] at *
  grind

theorem continuesName_of_basedDigit {isBaseDigit : UInt8 → Bool}
    (isName : ∀ b, isBaseDigit b = true → continuesName b = true) {b : UInt8}
    (accepted : (isBaseDigit b || isUnderscore b) = true) : continuesName b = true := by
  rcases (Bool.or_eq_true _ _).mp accepted with digit | underscore
  · exact isName b digit
  · simp [continuesName, underscore]

theorem nameByte_apart {b : UInt8} (continues : continuesName b = true) :
    b ≠ byte '.' ∧ (continuesName b = true ∨ b = byte '+' ∨ b = byte '-') := by
  refine ⟨?_, .inl continues⟩
  rintro rfl
  revert continues
  decide

/-! First bytes. -/

theorem lineComment_iff (text : Bytes) :
    Matches lineComment text ↔ ∃ rest, text = byte '/' :: byte '/' :: rest ∧
      Matches (inOrder [.star (.byte (· != Bytes.newline)), optional (only '\n')]) rest := by
  simp only [lineComment, only, inOrder, matches_byteSeq_iff, beq_iff_eq]
  constructor
  · rintro ⟨_, _, rfl, ⟨_, rest, rfl, inRest, rfl⟩, rfl⟩
    exact ⟨rest, rfl, inRest⟩
  · rintro ⟨rest, rfl, inRest⟩
    exact ⟨_, _, rfl, ⟨_, rest, rfl, inRest, rfl⟩, rfl⟩

theorem lineComment_shape (text : Bytes) :
    Matches lineComment text ↔ ∃ line ending, (∀ b ∈ line, b ≠ Bytes.newline) ∧
      (ending = [Bytes.newline] ∨ ending = []) ∧
      text = byte '/' :: byte '/' :: (line ++ ending) := by
  have isNewline : byte '\n' = Bytes.newline := rfl
  simp only [lineComment_iff, inOrder, matches_seq_iff, matches_star_byte_iff, matches_optional_iff,
    only, matches_byte_iff, bne_iff_ne, beq_iff_eq, exists_eq_left, isNewline]
  constructor
  · rintro ⟨_, rfl, line, ending, inLine, isEnding, rfl⟩
    exact ⟨line, ending, inLine, isEnding, rfl⟩
  · rintro ⟨line, ending, inLine, isEnding, rfl⟩
    exact ⟨_, rfl, line, ending, inLine, isEnding, rfl⟩

/-- What stands between the two brackets of a block comment. -/
def commentPart : Pattern :=
  .alt (.byte (· != Unroll.byte '*'))
    (.seq (plus (only '*')) (.byte fun b => b != Unroll.byte '*' && b != Unroll.byte '/'))

theorem blockComment_iff (text : Bytes) :
    Matches blockComment text ↔ ∃ rest, text = byte '/' :: byte '*' :: rest ∧
      Matches (inOrder [.star commentPart, plus (only '*'), only '/']) rest := by
  simp only [blockComment, only, inOrder, matches_byteSeq_iff, beq_iff_eq]
  constructor
  · rintro ⟨_, _, rfl, ⟨_, rest, rfl, inRest, rfl⟩, rfl⟩
    exact ⟨rest, rfl, inRest⟩
  · rintro ⟨rest, rfl, inRest⟩
    exact ⟨_, _, rfl, ⟨_, rest, rfl, inRest, rfl⟩, rfl⟩

theorem name_iff (text : Bytes) :
    Matches name text ↔ ∃ b rest, startsName b = true ∧
      (∀ other ∈ rest, continuesName other = true) ∧ text = b :: rest := by
  simp only [name, matches_byteSeq_iff, matches_star_byte_iff]

theorem name_continuesName {text : Bytes} (matched : Matches name text) :
    ∀ b ∈ text, continuesName b = true := by
  obtain ⟨first, rest, starts, inRest, rfl⟩ := (name_iff text).mp matched
  intro b membership
  rcases List.mem_cons.mp membership with rfl | inTail
  · exact continuesName_of_startsName starts
  · exact inRest b inTail

theorem name_append {text more : Bytes} (matched : Matches name text)
    (continues : ∀ b ∈ more, continuesName b = true) : Matches name (text ++ more) := by
  obtain ⟨first, rest, starts, inRest, rfl⟩ := (name_iff text).mp matched
  apply (name_iff _).mpr
  refine ⟨first, rest ++ more, starts, ?_, List.cons_append⟩
  exact List.forall_mem_append.mpr ⟨inRest, continues⟩

theorem digits_iff (text : Bytes) :
    Matches digits text ↔ ∃ b rest, isDigit b = true ∧
      (∀ other ∈ rest, continuesNumber other = true) ∧ text = b :: rest := by
  simp only [digits, matches_byteSeq_iff, matches_star_byte_iff]

theorem onlySeq_shape {character : Char} {inside : Pattern} (proper : inside.nullable = false)
    {text : Bytes} (matched : Matches (.seq (only character) inside) text) :
    ∃ b rest, text = byte character :: b :: rest := by
  simp only [only, matches_byteSeq_iff, beq_iff_eq] at matched
  obtain ⟨_, rest, rfl, inInside, rfl⟩ := matched
  cases rest with
  | nil => exact absurd inInside (not_matches_nil proper)
  | cons b rest => exact ⟨b, rest, rfl⟩

theorem onlySeq_cons {character : Char} {inside : Pattern} {b : UInt8} {text : Bytes}
    (matched : Matches (.seq (only character) inside) (b :: text)) : b = byte character := by
  simp only [only, matches_byteSeq_iff, beq_iff_eq] at matched
  obtain ⟨_, _, rfl, -, same⟩ := matched
  exact (List.cons.inj same).1

theorem digits_append_cons {b : UInt8} {head rest text : Bytes} (inDigits : Matches digits head)
    (same : b :: text = head ++ rest) : isDigit b = true := by
  obtain ⟨first, _, digit, -, rfl⟩ := (digits_iff head).mp inDigits
  rw [List.cons_append, List.cons.injEq] at same
  rw [same.1]
  exact digit

theorem decimalLiteral_cons {b : UInt8} {text : Bytes}
    (matched : Matches decimalLiteral (b :: text)) : isDigit b = true := by
  obtain ⟨head, rest, inDigits, -, same⟩ := (matches_seq_iff _ _ _).mp matched
  exact digits_append_cons inDigits same

theorem floatLiteral_cons {b : UInt8} {text : Bytes}
    (matched : Matches floatLiteral (b :: text)) : isDigit b = true := by
  obtain ⟨head, rest, inDigits, -, same⟩ := (matches_inOrder_cons_iff _ _ _).mp matched
  exact digits_append_cons inDigits same

theorem basedLiteral_cons {letter : Char} {isBaseDigit : UInt8 → Bool} {b : UInt8} {text : Bytes}
    (matched : Matches (basedLiteral letter isBaseDigit) (b :: text)) : isDigit b = true := by
  rw [onlySeq_cons matched]
  decide

theorem single_iff (character : UInt8) (text : Bytes) :
    Matches (single character).pattern text ↔ text = [character] := by
  simp [single]

/-- The rules of integers. -/
def integers : List Pattern := [decimalLiteral, hexLiteral, octalLiteral, binaryLiteral]

theorem mem_integers_iff (pattern : Pattern) :
    pattern ∈ integers ↔ pattern = decimalLiteral ∨ pattern = hexLiteral ∨
      pattern = octalLiteral ∨ pattern = binaryLiteral := by
  simp [integers]

/-- The rules that may match a text, told by its first byte. -/
inductive Competes : Rule → UInt8 → Bytes → Prop where
  | lineComment {text} : Competes ⟨lineComment, .skip⟩ (byte '/') text
  | blockComment {text} : Competes ⟨blockComment, .skip⟩ (byte '/') text
  | whiteSpace {b text} : isSpace b = true → Competes ⟨whiteSpace, .skip⟩ b text
  | string {text} : Competes ⟨stringLiteral, .emit .string⟩ (byte '"') text
  | char {text} : Competes ⟨charLiteral, .emit .char⟩ (byte '\'') text
  | name {b text} : startsName b = true → Competes ⟨name, .emit .ident⟩ b text
  | integer {pattern b text} : isDigit b = true → pattern ∈ integers →
      Competes ⟨pattern, .emit .int⟩ b text
  | float {b text} : isDigit b = true → Competes ⟨floatLiteral, .emit .float⟩ b text
  | single {b} : b ∈ marks ++ brackets → Competes (single b) b []

theorem competes {rule : Rule} {b : UInt8} {text : Bytes} (membership : rule ∈ all)
    (matched : Matches rule.pattern (b :: text)) : Competes rule b text := by
  rcases (mem_all_iff rule).mp membership with
    rfl | rfl | rfl | rfl | rfl | rfl | rfl | rfl | rfl | rfl | rfl | ⟨character, isSingle, rfl⟩
  · rw [onlySeq_cons matched]
    exact .lineComment
  · rw [onlySeq_cons matched]
    exact .blockComment
  · exact .whiteSpace (((matches_plus_byte_iff _ _).mp matched).2 b (by simp))
  · rw [onlySeq_cons matched]
    exact .string
  · rw [onlySeq_cons matched]
    exact .char
  · obtain ⟨_, _, starts, -, same⟩ := (name_iff _).mp matched
    rw [(List.cons.inj same).1]
    exact .name starts
  · exact .integer (decimalLiteral_cons matched) (by simp [integers])
  · exact .integer (basedLiteral_cons matched) (by simp [integers])
  · exact .integer (basedLiteral_cons matched) (by simp [integers])
  · exact .integer (basedLiteral_cons matched) (by simp [integers])
  · exact .float (floatLiteral_cons matched)
  · have same := (single_iff character _).mp matched
    rw [List.cons.injEq] at same
    obtain ⟨rfl, rfl⟩ := same
    exact .single isSingle

theorem integer_mem_all {pattern : Pattern} (isInteger : pattern ∈ integers) :
    (⟨pattern, .emit .int⟩ : Rule) ∈ all := by
  rcases (mem_integers_iff _).mp isInteger with rfl | rfl | rfl | rfl <;> simp [all]

theorem single_mem_all {character : UInt8} (isSingle : character ∈ marks ++ brackets) :
    single character ∈ all := by
  apply List.mem_append_right
  exact List.mem_map_of_mem isSingle

/-! Numbers. -/

theorem integerSuffix_iff (text : Bytes) :
    Matches integerSuffix text ↔ text = [] ∨ text ∈ integerSuffixes := by
  rw [integerSuffix, matches_optional_iff, matches_oneOf_iff, or_comm]
  simp

theorem integerSuffix_continuesName {text : Bytes} (matched : Matches integerSuffix text) :
    ∀ b ∈ text, continuesName b = true := by
  have checked : ∀ suffix ∈ integerSuffixes, suffix.all continuesName = true := by decide
  rcases (integerSuffix_iff text).mp matched with rfl | isSuffix
  · simp
  · exact List.all_eq_true.mp (checked text isSuffix)

theorem digits_continuesNumber {text : Bytes} (matched : Matches digits text) :
    ∀ b ∈ text, continuesNumber b = true := by
  obtain ⟨first, rest, digit, inRest, rfl⟩ := (digits_iff text).mp matched
  intro b membership
  rcases List.mem_cons.mp membership with rfl | inTail
  · simp [continuesNumber, digit]
  · exact inRest b inTail

theorem basedLiteral_iff (letter : Char) (isBaseDigit : UInt8 → Bool) (text : Bytes) :
    Matches (basedLiteral letter isBaseDigit) text ↔
      ∃ body suffix, (body ≠ [] ∧ ∀ b ∈ body, (isBaseDigit b || isUnderscore b) = true) ∧
        Matches integerSuffix suffix ∧ text = byte '0' :: byte letter :: (body ++ suffix) := by
  simp only [basedLiteral, only, inOrder, matches_byteSeq_iff, beq_iff_eq]
  simp only [matches_seq_iff, matches_plus_byte_iff]
  constructor
  · rintro ⟨_, _, rfl, ⟨_, _, rfl, ⟨body, suffix, inBody, inSuffix, rfl⟩, rfl⟩, rfl⟩
    exact ⟨body, suffix, inBody, inSuffix, rfl⟩
  · rintro ⟨body, suffix, inBody, inSuffix, rfl⟩
    exact ⟨_, _, rfl, ⟨_, _, rfl, ⟨body, suffix, inBody, inSuffix, rfl⟩, rfl⟩, rfl⟩

theorem basedLiteral_continuesName {letter : Char} {isBaseDigit : UInt8 → Bool}
    (isLetter : continuesName (byte letter) = true)
    (isName : ∀ b, isBaseDigit b = true → continuesName b = true) {text : Bytes}
    (matched : Matches (basedLiteral letter isBaseDigit) text) :
    ∀ b ∈ text, continuesName b = true := by
  obtain ⟨body, suffix, ⟨-, inBody⟩, inSuffix, rfl⟩ := (basedLiteral_iff _ _ _).mp matched
  intro b membership
  simp only [List.mem_cons, List.mem_append] at membership
  rcases membership with rfl | rfl | inFront | inTail
  · decide
  · exact isLetter
  · exact continuesName_of_basedDigit isName (inBody b inFront)
  · exact integerSuffix_continuesName inSuffix b inTail

theorem isHexDigit_continuesName (b : UInt8) (digit : isHexDigit b = true) :
    continuesName b = true := by
  simp only [isHexDigit, continuesName, isLower, isUpper, isDigit] at *
  grind

theorem isOctalDigit_continuesName (b : UInt8) (digit : isOctalDigit b = true) :
    continuesName b = true := by
  simp only [isOctalDigit, continuesName, isDigit] at *
  grind

theorem isBinaryDigit_continuesName (b : UInt8) (digit : isBinaryDigit b = true) :
    continuesName b = true := by
  simp only [isBinaryDigit, Bool.or_eq_true, beq_iff_eq] at digit
  rcases digit with rfl | rfl
  · decide
  · decide

/-- An integer holds nothing that could not stand in a name. -/
theorem integer_continuesName {pattern : Pattern} (isInteger : pattern ∈ integers) {text : Bytes}
    (matched : Matches pattern text) : ∀ b ∈ text, continuesName b = true := by
  rcases (mem_integers_iff _).mp isInteger with rfl | rfl | rfl | rfl
  · obtain ⟨head, tail, inDigits, inSuffix, rfl⟩ := (matches_seq_iff _ _ _).mp matched
    intro b membership
    rcases List.mem_append.mp membership with inHead | inTail
    · exact continuesName_of_continuesNumber (digits_continuesNumber inDigits b inHead)
    · exact integerSuffix_continuesName inSuffix b inTail
  · exact basedLiteral_continuesName (by decide) isHexDigit_continuesName matched
  · exact basedLiteral_continuesName (by decide) isOctalDigit_continuesName matched
  · exact basedLiteral_continuesName (by decide) isBinaryDigit_continuesName matched

theorem integer_isDigit {pattern : Pattern} (isInteger : pattern ∈ integers) {text : Bytes}
    (matched : Matches pattern text) : ∃ b rest, isDigit b = true ∧ text = b :: rest := by
  cases text with
  | nil =>
    have proper : ∀ pattern ∈ integers, pattern.nullable = false := by decide
    exact absurd matched (not_matches_nil (proper pattern isInteger))
  | cons b rest =>
    refine ⟨b, rest, ?_, rfl⟩
    rcases (mem_integers_iff _).mp isInteger with rfl | rfl | rfl | rfl
    · exact decimalLiteral_cons matched
    · exact basedLiteral_cons matched
    · exact basedLiteral_cons matched
    · exact basedLiteral_cons matched

theorem exponent_shape {text : Bytes} (matched : Matches exponent text) :
    ∀ b ∈ text, b ≠ byte '.' ∧ (continuesName b = true ∨ b = byte '+' ∨ b = byte '-') := by
  simp only [exponent, inOrder, matches_seq_iff, matches_optional_iff, matches_byte_iff,
    matches_plus_byte_iff, Bool.or_eq_true, beq_iff_eq] at matched
  obtain ⟨_, _, ⟨letter, isLetter, rfl⟩, ⟨sign, numerals, isSign, ⟨-, inNumerals⟩, rfl⟩, rfl⟩ :=
    matched
  intro b membership
  simp only [List.singleton_append, List.mem_cons, List.mem_append] at membership
  rcases membership with rfl | inSign | inNumeral
  · rcases isLetter with rfl | rfl
    · decide
    · decide
  · rcases isSign with ⟨single, isSign, rfl⟩ | rfl
    · rw [List.mem_singleton.mp inSign]
      rcases isSign with rfl | rfl
      · decide
      · decide
    · cases inSign
  · exact nameByte_apart (continuesName_of_isDigit (inNumerals b inNumeral))

theorem floatSuffix_shape {text : Bytes}
    (matched : Matches (optional (.alt (literal (word ['f', '3', '2']))
      (literal (word ['f', '6', '4'])))) text) :
    ∀ b ∈ text, b ≠ byte '.' ∧ (continuesName b = true ∨ b = byte '+' ∨ b = byte '-') := by
  simp only [matches_optional_iff, matches_alt_iff, matches_literal_iff] at matched
  rcases matched with (rfl | rfl) | rfl
  · apply Bytes.forall_mem_of_all
    decide
  · apply Bytes.forall_mem_of_all
    decide
  · simp

/-- A float is digits, its only dot, a digit, and what else may stand behind. -/
theorem floatLiteral_shape {text : Bytes} (matched : Matches floatLiteral text) :
    ∃ whole digit behind, Matches digits whole ∧ isDigit digit = true ∧
      text = whole ++ byte '.' :: digit :: behind ∧
      ∀ b ∈ digit :: behind,
        b ≠ byte '.' ∧ (continuesName b = true ∨ b = byte '+' ∨ b = byte '-') := by
  simp only [floatLiteral, only, matches_inOrder_cons_iff, matches_inOrder_nil_iff,
    matches_byte_iff, beq_iff_eq] at matched
  obtain ⟨whole, _, inWhole, ⟨_, _, ⟨_, rfl, rfl⟩, ⟨fraction, _, inFraction, ⟨power, _, inPower,
    ⟨suffix, _, inSuffix, rfl, rfl⟩, rfl⟩, rfl⟩, rfl⟩, rfl⟩ := matched
  have fractionShape := digits_continuesNumber inFraction
  obtain ⟨digit, rest, isDigit, -, rfl⟩ := (digits_iff fraction).mp inFraction
  refine ⟨whole, digit, rest ++ (power ++ (suffix ++ [])), inWhole, isDigit, rfl, ?_⟩
  intro b membership
  rw [← List.cons_append, List.mem_append, List.append_nil, List.mem_append] at membership
  rcases membership with inFraction | inPowerText | inSuffixText
  · exact nameByte_apart (continuesName_of_continuesNumber (fractionShape b inFraction))
  · rcases (matches_optional_iff _ _).mp inPower with isExponent | rfl
    · exact exponent_shape isExponent b inPowerText
    · cases inPowerText
  · exact floatSuffix_shape inSuffix b inSuffixText

theorem floatLiteral_of_digits {whole : Bytes} {digit : UInt8} (inWhole : Matches digits whole)
    (isDigit : isDigit digit = true) : Matches floatLiteral (whole ++ [byte '.', digit]) := by
  simp only [floatLiteral, only, matches_inOrder_cons_iff, matches_inOrder_nil_iff,
    matches_byte_iff, beq_iff_eq, matches_optional_iff]
  exact ⟨whole, _, inWhole, ⟨_, _, ⟨_, rfl, rfl⟩, ⟨[digit], _,
    (digits_iff _).mpr ⟨digit, [], isDigit, by simp, rfl⟩, ⟨[], _, .inr rfl,
    ⟨[], [], .inr rfl, rfl, rfl⟩, rfl⟩, rfl⟩, rfl⟩, rfl⟩

theorem dot_not_mem_integer {pattern : Pattern} (isInteger : pattern ∈ integers) {text : Bytes}
    (matched : Matches pattern text) : byte '.' ∉ text := by
  intro membership
  have continues := integer_continuesName isInteger matched _ membership
  revert continues
  decide

theorem dot_not_mem_digits {text : Bytes} (matched : Matches digits text) : byte '.' ∉ text := by
  intro membership
  have continues := digits_continuesNumber matched _ membership
  revert continues
  decide

theorem floatLiteral_count_dot {text : Bytes} (matched : Matches floatLiteral text) :
    text.count (byte '.') = 1 := by
  obtain ⟨whole, digit, behind, inWhole, -, rfl, shape⟩ := floatLiteral_shape matched
  have before : whole.count (byte '.') = 0 := List.count_eq_zero.mpr (dot_not_mem_digits inWhole)
  have after : (digit :: behind).count (byte '.') = 0 :=
    List.count_eq_zero.mpr fun membership => (shape _ membership).1 rfl
  rw [List.count_append, List.count_cons_self, before, after]

theorem floatLiteral_bytes {text : Bytes} (matched : Matches floatLiteral text) :
    ∀ b ∈ text, b = byte '.' ∨ continuesName b = true ∨ b = byte '+' ∨ b = byte '-' := by
  obtain ⟨whole, digit, behind, inWhole, -, rfl, shape⟩ := floatLiteral_shape matched
  intro b membership
  rw [List.mem_append, List.mem_cons] at membership
  rcases membership with inWholeText | isDot | inBehind
  · have continues := digits_continuesNumber inWhole b inWholeText
    exact .inr (.inl (continuesName_of_continuesNumber continues))
  · exact .inl isDot
  · exact .inr (shape b inBehind).2

/-! Quoted literals end at their closing quote, whatever follows. -/

theorem escapePair_cons {b : UInt8} {text : Bytes} (matched : Matches escapePair (b :: text)) :
    b = byte '\\' :=
  onlySeq_cons matched

theorem escapePair_prefixFree : PrefixFree escapePair :=
  (prefixFree_byte _).seq (prefixFree_byte _)

theorem stringLiteral_prefixFree : PrefixFree stringLiteral := by
  refine (prefixFree_byte _).seq (PrefixFree.starThen ?_ (prefixFree_byte _) rfl rfl ?_)
  · refine (prefixFree_byte _).alt escapePair_prefixFree rfl rfl ?_
    intro b head tail plain escaped
    obtain ⟨_, accepted, same⟩ := (matches_byte_iff _ _).mp plain
    rw [← (List.cons.inj same).1, escapePair_cons escaped] at accepted
    revert accepted
    decide
  · intro b head tail inside closing
    obtain ⟨_, isQuote, same⟩ := (matches_byte_iff _ _).mp closing
    rw [← (List.cons.inj same).1, beq_iff_eq] at isQuote
    subst isQuote
    rcases (matches_alt_iff _ _ _).mp inside with plain | escaped
    · obtain ⟨_, accepted, same'⟩ := (matches_byte_iff _ _).mp plain
      rw [← (List.cons.inj same').1] at accepted
      revert accepted
      decide
    · have impossible := escapePair_cons escaped
      revert impossible
      decide

theorem between_prefixFree (low high : UInt8) : PrefixFree (between low high) := prefixFree_byte _

theorem betweenSeq_cons {low high b : UInt8} {rest : Pattern} {text : Bytes}
    (matched : Matches (.seq (between low high) rest) (b :: text)) : low ≤ b ∧ b ≤ high := by
  simp only [between, matches_byteSeq_iff, Bool.and_eq_true, decide_eq_true_eq] at matched
  obtain ⟨_, _, accepted, -, same⟩ := matched
  rw [(List.cons.inj same).1]
  exact accepted

theorem multibyte_cons {b : UInt8} {text : Bytes} (matched : Matches multibyte (b :: text)) :
    0xc2 ≤ b := by
  rcases (matches_alt_iff _ _ _).mp matched with pair | longer
  · exact (betweenSeq_cons pair).1
  · rcases (matches_alt_iff _ _ _).mp longer with triple | quadruple
    · have bounds := betweenSeq_cons triple
      grind
    · have bounds := betweenSeq_cons quadruple
      grind

theorem multibyte_bytes {text : Bytes} (matched : Matches multibyte text) :
    ∀ b ∈ text, 0x80 ≤ b := by
  simp only [multibyte, between, matches_oneOf_iff, List.mem_cons, List.not_mem_nil, or_false,
    exists_eq_or_imp, exists_eq_left, inOrder, matches_seq_iff, matches_byte_iff, Bool.and_eq_true,
    decide_eq_true_eq] at matched
  grind

theorem multibyte_prefixFree : PrefixFree multibyte := by
  have tail := between_prefixFree 0x80 0xbf
  refine ((between_prefixFree _ _).seq tail).alt
    (((between_prefixFree _ _).seq (tail.seq tail)).alt
      ((between_prefixFree _ _).seq (tail.seq (tail.seq tail))) rfl rfl ?_) rfl rfl ?_
  · intro b _ _ triple quadruple
    have bounds := betweenSeq_cons triple
    have bounds' := betweenSeq_cons quadruple
    grind
  · intro b _ _ pair longer
    have bounds := betweenSeq_cons pair
    rcases (matches_alt_iff _ _ _).mp longer with triple | quadruple
    · have bounds' := betweenSeq_cons triple
      grind
    · have bounds' := betweenSeq_cons quadruple
      grind

theorem charLiteral_prefixFree : PrefixFree charLiteral := by
  refine (prefixFree_byte _).seq (PrefixFree.seq ?_ (prefixFree_byte _))
  refine (prefixFree_byte _).alt (escapePair_prefixFree.alt multibyte_prefixFree rfl rfl ?_)
    rfl rfl ?_
  · intro b _ _ escaped encoded
    have bound := multibyte_cons encoded
    rw [escapePair_cons escaped] at bound
    revert bound
    decide
  · intro b _ _ plain other
    obtain ⟨_, accepted, same⟩ := (matches_byte_iff _ _).mp plain
    rw [← (List.cons.inj same).1] at accepted
    simp only [Bool.and_eq_true, bne_iff_ne, decide_eq_true_eq] at accepted
    rcases (matches_alt_iff _ _ _).mp other with escaped | encoded
    · exact accepted.1.2 (escapePair_cons escaped)
    · have bound := multibyte_cons encoded
      grind

/-- A character literal of a byte that starts a name ends right behind it. -/
theorem charLiteral_of_startsName {b : UInt8} {text : Bytes} (starts : startsName b = true)
    (matched : Matches charLiteral (byte '\'' :: b :: text)) : text = [byte '\''] := by
  simp only [charLiteral, only, inOrder, matches_seq_iff, matches_byte_iff, beq_iff_eq] at matched
  obtain ⟨_, _, ⟨_, rfl, rfl⟩, ⟨inside, _, inInside, ⟨_, rfl, rfl⟩, rfl⟩, same⟩ := matched
  cases inside with
  | nil => exact absurd inInside (not_matches_nil rfl)
  | cons c more =>
    obtain ⟨rfl, rfl⟩ := List.cons.inj (List.cons.inj same).2
    rcases (matches_alt_iff _ _ _).mp inInside with plain | other
    · obtain ⟨_, -, isPlain⟩ := (matches_byte_iff _ _).mp plain
      rw [(List.cons.inj isPlain).2]
      rfl
    · rcases (matches_alt_iff _ _ _).mp other with escaped | encoded
      · rw [escapePair_cons escaped] at starts
        exact absurd starts (by decide)
      · have bound := multibyte_cons encoded
        simp only [startsName, isLower, isUpper, isUnderscore] at starts
        grind

/-! Comments. -/

/-- A text in which the comment that a slash in front of it opens comes to its end. -/
def OpensComment (behind : Bytes) : Prop :=
  ∃ rest, behind = byte '/' :: rest ∨
    behind = byte '*' :: rest ∧ [byte '*', byte '/'] <:+: rest

theorem lineComment_start_iff (behind : Bytes) :
    (∃ lexeme, lexeme <+: byte '/' :: behind ∧ Matches lineComment lexeme) ↔
      ∃ rest, behind = byte '/' :: rest := by
  constructor
  · rintro ⟨lexeme, isStart, matched⟩
    obtain ⟨rest, rfl, -⟩ := (lineComment_iff _).mp matched
    obtain ⟨more, rfl⟩ := (List.cons_prefix_cons.mp isStart).2
    exact ⟨rest ++ more, rfl⟩
  · rintro ⟨rest, rfl⟩
    refine ⟨[byte '/', byte '/'], ⟨rest, rfl⟩, (lineComment_iff _).mpr ⟨[], rfl, ?_⟩⟩
    exact .seq .done (.right .empty)

/-- From inside a comment to its end. -/
def commentTail : Pattern := inOrder [.star commentPart, plus (only '*'), only '/']

theorem starSlash_of_commentTail {text : Bytes} (matched : Matches commentTail text) :
    [byte '*', byte '/'] <:+: text := by
  simp only [commentTail, only, inOrder, matches_seq_iff, matches_byte_iff, matches_plus_byte_iff,
    beq_iff_eq] at matched
  obtain ⟨inside, _, -, ⟨stars, _, ⟨nonempty, areStars⟩, ⟨_, rfl, rfl⟩, rfl⟩, rfl⟩ := matched
  obtain ⟨row, last, rfl⟩ := (List.eq_nil_or_concat stars).resolve_left nonempty
  rw [areStars last (by simp)]
  exact ⟨inside ++ row, [], by simp⟩

theorem commentTail_stars {stars : Bytes} (nonempty : stars ≠ [])
    (areStars : ∀ b ∈ stars, b = byte '*') : Matches commentTail (stars ++ [byte '/']) := by
  have inStars : Matches (plus (only '*')) stars :=
    (matches_plus_byte_iff _ _).mpr ⟨nonempty, fun b membership => by simp [areStars b membership]⟩
  have inEnding : Matches (inOrder [plus (only '*'), only '/']) (stars ++ [byte '/']) :=
    .seq inStars (.byte (by decide))
  exact @Matches.seq _ _ [] _ .done inEnding

/-- A text inside a comment in which the comment ends. -/
def ClosesComment (text : Bytes) : Prop := ∃ tail, tail <+: text ∧ Matches commentTail tail

/-- A text behind a row of stars inside a comment in which the comment ends. -/
def ClosesBehindStars (text : Bytes) : Prop :=
  ∃ tail, tail <+: text ∧ ∀ stars, stars ≠ [] → (∀ b ∈ stars, b = byte '*') →
    Matches commentTail (stars ++ tail)

theorem ClosesBehindStars.closesComment {text : Bytes} (closes : ClosesBehindStars text) :
    ClosesComment (byte '*' :: text) := by
  obtain ⟨tail, isStart, matched⟩ := closes
  exact ⟨byte '*' :: tail, List.cons_prefix_cons.mpr ⟨rfl, isStart⟩,
    matched [byte '*'] (by simp) (by simp)⟩

theorem ClosesBehindStars.star {text : Bytes} (closes : ClosesBehindStars text) :
    ClosesBehindStars (byte '*' :: text) := by
  obtain ⟨tail, isStart, matched⟩ := closes
  refine ⟨byte '*' :: tail, List.cons_prefix_cons.mpr ⟨rfl, isStart⟩, ?_⟩
  intro stars _ areStars
  have row : ∀ b ∈ stars ++ [byte '*'], b = byte '*' :=
    List.forall_mem_append.mpr ⟨areStars, by simp⟩
  have longer := matched (stars ++ [byte '*']) (by simp) row
  rwa [List.append_assoc, List.singleton_append] at longer

theorem closesBehindStars_slash (text : Bytes) : ClosesBehindStars (byte '/' :: text) := by
  refine ⟨[byte '/'], ⟨text, rfl⟩, ?_⟩
  intro stars nonempty areStars
  exact commentTail_stars nonempty areStars

theorem ClosesComment.cons {b : UInt8} {text : Bytes} (noStar : b ≠ byte '*')
    (closes : ClosesComment text) : ClosesComment (b :: text) := by
  obtain ⟨tail, isStart, matched⟩ := closes
  have inPart : Matches commentPart [b] := .left (.byte (by simp [noStar]))
  exact ⟨b :: tail, List.cons_prefix_cons.mpr ⟨rfl, isStart⟩, inPart.starThen matched⟩

theorem ClosesComment.behindStars {b : UInt8} {text : Bytes} (noStar : b ≠ byte '*')
    (noSlash : b ≠ byte '/') (closes : ClosesComment text) : ClosesBehindStars (b :: text) := by
  obtain ⟨tail, isStart, matched⟩ := closes
  refine ⟨b :: tail, List.cons_prefix_cons.mpr ⟨rfl, isStart⟩, ?_⟩
  intro stars nonempty areStars
  have inStars : Matches (plus (only '*')) stars := (matches_plus_byte_iff _ _).mpr
    ⟨nonempty, fun b membership => by simp [areStars b membership]⟩
  have inPart : Matches commentPart (stars ++ [b]) :=
    .right (.seq inStars (.byte (by simp [noStar, noSlash])))
  have longer := inPart.starThen matched
  rwa [List.append_assoc, List.singleton_append] at longer

/-- Inside a comment, and behind stars inside a comment, the next star and slash end it. -/
theorem closes_of_starSlash (text : Bytes) :
    ([byte '*', byte '/'] <:+: text → ClosesComment text) ∧
      ([byte '/'] <+: text ∨ [byte '*', byte '/'] <:+: text → ClosesBehindStars text) := by
  induction text with
  | nil => simp
  | cons b text inductionHypothesis =>
    obtain ⟨outside, inStars⟩ := inductionHypothesis
    by_cases isStar : b = byte '*'
    · subst isStar
      have behind : [byte '*', byte '/'] <:+: byte '*' :: text → ClosesBehindStars text := by
        intro isInfix
        apply inStars
        rcases List.infix_cons_iff.mp isInfix with isPrefix | inText
        · exact .inl (List.cons_prefix_cons.mp isPrefix).2
        · exact .inr inText
      constructor
      · intro isInfix
        exact (behind isInfix).closesComment
      · rintro (isSlash | isInfix)
        · exact absurd (List.cons_prefix_cons.mp isSlash).1 (by decide)
        · exact (behind isInfix).star
    · have behind : [byte '*', byte '/'] <:+: b :: text → ClosesComment text := by
        intro isInfix
        apply outside
        rcases List.infix_cons_iff.mp isInfix with isPrefix | inText
        · exact absurd (List.cons_prefix_cons.mp isPrefix).1.symm isStar
        · exact inText
      constructor
      · intro isInfix
        exact (behind isInfix).cons isStar
      · by_cases isSlash : b = byte '/'
        · subst isSlash
          intro _
          exact closesBehindStars_slash text
        · rintro (isPrefix | isInfix)
          · exact absurd (List.cons_prefix_cons.mp isPrefix).1.symm isSlash
          · exact (behind isInfix).behindStars isStar isSlash

theorem blockComment_start_iff (behind : Bytes) :
    (∃ lexeme, lexeme <+: byte '/' :: behind ∧ Matches blockComment lexeme) ↔
      ∃ rest, behind = byte '*' :: rest ∧ [byte '*', byte '/'] <:+: rest := by
  constructor
  · rintro ⟨lexeme, isStart, matched⟩
    obtain ⟨tail, rfl, inTail⟩ := (blockComment_iff _).mp matched
    obtain ⟨more, rfl⟩ := (List.cons_prefix_cons.mp isStart).2
    exact ⟨tail ++ more, rfl, (starSlash_of_commentTail inTail).trans ⟨[], more, rfl⟩⟩
  · rintro ⟨rest, rfl, isInfix⟩
    obtain ⟨tail, isStart, matched⟩ := (closes_of_starSlash rest).1 isInfix
    refine ⟨byte '/' :: byte '*' :: tail, ?_, (blockComment_iff _).mpr ⟨tail, rfl, matched⟩⟩
    exact List.cons_prefix_cons.mpr ⟨rfl, List.cons_prefix_cons.mpr ⟨rfl, isStart⟩⟩

/-- A comment starts at a slash if and only if it also ends. -/
theorem comment_start_iff (behind : Bytes) :
    (∃ lexeme, lexeme <+: byte '/' :: behind ∧
      (Matches lineComment lexeme ∨ Matches blockComment lexeme)) ↔ OpensComment behind := by
  have line := lineComment_start_iff behind
  have block := blockComment_start_iff behind
  constructor
  · rintro ⟨lexeme, isStart, inLine | inBlock⟩
    · obtain ⟨rest, same⟩ := line.mp ⟨lexeme, isStart, inLine⟩
      exact ⟨rest, .inl same⟩
    · obtain ⟨rest, same⟩ := block.mp ⟨lexeme, isStart, inBlock⟩
      exact ⟨rest, .inr same⟩
  · rintro ⟨rest, same | same⟩
    · obtain ⟨lexeme, isStart, matched⟩ := line.mpr ⟨rest, same⟩
      exact ⟨lexeme, isStart, .inl matched⟩
    · obtain ⟨lexeme, isStart, matched⟩ := block.mpr ⟨rest, same⟩
      exact ⟨lexeme, isStart, .inr matched⟩

/-! A block comment ends at its first star and slash. -/

/-- A part of a comment is a row of stars, which may be empty, and a byte that neither prolongs the
row nor ends the comment with it. -/
theorem commentPart_shape {part : Bytes} (matched : Matches commentPart part) :
    ∃ stars b, (∀ star ∈ stars, star = byte '*') ∧ b ≠ byte '*' ∧
      (stars ≠ [] → b ≠ byte '/') ∧ part = stars ++ [b] := by
  rcases (matches_alt_iff _ _ _).mp matched with plain | starred
  · obtain ⟨b, accepted, rfl⟩ := (matches_byte_iff _ _).mp plain
    refine ⟨[], b, by simp, by simpa using accepted, by simp, rfl⟩
  · obtain ⟨stars, _, inStars, last, rfl⟩ := (matches_seq_iff _ _ _).mp starred
    obtain ⟨b, accepted, rfl⟩ := (matches_byte_iff _ _).mp last
    rw [Bool.and_eq_true, bne_iff_ne, bne_iff_ne] at accepted
    obtain ⟨-, areStars⟩ := (matches_plus_byte_iff _ _).mp inStars
    exact ⟨stars, b, by simpa using areStars, accepted.1, fun _ => accepted.2, rfl⟩

/-- A star and a slash do not start inside a part. -/
theorem starSlash_behind_part {part text before rest : Bytes} (inPart : Matches commentPart part)
    (same : part ++ text = before ++ byte '*' :: byte '/' :: rest) :
    ∃ later, text = later ++ byte '*' :: byte '/' :: rest := by
  rcases List.append_eq_append_iff.mp same with ⟨later, -, split⟩ | ⟨own, isPart, split⟩
  · exact ⟨later, split⟩
  · obtain ⟨stars, b, areStars, noStar, noSlash, rfl⟩ := commentPart_shape inPart
    match own with
    | [] => exact ⟨[], split.symm⟩
    | [first] =>
      cases split
      exact absurd (List.cons.inj (List.append_inj_right' isPart rfl)).1 noStar
    | first :: second :: own =>
      cases split
      have several : stars ≠ [] := by
        rintro rfl
        have lengths := congrArg List.length isPart
        rw [List.nil_append, List.length_singleton, List.length_append, List.length_cons,
          List.length_cons] at lengths
        omega
      have membership : byte '/' ∈ stars ++ [b] := by simp [isPart]
      rcases List.mem_append.mp membership with inStars | isLast
      · exact absurd (areStars _ inStars) (by decide)
      · exact absurd (List.mem_singleton.mp isLast).symm (noSlash several)

theorem commentTail_starSlash {text before rest : Bytes} (matched : Matches commentTail text)
    (same : text = before ++ byte '*' :: byte '/' :: rest) : rest = [] := by
  obtain ⟨inside, ending, inStar, inEnding, rfl⟩ := (matches_inOrder_cons_iff _ _ _).mp matched
  obtain ⟨parts, inParts, rfl⟩ := (matches_star_iff _ _).mp inStar
  clear matched inStar
  induction parts generalizing before with
  | nil =>
    obtain ⟨stars, _, inStars, last, rfl⟩ := (matches_seq_iff _ _ _).mp inEnding
    obtain ⟨_, isSlash, rfl⟩ := (matches_byte_iff _ _).mp last
    obtain ⟨-, areStars⟩ := (matches_plus_byte_iff _ _).mp inStars
    -- what stands behind the slash would move it into the row of stars
    rcases List.eq_nil_or_concat rest with empty | ⟨row, b, rfl⟩
    · exact empty
    · rw [List.flatten_nil, List.nil_append, List.concat_eq_append, ← List.cons_append,
        ← List.cons_append, ← List.append_assoc] at same
      have isRow := List.append_inj_left' same rfl
      have isStar := areStars (byte '/') (by simp [isRow])
      exact absurd isStar (by decide)
  | cons part parts inductionHypothesis =>
    obtain ⟨first, others⟩ := List.forall_mem_cons.mp inParts
    rw [List.flatten_cons, List.append_assoc] at same
    obtain ⟨later, split⟩ := starSlash_behind_part first same
    exact inductionHypothesis others split

theorem blockComment_prefixFree : PrefixFree blockComment := by
  intro text more matched matched'
  obtain ⟨tail, rfl, inTail⟩ := (blockComment_iff _).mp matched
  obtain ⟨tail', same, inTail'⟩ := (blockComment_iff _).mp matched'
  obtain ⟨before, rest, rfl⟩ := starSlash_of_commentTail inTail
  have isTail : tail' = before ++ byte '*' :: byte '/' :: (rest ++ more) := by
    have tails := (List.cons.inj (List.cons.inj same).2).2
    simpa using tails.symm
  exact (List.append_eq_nil_iff.mp (commentTail_starSlash inTail' isTail)).2

end Rule

end Unroll
