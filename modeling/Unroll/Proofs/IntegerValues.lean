import Mathlib.Data.Nat.Digits.Defs
import Unroll.Proofs.NumeralReading

set_option autoImplicit false

/-!
# Values of integers

An integer is written as the lead of its radix, a body of digits and underscores, and perhaps a type
name. Such texts are those that a scanner yields as integers, and each is read at the positional
value of its digits if it has a digit and the value fits 64 bits.
-/

namespace Unroll

open Pattern

namespace Numeral

inductive Radix where
  | decimal
  | hexadecimal
  | octal
  | binary
  deriving DecidableEq, Repr

namespace Radix

def base : Radix → Nat
  | decimal => 10
  | hexadecimal => 16
  | octal => 8
  | binary => 2

/-- What stands in front of the digits. -/
def lead : Radix → Bytes
  | decimal => []
  | hexadecimal => word ['0', 'x']
  | octal => word ['0', 'o']
  | binary => word ['0', 'b']

/-- The digits by what they are worth, with small letters. -/
def smallDigits : Bytes :=
  word ['0', '1', '2', '3', '4', '5', '6', '7', '8', '9', 'a', 'b', 'c', 'd', 'e', 'f']

/-- The digits by what they are worth, with capital letters. -/
def capitalDigits : Bytes :=
  word ['0', '1', '2', '3', '4', '5', '6', '7', '8', '9', 'A', 'B', 'C', 'D', 'E', 'F']

def alphabet (radix : Radix) : Bytes :=
  smallDigits.take radix.base ++ capitalDigits.take radix.base

/-- The place of a digit among the digits. -/
def worth (digit : UInt8) : Nat :=
  if digit ∈ smallDigits then smallDigits.idxOf digit else capitalDigits.idxOf digit

/-- The value of digits from the highest to the lowest. -/
def valueOf (radix : Radix) (digits : Bytes) : Nat :=
  Nat.ofDigits radix.base (digits.map worth).reverse

/-- Digits and underscores. Without a lead the first of them is a digit. -/
structure IsBody (radix : Radix) (body : Bytes) : Prop where
  nonempty : body ≠ []
  inBody : ∀ b ∈ body, b ∈ radix.alphabet ∨ b = byte '_'
  opens : radix = decimal → body.head? ≠ some (byte '_')

/-- The rule of the integers of a radix. -/
def pattern : Radix → Pattern
  | decimal => Rule.decimalLiteral
  | hexadecimal => Rule.hexLiteral
  | octal => Rule.octalLiteral
  | binary => Rule.binaryLiteral

/-- The digits that the rule of a radix takes. -/
def accepts : Radix → UInt8 → Bool
  | decimal => Rule.isDigit
  | hexadecimal => Rule.isHexDigit
  | octal => Rule.isOctalDigit
  | binary => Rule.isBinaryDigit

theorem base_pos (radix : Radix) : 0 < radix.base := by
  cases radix <;> decide

theorem accepts_iff (radix : Radix) (b : UInt8) :
    radix.accepts b = true ↔ b ∈ radix.alphabet := by
  cases radix <;>
    simp only [accepts, alphabet, base, smallDigits, capitalDigits, word, byte, List.map,
      List.take, List.cons_append, List.nil_append, List.mem_cons, List.not_mem_nil, or_false,
      Rule.isDigit, Rule.isHexDigit, Rule.isOctalDigit, Rule.isBinaryDigit, Bool.or_eq_true,
      Bool.and_eq_true, decide_eq_true_eq, beq_iff_eq, UInt8.le_iff_toNat_le,
      ← UInt8.toNat_inj] <;>
    simp <;> omega

theorem accepts_or_isUnderscore_iff (radix : Radix) (b : UInt8) :
    (radix.accepts b || Rule.isUnderscore b) = true ↔ b ∈ radix.alphabet ∨ b = byte '_' := by
  rw [Bool.or_eq_true, accepts_iff, Rule.isUnderscore, beq_iff_eq]
  rfl

theorem isBody_decimal_iff (body : Bytes) : decimal.IsBody body ↔ Matches Rule.digits body := by
  rw [Rule.digits_iff]
  constructor
  · rintro ⟨nonempty, inBody, opens⟩
    obtain ⟨first, rest, rfl⟩ := List.exists_cons_of_ne_nil nonempty
    obtain ⟨isFirst, inRest⟩ := List.forall_mem_cons.mp inBody
    have notUnderscore : first ≠ byte '_' := fun isUnderscore =>
      opens rfl (congrArg some isUnderscore)
    refine ⟨first, rest, (accepts_iff decimal first).mpr (isFirst.resolve_right notUnderscore),
      fun b inTail => ?_, rfl⟩
    exact (accepts_or_isUnderscore_iff decimal b).mpr (inRest b inTail)
  · rintro ⟨first, rest, isDigit, inRest, rfl⟩
    refine ⟨List.cons_ne_nil _ _, List.forall_mem_cons.mpr ⟨?_, fun b inTail => ?_⟩, ?_⟩
    · exact .inl ((accepts_iff decimal first).mp isDigit)
    · exact (accepts_or_isUnderscore_iff decimal b).mp (inRest b inTail)
    · rintro - isUnderscore
      rw [Option.some.inj isUnderscore] at isDigit
      exact absurd isDigit (by decide)

theorem isBody_iff_of_ne_decimal {radix : Radix} (based : radix ≠ decimal) (body : Bytes) :
    radix.IsBody body ↔
      body ≠ [] ∧ ∀ b ∈ body, (radix.accepts b || Rule.isUnderscore b) = true := by
  simp only [accepts_or_isUnderscore_iff]
  constructor
  · rintro ⟨nonempty, inBody, -⟩
    exact ⟨nonempty, inBody⟩
  · rintro ⟨nonempty, inBody⟩
    exact ⟨nonempty, inBody, fun isDecimal => absurd isDecimal based⟩

/-- The rule of a radix matches its lead, a body and perhaps a type name. -/
theorem pattern_iff (radix : Radix) (raw : Bytes) :
    Matches radix.pattern raw ↔ ∃ body suffix, radix.IsBody body ∧
      (suffix = [] ∨ suffix ∈ Rule.integerSuffixes) ∧ radix.lead ++ body ++ suffix = raw := by
  simp only [← Rule.integerSuffix_iff, eq_comm (b := raw)]
  cases radix with
  | decimal =>
    simp only [isBody_decimal_iff]
    exact matches_seq_iff _ _ _
  | hexadecimal | octal | binary =>
    rw [pattern]
    simp only [isBody_iff_of_ne_decimal, ne_eq, reduceCtorEq, not_false_eq_true]
    exact Rule.basedLiteral_iff _ _ _

theorem exists_pattern_iff (raw : Bytes) :
    (∃ pattern ∈ Rule.integers, Matches pattern raw) ↔
      ∃ radix : Radix, Matches radix.pattern raw := by
  constructor
  · rintro ⟨pattern, isInteger, matched⟩
    rcases (Rule.mem_integers_iff _).mp isInteger with rfl | rfl | rfl | rfl
    · exact ⟨decimal, matched⟩
    · exact ⟨hexadecimal, matched⟩
    · exact ⟨octal, matched⟩
    · exact ⟨binary, matched⟩
  · rintro ⟨radix, matched⟩
    refine ⟨radix.pattern, ?_, matched⟩
    cases radix <;> simp [pattern, Rule.integers]

/-- Zeros may stand in front of a body. -/
theorem IsBody.zeros {radix : Radix} {body : Bytes} (isBody : radix.IsBody body) (count : Nat) :
    radix.IsBody (List.replicate count (byte '0') ++ body) := by
  have isDigit : ∀ radix : Radix, byte '0' ∈ radix.alphabet := by
    intro radix
    cases radix <;> decide
  refine ⟨List.append_ne_nil_of_right_ne_nil _ isBody.nonempty,
    List.forall_mem_append.mpr ⟨fun b isZero => ?_, isBody.inBody⟩, fun isDecimal => ?_⟩
  · rw [List.eq_of_mem_replicate isZero]
    exact .inl (isDigit radix)
  · cases count with
    | zero => exact isBody.opens isDecimal
    | succ count =>
      rw [List.replicate_succ, List.cons_append, List.head?_cons]
      decide

theorem digitValue?_eq {radix : Radix} {digit : UInt8} (isDigit : digit ∈ radix.alphabet) :
    digitValue? digit = some (worth digit) ∧ worth digit < radix.base := by
  have checked : ∀ radix : Radix, radix.alphabet.all (fun digit =>
      decide (digitValue? digit = some (worth digit) ∧ worth digit < radix.base)) = true := by
    intro radix
    cases radix <;> decide
  exact of_decide_eq_true (List.all_eq_true.mp (checked radix) digit isDigit)

theorem valueOf_cons (radix : Radix) (digit : UInt8) (digits : Bytes) :
    radix.valueOf (digit :: digits) =
      worth digit * radix.base ^ digits.length + radix.valueOf digits := by
  rw [valueOf, List.map_cons, Nat.ofDigits_reverse_cons, List.length_map, Nat.add_comm,
    Nat.mul_comm]
  rfl

/-- Zeros in front of digits are worth nothing. -/
theorem valueOf_zeros (radix : Radix) (count : Nat) (digits : Bytes) :
    radix.valueOf (List.replicate count (byte '0') ++ digits) = radix.valueOf digits := by
  have zero : worth (byte '0') = 0 := by decide
  rw [valueOf, List.map_append, List.map_replicate, zero, List.reverse_append,
    List.reverse_replicate, Nat.ofDigits_append_replicate_zero, valueOf]

end Radix

open Radix

/-- Reading goes on as long as the value fits. Digits to come only make it larger, so what does not
fit somewhere does not fit at the end. -/
theorem readFrom_eq {radix : Radix} (all : Bytes) {value : Nat}
    (fits : value < 0x10000000000000000) {digits : Bytes}
    (areDigits : ∀ digit ∈ digits, digit ∈ radix.alphabet) :
    readFrom radix.base all value digits =
      if value * radix.base ^ digits.length + radix.valueOf digits < 0x10000000000000000 then
        .ok (value * radix.base ^ digits.length + radix.valueOf digits)
      else .error (.tooLarge all) := by
  induction digits generalizing value with
  | nil =>
    simp [readFrom, valueOf, fits]
  | cons digit digits inductionHypothesis =>
    obtain ⟨isDigit, areDigits⟩ := List.forall_mem_cons.mp areDigits
    obtain ⟨hasValue, small⟩ := digitValue?_eq isDigit
    have total : value * radix.base ^ (digit :: digits).length + radix.valueOf (digit :: digits) =
        (value * radix.base + worth digit) * radix.base ^ digits.length +
          radix.valueOf digits := by
      rw [valueOf_cons, List.length_cons, Nat.pow_succ, Nat.add_mul, ← Nat.add_assoc,
        Nat.mul_assoc, Nat.mul_comm radix.base]
    rw [readFrom, hasValue, total]
    simp only [if_neg (Nat.not_le.mpr small)]
    by_cases large : 0x10000000000000000 ≤ value * radix.base + worth digit
    · have grows := Nat.le_mul_of_pos_right (value * radix.base + worth digit)
        (Nat.pow_pos radix.base_pos : 0 < radix.base ^ digits.length)
      rw [if_pos large, if_neg (by omega)]
    · rw [if_neg large]
      exact inductionHypothesis (Nat.not_le.mp large) areDigits

/-! Type names. -/

theorem eq_of_isSuffixOf {suffix other : Bytes} (isOther : other ∈ suffixes)
    (isSuffix : suffix ∈ suffixes) (ends : other <:+ suffix) : other = suffix := by
  have checked : ∀ other ∈ suffixes, ∀ suffix ∈ suffixes,
      other.isSuffixOf suffix = true → other = suffix := by decide
  exact checked other isOther suffix isSuffix (List.isSuffixOf_iff_suffix.mpr ends)

theorem mem_suffixes {suffix : Bytes} (isSuffix : suffix ∈ Rule.integerSuffixes) :
    suffix ∈ suffixes := by
  have checked : ∀ suffix ∈ Rule.integerSuffixes, suffix ∈ suffixes := by decide
  exact checked suffix isSuffix

/-- No type name ends another one, so the first one found is the one that was written. -/
theorem withoutSuffix_append (front : Bytes) {suffix : Bytes}
    (isSuffix : suffix ∈ Rule.integerSuffixes) : withoutSuffix (front ++ suffix) = front := by
  have inSuffixes := mem_suffixes isSuffix
  have ends : suffix <:+ front ++ suffix := List.suffix_append front suffix
  have only : ∀ other ∈ suffixes, other.isSuffixOf (front ++ suffix) = true →
      other = suffix := by
    intro other isOther endsToo
    rcases List.suffix_or_suffix_of_suffix (List.isSuffixOf_iff_suffix.mp endsToo) ends with
      inside | outside
    · exact eq_of_isSuffixOf isOther inSuffixes inside
    · exact (eq_of_isSuffixOf inSuffixes isOther outside).symm
  rw [withoutSuffix]
  cases found : suffixes.find? (·.isSuffixOf (front ++ suffix)) with
  | none =>
    have unfound := List.find?_eq_none.mp found suffix inSuffixes
    exact absurd (List.isSuffixOf_iff_suffix.mpr ends) unfound
  | some other =>
    have endsToo : other.isSuffixOf (front ++ suffix) = true := by
      simpa using List.find?_some found
    rw [only other (List.mem_of_find?_eq_some found) endsToo]
    simp

/-! Written integers. -/

/-- An integer as it is written: the digits of a radix behind its lead, and perhaps a type name. -/
structure Literal where
  radix : Radix
  body : Bytes
  suffix : Bytes
  isBody : radix.IsBody body
  isSuffix : suffix = [] ∨ suffix ∈ Rule.integerSuffixes

namespace Literal

variable (literal : Literal)

def text : Bytes := literal.radix.lead ++ literal.body ++ literal.suffix

def digits : Bytes := literal.body.filter (· != byte '_')

def value : Nat := literal.radix.valueOf literal.digits

theorem mem_alphabet {digit : UInt8} (isDigit : digit ∈ literal.digits) :
    digit ∈ literal.radix.alphabet := by
  obtain ⟨inBody, noUnderscore⟩ := List.mem_filter.mp isDigit
  rcases literal.isBody.inBody digit inBody with inAlphabet | isUnderscore
  · exact inAlphabet
  · exact absurd isUnderscore (bne_iff_ne.mp noUnderscore)

theorem digits_ne_nil_of_decimal (isDecimal : literal.radix = decimal) : literal.digits ≠ [] := by
  obtain ⟨nonempty, -, opens⟩ := literal.isBody
  obtain ⟨first, rest, isCons⟩ := List.exists_cons_of_ne_nil nonempty
  have opens := opens isDecimal
  rw [isCons, List.head?_cons, ne_eq, Option.some.injEq] at opens
  have isDigit : first ∈ literal.digits := by
    rw [digits, isCons, List.mem_filter]
    exact ⟨List.mem_cons_self, bne_iff_ne.mpr opens⟩
  exact List.ne_nil_of_mem isDigit

theorem withoutSuffix_text :
    withoutSuffix literal.text = literal.radix.lead ++ literal.body := by
  rcases literal.isSuffix with isEmpty | isSuffix
  · have letters : ∀ radix : Radix, ∀ letter ∈ word ['u', 'i'],
        letter ∉ radix.lead ∧ letter ∉ radix.alphabet ∧ letter ≠ byte '_' := by
      intro radix
      apply Bytes.forall_mem_of_all
      cases radix <;> decide
    have apart : ∀ letter ∈ word ['u', 'i'], letter ∉ literal.radix.lead ++ literal.body := by
      intro letter isLetter inFront
      obtain ⟨notInLead, notDigit, notUnderscore⟩ := letters literal.radix letter isLetter
      rcases List.mem_append.mp inFront with inLead | inBody
      · exact notInLead inLead
      · rcases literal.isBody.inBody letter inBody with isDigit | isUnderscore
        · exact notDigit isDigit
        · exact notUnderscore isUnderscore
    rw [text, isEmpty, List.append_nil]
    exact withoutSuffix_of_notMem (apart _ (by simp [word])) (apart _ (by simp [word]))
  · exact withoutSuffix_append _ isSuffix

theorem withoutUnderscores_front :
    withoutUnderscores (literal.radix.lead ++ literal.body) =
      literal.radix.lead ++ literal.digits := by
  have plain : ∀ radix : Radix, withoutUnderscores radix.lead = radix.lead := by
    intro radix
    cases radix <;> decide
  rw [withoutUnderscores, List.filter_append]
  exact congrArg (· ++ literal.digits) (plain literal.radix)

theorem splitBase_front (hasDigit : literal.digits ≠ []) :
    splitBase (literal.radix.lead ++ literal.digits) = (literal.radix.base, literal.digits) := by
  obtain ⟨digit, rest, isCons⟩ := List.exists_cons_of_ne_nil hasDigit
  cases isRadix : literal.radix with
  | decimal =>
    refine splitBase_of_digits fun digit isDigit => (accepts_iff decimal digit).mpr ?_
    rw [← isRadix]
    exact literal.mem_alphabet isDigit
  | hexadecimal | octal | binary =>
    rw [isCons]
    rfl

/-- Without digits, the lead itself is taken for a decimal and has a letter in it. -/
theorem read_lead (noDigit : literal.digits = []) :
    read literal.text = .error (.malformed literal.radix.lead) := by
  rw [read, literal.withoutSuffix_text, literal.withoutUnderscores_front, noDigit,
    List.append_nil]
  cases isRadix : literal.radix with
  | decimal => exact absurd noDigit (literal.digits_ne_nil_of_decimal isRadix)
  | hexadecimal | octal | binary => decide

theorem read_digits (hasDigit : literal.digits ≠ []) :
    read literal.text =
      if literal.value < 0x10000000000000000 then .ok (UInt64.ofNat literal.value)
      else .error (.tooLarge literal.digits) := by
  have total : 0 * literal.radix.base ^ literal.digits.length +
      literal.radix.valueOf literal.digits = literal.value := by
    rw [Nat.zero_mul, Nat.zero_add, value]
  rw [read, literal.withoutSuffix_text, literal.withoutUnderscores_front,
    literal.splitBase_front hasDigit]
  simp only [readDigits, List.isEmpty_eq_false_iff.mpr hasDigit, Bool.false_eq_true, if_false]
  rw [readFrom_eq _ (by decide) fun _ => literal.mem_alphabet, total]
  split
  · rfl
  · rfl

/-- The same integer with zeros in front of its body. -/
def padded (count : Nat) : Literal where
  radix := literal.radix
  body := List.replicate count (byte '0') ++ literal.body
  suffix := literal.suffix
  isBody := literal.isBody.zeros count
  isSuffix := literal.isSuffix

theorem digits_padded (count : Nat) :
    (literal.padded count).digits = List.replicate count (byte '0') ++ literal.digits := by
  rw [digits, padded, List.filter_append, List.filter_replicate_of_pos (by decide), digits]

theorem value_padded (count : Nat) : (literal.padded count).value = literal.value := by
  rw [value, digits_padded]
  exact valueOf_zeros _ _ _

theorem value_of_noDigit (noDigit : literal.digits = []) : literal.value = 0 := by
  rw [value, noDigit]
  rfl

theorem read_eq_ok_iff (value : UInt64) :
    read literal.text = .ok value ↔ literal.digits ≠ [] ∧ value.toNat = literal.value := by
  by_cases noDigit : literal.digits = []
  · simp [literal.read_lead noDigit, noDigit]
  · rw [literal.read_digits noDigit]
    constructor
    · intro isValue
      split at isValue
      · rename_i fits
        cases isValue
        exact ⟨noDigit, UInt64.toNat_ofNat_of_lt' fits⟩
      · cases isValue
    · rintro ⟨-, same⟩
      rw [← same, if_pos value.toNat_lt, UInt64.ofNat_toNat]

theorem read_eq_malformed_iff :
    read literal.text = .error (.malformed literal.radix.lead) ↔ literal.digits = [] := by
  refine ⟨fun isMalformed => ?_, literal.read_lead⟩
  by_contra hasDigit
  rw [literal.read_digits hasDigit] at isMalformed
  split at isMalformed
  · cases isMalformed
  · cases isMalformed

theorem read_eq_tooLarge_iff :
    read literal.text = .error (.tooLarge literal.digits) ↔ 2 ^ 64 ≤ literal.value := by
  by_cases noDigit : literal.digits = []
  · simp [literal.read_lead noDigit, literal.value_of_noDigit noDigit]
  · rw [literal.read_digits noDigit]
    split
    · rename_i fits
      exact iff_of_false (fun impossible => by cases impossible) (Nat.not_le.mpr fits)
    · rename_i large
      exact iff_of_true rfl (Nat.not_lt.mp large)

/-- The rules of integers match the written integers. -/
theorem spelled_iff (raw : Bytes) :
    (∃ pattern ∈ Rule.integers, Matches pattern raw) ↔ ∃ literal : Literal, literal.text = raw := by
  rw [exists_pattern_iff]
  simp only [pattern_iff]
  constructor
  · rintro ⟨radix, body, suffix, isBody, isSuffix, isText⟩
    exact ⟨⟨radix, body, suffix, isBody, isSuffix⟩, isText⟩
  · rintro ⟨literal, isText⟩
    exact ⟨literal.radix, literal.body, literal.suffix, literal.isBody, literal.isSuffix, isText⟩

/-- A scanner yields the written integers as integers, and nothing else. -/
theorem exists_token_iff (raw : Bytes) :
    (∃ source span, Event.token ⟨.int, raw, span⟩ ∈ (Scanner.ofSource source).events) ↔
      ∃ literal : Literal, literal.text = raw := by
  rw [← spelled_iff]
  constructor
  · rintro ⟨source, span, isYielded⟩
    obtain ⟨tokens, offset, rest, scanned, -, isEvents⟩ :=
      (Scanner.ofSource source).events_eq rfl
    rw [isEvents, List.mem_append] at isYielded
    rcases isYielded with inTokens | inLast
    · obtain ⟨token, membership, isToken⟩ := List.mem_map.mp inTokens
      cases isToken
      exact scanned.spelled _ membership
    · rcases Scanner.event_of_lastAnswer inLast with ⟨_, isToken, isEnd⟩ | ⟨-, isReport⟩
      · cases isToken
        cases isEnd
      · cases isReport
  · rintro ⟨pattern, isInteger, matched⟩
    have scanned := Scans.integer isInteger matched Piece.boundary_nil
      (Piece.not_opensFloat_nil raw) 0
    rw [List.append_nil] at scanned
    refine ⟨raw, ⟨0, 0 + raw.length⟩, ?_⟩
    rw [Scanner.ofSource, Scans.events_append raw scanned]
    exact List.mem_cons_self

end Literal

end Numeral

open Numeral

/-- The integers that a scanner yields are the written ones. One is read at the value of its digits
if it has any and the value fits 64 bits; otherwise it is malformed or too large. Zeros in front of
its digits change nothing, the base included. -/
theorem integers_read_at_value :
    (∀ raw, (∃ source span, Event.token ⟨.int, raw, span⟩ ∈ (Scanner.ofSource source).events) ↔
      ∃ literal : Literal, literal.text = raw) ∧
    ∀ literal : Literal,
      (∀ value, read literal.text = .ok value ↔
        literal.digits ≠ [] ∧ value.toNat = literal.value) ∧
      (read literal.text = .error (.malformed literal.radix.lead) ↔ literal.digits = []) ∧
      (read literal.text = .error (.tooLarge literal.digits) ↔ 2 ^ 64 ≤ literal.value) ∧
      (literal.digits ≠ [] → ∀ count value,
        read (literal.padded count).text = .ok value ↔ read literal.text = .ok value) := by
  refine ⟨Literal.exists_token_iff, fun literal => ⟨literal.read_eq_ok_iff,
    literal.read_eq_malformed_iff, literal.read_eq_tooLarge_iff, fun hasDigit count value => ?_⟩⟩
  have stillDigits : (literal.padded count).digits ≠ [] := by
    rw [literal.digits_padded]
    exact List.append_ne_nil_of_right_ne_nil _ hasDigit
  rw [Literal.read_eq_ok_iff, Literal.read_eq_ok_iff, literal.value_padded]
  exact and_congr_left fun _ => iff_of_true stillDigits hasDigit

/-- The byte 0xb8 with an underscore in front of each digit and a type name. -/
def separatedByte : Literal where
  radix := .hexadecimal
  body := word ['_', 'b', '_', '8']
  suffix := word ['u', '8']
  isBody := by
    refine ⟨by decide, ?_, by decide⟩
    apply Bytes.forall_mem_of_all
    decide
  isSuffix := .inr (by decide)

theorem separatedByte_read_at_value :
    separatedByte.digits ≠ [] ∧ read (separatedByte.padded 2).text = .ok 0xb8 := by
  obtain ⟨reads, -, -, zeros⟩ := integers_read_at_value.2 separatedByte
  have hasDigit : separatedByte.digits ≠ [] := by decide
  exact ⟨hasDigit, (zeros hasDigit 2 0xb8).mpr ((reads 0xb8).mpr ⟨hasDigit, by decide⟩)⟩

end Unroll
