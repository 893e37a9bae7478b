import Unroll.Loop.Numeral
import Unroll.Proofs.ExpansionReading

set_option autoImplicit false

/-!
# Reading numerals

Digits are read one behind the other, so a numeral can be read in parts. The decimal digits of a
number are read as the number.
-/

namespace Unroll.Numeral

theorem readFrom_append (base : Nat) (all : Bytes) (value : Nat) (front back : Bytes) :
    readFrom base all value (front ++ back) =
      (readFrom base all value front).bind fun value => readFrom base all value back := by
  induction front generalizing value with
  | nil => rfl
  | cons digit front inductionHypothesis =>
    rw [List.cons_append, readFrom, readFrom]
    cases digitValue? digit with
    | none => rfl
    | some digitValue =>
      simp only
      split
      · rfl
      · split
        · rfl
        · exact inductionHypothesis _

theorem digitValue?_digit {digit : Nat} (small : digit < 10) :
    digitValue? (48 + digit).toUInt8 = some digit := by
  have digits : ∀ digit < 10, digitValue? (48 + digit).toUInt8 = some digit := by decide
  exact digits digit small

theorem readFrom_digit (all : Bytes) {value digit : Nat} (small : digit < 10)
    (fits : value * 10 + digit < 0x10000000000000000) :
    readFrom 10 all value [(48 + digit).toUInt8] = .ok (value * 10 + digit) := by
  simp only [readFrom, digitValue?_digit small]
  rw [if_neg (by omega), if_neg (by omega)]

theorem readFrom_decimal (all : Bytes) {number : Nat} (fits : number < 0x10000000000000000) :
    readFrom 10 all 0 (Bytes.decimal number) = .ok number := by
  fun_induction Bytes.decimal number with
  | case1 number small =>
    rw [readFrom_digit all small (by omega)]
    simp
  | case2 number large inductionHypothesis =>
    have split : number / 10 * 10 + number % 10 = number := by omega
    rw [readFrom_append, inductionHypothesis (by omega), Except.bind,
      readFrom_digit all (by omega) (by omega), split]

/-! Digits alone have no type name, no underscores and no base letter. -/

variable {raw : Bytes}

/-- Each type name has a letter that no digit is. -/
theorem withoutSuffix_of_notMem (noUnsigned : byte 'u' ∉ raw) (noSigned : byte 'i' ∉ raw) :
    withoutSuffix raw = raw := by
  have letters : ∀ suffix ∈ suffixes, byte 'u' ∈ suffix ∨ byte 'i' ∈ suffix := by decide
  have noSuffix : suffixes.find? (·.isSuffixOf raw) = none := by
    apply List.find?_eq_none.mpr
    intro suffix membership isSuffix
    have inRaw := (List.isSuffixOf_iff_suffix.mp isSuffix).subset
    rcases letters suffix membership with unsigned | signed
    · exact noUnsigned (inRaw unsigned)
    · exact noSigned (inRaw signed)
  rw [withoutSuffix, noSuffix]

theorem withoutSuffix_of_digits (digits : ∀ b ∈ raw, Rule.isDigit b = true) :
    withoutSuffix raw = raw :=
  withoutSuffix_of_notMem (fun membership => absurd (digits _ membership) (by decide))
    (fun membership => absurd (digits _ membership) (by decide))

theorem withoutUnderscores_of_digits (digits : ∀ b ∈ raw, Rule.isDigit b = true) :
    withoutUnderscores raw = raw := by
  apply List.filter_eq_self.mpr
  intro b membership
  have noLetter := (Rule.isDigit_apart (digits b membership)).1
  rw [Rule.startsName, Bool.or_eq_false_iff] at noLetter
  rw [noLetter.2, Bool.not_false]

theorem baseOf?_of_isDigit {letter : UInt8} (digit : Rule.isDigit letter = true) :
    baseOf? letter = none := by
  have letters : ∀ letter ∈ word ['x', 'o', 'b'], Rule.isDigit letter = false := by
    apply Bytes.forall_mem_of_all
    decide
  have apart : letter ∉ word ['x', 'o', 'b'] := by
    intro membership
    rw [letters letter membership] at digit
    cases digit
  simp only [word, List.map, List.mem_cons, List.not_mem_nil, or_false, not_or] at apart
  obtain ⟨notHexadecimal, notOctal, notBinary⟩ := apart
  rw [baseOf?, if_neg notHexadecimal, if_neg notOctal, if_neg notBinary]

theorem splitBase_of_digits (digits : ∀ b ∈ raw, Rule.isDigit b = true) :
    splitBase raw = (10, raw) := by
  unfold splitBase
  split
  · rename_i zero letter digit rest
    have noBase : baseOf? letter = none := baseOf?_of_isDigit (digits letter (by simp))
    rw [noBase]
    split <;> rfl
  · rfl

theorem read_decimal (value : UInt64) : read (Bytes.decimal value.toNat) = .ok value := by
  have digits := Bytes.isDigit_decimal value.toNat
  have nonempty : (Bytes.decimal value.toNat).isEmpty = false :=
    List.isEmpty_eq_false_iff.mpr (Bytes.decimal_ne_nil value.toNat)
  simp only [read, withoutSuffix_of_digits digits, withoutUnderscores_of_digits digits,
    splitBase_of_digits digits, readDigits, nonempty, readFrom_decimal _ value.toNat_lt,
    Bool.false_eq_true, if_false, Except.map, UInt64.ofNat_toNat]

end Unroll.Numeral
