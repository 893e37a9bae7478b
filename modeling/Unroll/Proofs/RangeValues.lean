import Unroll.Loop.Range

set_option autoImplicit false

/-!
# The values of a range

The values of a range are the numbers it contains, each one once and in ascending order, up to the
largest number of 64 bits. Ranges that adjoin each other have together the values of the whole.
-/

namespace Unroll.Range

/-- The numbers from the first one of a range to the last one, which counts if it is included. -/
def Contains (range : Range) (value : UInt64) : Prop :=
  range.start ≤ value ∧ if range.inclusive then value ≤ range.stop else value < range.stop

instance (range : Range) (value : UInt64) : Decidable (range.Contains value) :=
  inferInstanceAs (Decidable (range.start ≤ value ∧
    if range.inclusive then value ≤ range.stop else value < range.stop))

/-- A list holds the numbers of a range and no others, in strictly ascending order. -/
structure Enumerates (range : Range) (values : List UInt64) : Prop where
  mem_iff : ∀ value, value ∈ values ↔ range.Contains value
  ascending : values.Pairwise (· < ·)

/-- Below another number a number can be raised without wrapping around. -/
theorem toNat_succ {value stop : UInt64} (below : value < stop) :
    (value + 1).toNat = value.toNat + 1 := by
  have bound := UInt64.lt_iff_toNat_lt.mp below
  have fits := stop.toNat_lt
  rw [UInt64.toNat_add, UInt64.toNat_one, Nat.mod_eq_of_lt (by omega)]

theorem succ_le_iff {value stop : UInt64} (below : value < stop) (other : UInt64) :
    value + 1 ≤ other ↔ value < other := by
  rw [UInt64.le_iff_toNat_le, UInt64.lt_iff_toNat_lt, toNat_succ below]
  exact Nat.succ_le_iff

theorem mem_valuesFrom_iff (stop : UInt64) (inclusive : Bool) (value other : UInt64) :
    other ∈ valuesFrom stop inclusive value ↔ Contains ⟨value, stop, inclusive⟩ other := by
  fun_induction valuesFrom stop inclusive value with
  | case1 value below inductionHypothesis =>
    rw [List.mem_cons, inductionHypothesis]
    simp only [Contains, succ_le_iff below]
    grind
  | case2 value notBelow isLast =>
    obtain ⟨rfl, rfl⟩ := isLast
    simp only [Contains, List.mem_singleton, if_true]
    grind
  | case3 value notBelow notLast =>
    simp only [Contains, List.not_mem_nil, false_iff]
    grind

theorem ascending_valuesFrom (stop : UInt64) (inclusive : Bool) (value : UInt64) :
    (valuesFrom stop inclusive value).Pairwise (· < ·) := by
  fun_induction valuesFrom stop inclusive value with
  | case1 value below inductionHypothesis =>
    apply List.Pairwise.cons _ inductionHypothesis
    intro other membership
    exact (succ_le_iff below other).mp ((mem_valuesFrom_iff _ _ _ _).mp membership).1
  | case2 => exact List.pairwise_singleton _ _
  | case3 => exact List.Pairwise.nil

theorem enumerates_values (range : Range) : range.Enumerates range.values :=
  ⟨mem_valuesFrom_iff range.stop range.inclusive range.start,
    ascending_valuesFrom range.stop range.inclusive range.start⟩

theorem valuesFrom_append {first middle last : UInt64} (lower : first ≤ middle)
    (upper : middle ≤ last) :
    valuesFrom last false first =
      valuesFrom middle false first ++ valuesFrom last false middle := by
  fun_induction valuesFrom middle false first with
  | case1 value below inductionHypothesis =>
    have belowLast : value < last := by grind
    have split := inductionHypothesis ((succ_le_iff below middle).mpr below)
    rw [valuesFrom, if_pos belowLast, split, List.cons_append]
  | case2 value notBelow isLast => cases isLast.2
  | case3 value notBelow notLast =>
    have isMiddle : value = middle := by grind
    rw [isMiddle, List.nil_append]

/-- A range that includes its last number is the one up to the next number, if there is a next
one. -/
theorem valuesFrom_succ {stop : UInt64} (notLargest : stop < 0xffffffffffffffff)
    (value : UInt64) : valuesFrom stop true value = valuesFrom (stop + 1) false value := by
  have below_iff (other : UInt64) : other < stop + 1 ↔ other ≤ stop := by
    have beyond := succ_le_iff notLargest other
    grind
  fun_induction valuesFrom stop true value with
  | case1 value below inductionHypothesis =>
    have belowNext := (below_iff value).mpr (UInt64.le_of_lt below)
    rw [valuesFrom.eq_def (stop + 1) false value, if_pos belowNext, inductionHypothesis]
  | case2 value notBelow isLast =>
    obtain ⟨rfl, -⟩ := isLast
    have belowNext := (below_iff value).mpr (UInt64.le_refl value)
    rw [valuesFrom, if_pos belowNext, valuesFrom, if_neg (UInt64.lt_irrefl _)]
    simp
  | case3 value notBelow notLast =>
    have notBelowNext : ¬ value < stop + 1 := by
      rw [below_iff]
      grind
    rw [valuesFrom, if_neg notBelowNext]
    simp

end Unroll.Range
