import Mathlib.Algebra.Group.Nat.Defs
import Unroll.Proofs.RangeValues

set_option autoImplicit false

/-!
# Counting through a range

The values of a range are called on by a counter of 64 bits that is raised until it is the stop. The
only exit is a test for equality, so a counter that has passed the stop would wrap around and come
back from below. It never does: a range that is not empty is entered at or below its stop, and the
counter is raised below the stop only. The number of calls fits 64 bits for every range but one.
-/

namespace Unroll

namespace Range

/-- The number of values. -/
def count (range : Range) : Nat :=
  range.stop.toNat + (if range.inclusive then 1 else 0) - range.start.toNat

/-- The range of all numbers of 64 bits, the only one whose values are too many for 64 bits. -/
def whole : Range := ⟨0, 0xffffffffffffffff, true⟩

/-- The ranges that are not entered. -/
def IsVoid (range : Range) : Prop :=
  range.stop < range.start ∨ range.start = range.stop ∧ range.inclusive = false

/-- The rounds from a counter on: the counter in each of them, and the numbers that are called on.
The counter is raised as a word of 64 bits, wherever the stop is. -/
inductive Rounds (range : Range) : UInt64 → List UInt64 → List UInt64 → Prop
  | last : Rounds range range.stop [range.stop] (if range.inclusive then [range.stop] else [])
  | raise {counter : UInt64} {counters calls : List UInt64} (notStop : counter ≠ range.stop)
      (later : Rounds range (counter + 1) counters calls) :
      Rounds range counter (counter :: counters) (counter :: calls)

theorem Rounds.unique {range : Range} {counter : UInt64}
    {counters counters' calls calls' : List UInt64}
    (rounds : range.Rounds counter counters calls)
    (rounds' : range.Rounds counter counters' calls') : counters' = counters ∧ calls' = calls := by
  induction rounds generalizing counters' calls' with
  | last =>
    cases rounds' with
    | last => exact ⟨rfl, rfl⟩
    | raise notStop => exact absurd rfl notStop
  | raise notStop _ inductionHypothesis =>
    cases rounds' with
    | last => exact absurd rfl notStop
    | raise _ later' =>
      obtain ⟨sameCounters, sameCalls⟩ := inductionHypothesis later'
      rw [sameCounters, sameCalls]
      exact ⟨rfl, rfl⟩

variable (stop : UInt64) (inclusive : Bool) (value : UInt64)

theorem toNat_valuesFrom :
    (valuesFrom stop inclusive value).map UInt64.toNat =
      List.range' value.toNat (count ⟨value, stop, inclusive⟩) := by
  fun_induction valuesFrom stop inclusive value with
  | case1 value below inductionHypothesis =>
    have bound := UInt64.lt_iff_toNat_lt.mp below
    have more : count ⟨value, stop, inclusive⟩ = count ⟨value + 1, stop, inclusive⟩ + 1 := by
      simp only [count, toNat_succ below]
      omega
    rw [List.map_cons, inductionHypothesis, more, List.range'_succ, toNat_succ below]
  | case2 value notBelow isLast =>
    obtain ⟨rfl, rfl⟩ := isLast
    have one : count ⟨value, value, true⟩ = 1 := by simp [count]
    rw [one, List.map_singleton, List.range'_one]
  | case3 value notBelow notLast =>
    have none : count ⟨value, stop, inclusive⟩ = 0 := by
      rw [UInt64.lt_iff_toNat_lt] at notBelow
      rw [← UInt64.toNat_inj] at notLast
      unfold count
      grind
    rw [none, List.map_nil, List.range'_zero]

theorem firstFrom_eq_take (number : Nat) :
    firstFrom stop inclusive number value = (valuesFrom stop inclusive value).take number := by
  induction number generalizing value with
  | zero => rfl
  | succ number inductionHypothesis =>
    rw [firstFrom, valuesFrom, inductionHypothesis]
    by_cases below : value < stop
    · rw [if_pos below, if_pos below, List.take_succ_cons]
    · rw [if_neg below, if_neg below]
      by_cases isLast : value = stop ∧ inclusive = true
      · rw [if_pos isLast, List.take_succ_cons, List.take_nil]
      · rw [if_neg isLast, List.take_nil]

variable {value}

/-- A counter that is not above the stop is raised up to it, number by number. -/
theorem exists_rounds (range : Range) (upTo : value ≤ range.stop) :
    ∃ counters, range.Rounds value counters (valuesFrom range.stop range.inclusive value) ∧
      counters.map UInt64.toNat =
        List.range' value.toNat (range.stop.toNat - value.toNat + 1) := by
  fun_induction valuesFrom range.stop range.inclusive value with
  | case1 value below inductionHypothesis =>
    have bound := UInt64.lt_iff_toNat_lt.mp below
    have notStop : value ≠ range.stop := UInt64.ne_of_lt below
    have one : range.stop.toNat - value.toNat = range.stop.toNat - (value + 1).toNat + 1 := by
      rw [toNat_succ below]
      omega
    obtain ⟨counters, later, numbers⟩ := inductionHypothesis ((succ_le_iff below _).mpr below)
    refine ⟨value :: counters, .raise notStop later, ?_⟩
    rw [List.map_cons, numbers, one, List.range'_succ (s := value.toNat), toNat_succ below]
  | case2 value notBelow isLast =>
    obtain ⟨rfl, isInclusive⟩ := isLast
    have rounds : range.Rounds range.stop _ _ := .last
    rw [if_pos isInclusive] at rounds
    refine ⟨[range.stop], rounds, ?_⟩
    rw [Nat.sub_self, List.map_singleton, List.range'_one]
  | case3 value notBelow notLast =>
    obtain rfl : value = range.stop := UInt64.le_antisymm upTo (UInt64.not_lt.mp notBelow)
    have rounds : range.Rounds range.stop _ _ := .last
    rw [if_neg (fun isInclusive => notLast ⟨rfl, isInclusive⟩)] at rounds
    refine ⟨[range.stop], rounds, ?_⟩
    rw [Nat.sub_self, List.map_singleton, List.range'_one]

variable (range : Range)

theorem length_values : range.values.length = range.count := by
  have numbers := congrArg List.length (toNat_valuesFrom range.stop range.inclusive range.start)
  rwa [List.length_map, List.length_range'] at numbers

theorem values_eq_nil_iff : range.values = [] ↔ range.IsVoid := by
  rw [List.eq_nil_iff_length_eq_zero, length_values, count, IsVoid, UInt64.lt_iff_toNat_lt,
    ← UInt64.toNat_inj]
  cases range.inclusive with
  | false =>
    simp only [Bool.false_eq_true, if_false, and_true]
    omega
  | true =>
    simp only [if_true, Bool.true_eq_false, and_false, or_false]
    omega

theorem start_le_of_not_isVoid (entered : ¬ range.IsVoid) : range.start ≤ range.stop :=
  UInt64.not_lt.mp fun above => entered (.inl above)

/-- The length is the number of values, cut off at the largest number of 64 bits. -/
theorem toNat_length : range.length.toNat = min range.count (2 ^ 64 - 1) := by
  have startFits := range.start.toNat_lt
  have stopFits := range.stop.toNat_lt
  unfold length count
  by_cases above : range.stop < range.start
  · have bound := UInt64.lt_iff_toNat_lt.mp above
    rw [if_pos above, UInt64.toNat_zero]
    split
    · omega
    · omega
  · have ordered := UInt64.not_lt.mp above
    have bound := UInt64.le_iff_toNat_le.mp ordered
    have distance := UInt64.toNat_sub_of_le _ _ ordered
    have largest : (0xffffffffffffffff : UInt64).toNat = 2 ^ 64 - 1 := rfl
    rw [if_neg above]
    dsimp only
    by_cases raised : range.inclusive ∧ range.stop - range.start < 0xffffffffffffffff
    · have notFull := UInt64.lt_iff_toNat_lt.mp raised.2
      rw [if_pos raised, if_pos raised.1, toNat_succ raised.2, distance]
      omega
    · rw [if_neg raised, distance]
      by_cases isInclusive : range.inclusive = true
      · have full := UInt64.not_lt.mp fun notFull => raised ⟨isInclusive, notFull⟩
        rw [UInt64.le_iff_toNat_le] at full
        rw [if_pos isInclusive]
        omega
      · rw [if_neg isInclusive]
        omega

theorem count_lt_of_ne_whole (notWhole : range ≠ whole) : range.count < 2 ^ 64 := by
  obtain ⟨start, stop, inclusive⟩ := range
  have stopFits := stop.toNat_lt
  have largest : (0xffffffffffffffff : UInt64).toNat = 2 ^ 64 - 1 := rfl
  apply Nat.lt_of_not_le
  intro tooMany
  apply notWhole
  cases inclusive with
  | false =>
    simp only [count, Bool.false_eq_true, if_false] at tooMany
    omega
  | true =>
    simp only [count, if_true] at tooMany
    have isStart : start = 0 := UInt64.toNat_inj.mp (by rw [UInt64.toNat_zero]; omega)
    have isStop : stop = 0xffffffffffffffff := UInt64.toNat_inj.mp (by omega)
    rw [isStart, isStop, whole]

theorem length_eq_length_values (notWhole : range ≠ whole) :
    range.length.toNat = range.values.length := by
  have fits := range.count_lt_of_ne_whole notWhole
  rw [toNat_length, length_values]
  omega

/-- The rounds from the first number of a range are one counter that ends at the stop without having
wrapped around, and what is called on are the values. -/
theorem exists_rounds_iff (entered : ¬ range.IsVoid) :
    ∃ counters,
      counters.map UInt64.toNat =
        List.range' range.start.toNat (range.stop.toNat - range.start.toNat + 1) ∧
      ∀ counters' calls, range.Rounds range.start counters' calls ↔
        counters' = counters ∧ calls = range.values := by
  obtain ⟨counters, rounds, numbers⟩ := range.exists_rounds (range.start_le_of_not_isVoid entered)
  refine ⟨counters, numbers, fun counters' calls => ⟨rounds.unique, ?_⟩⟩
  rintro ⟨rfl, rfl⟩
  exact rounds

end Range

/-- The values of a range are the numbers in it, each one once and in ascending order: as natural
numbers they are consecutive. The ranges that are not entered are the empty ones, and through any
other one the counter is raised from the first number to the stop without wrapping around. The
length is the number of the values, but for the range of all numbers. -/
theorem range_counted_exactly (range : Range) :
    range.Enumerates range.values ∧
    range.values.map UInt64.toNat = List.range' range.start.toNat range.count ∧
    (∀ number, range.first number = range.values.take number) ∧
    (range.values = [] ↔ range.IsVoid) ∧
    (¬ range.IsVoid → ∃ counters,
      counters.map UInt64.toNat =
        List.range' range.start.toNat (range.stop.toNat - range.start.toNat + 1) ∧
      ∀ counters' calls, range.Rounds range.start counters' calls ↔
        counters' = counters ∧ calls = range.values) ∧
    (range ≠ Range.whole → range.length.toNat = range.values.length) ∧
    Range.whole.length.toNat = 2 ^ 64 - 1 ∧ Range.whole.values.length = 2 ^ 64 := by
  refine ⟨range.enumerates_values, Range.toNat_valuesFrom _ _ _, Range.firstFrom_eq_take _ _ _,
    range.values_eq_nil_iff, range.exists_rounds_iff, range.length_eq_length_values, ?_, ?_⟩
  · rw [Range.toNat_length]
    rfl
  · rw [Range.length_values]
    rfl

/-- The last three numbers of 64 bits. -/
def lastThree : Range := ⟨0xfffffffffffffffd, 0xffffffffffffffff, true⟩

theorem lastThree_counted :
    ¬ lastThree.IsVoid ∧ lastThree ≠ Range.whole ∧
    lastThree.values = [0xfffffffffffffffd, 0xfffffffffffffffe, 0xffffffffffffffff] ∧
    lastThree.length.toNat = 3 ∧
    ∃ counters, lastThree.Rounds lastThree.start counters lastThree.values := by
  obtain ⟨-, numbers, -, -, entered, counted, -⟩ := range_counted_exactly lastThree
  have notVoid : ¬ lastThree.IsVoid := by
    unfold Range.IsVoid
    decide
  have notWhole : lastThree ≠ Range.whole := by decide
  obtain ⟨counters, -, runs⟩ := entered notVoid
  have isValues : lastThree.values =
      [0xfffffffffffffffd, 0xfffffffffffffffe, 0xffffffffffffffff] := by
    apply (List.map_inj_right fun _ _ => UInt64.toNat_inj.mp).mp
    exact numbers
  refine ⟨notVoid, notWhole, isValues, ?_, counters, (runs counters _).mpr ⟨rfl, rfl⟩⟩
  rw [counted notWhole, isValues]
  rfl

end Unroll
