import Mathlib.Data.List.Induction
import Mathlib.Order.Bounds.Basic
import Unroll.Tree.Basic

set_option autoImplicit false

/-!
# The span of a stream

A null span adds nothing where it is extended, but it is an ordinary pair of zeros where it extends
another one. So the span of a stream always ends with its last node, but it starts at zero once a
node without a position stands behind one with a position.
-/

namespace Unroll

namespace Span

theorem isNull_iff (span : Span) : span.isNull = true ↔ span.start = 0 ∧ span.stop = 0 := by
  obtain ⟨start, stop⟩ := span
  simp [isNull, null]

theorem eq_null_of_isNull {span : Span} (isNull : span.isNull = true) : span = null :=
  beq_iff_eq.mp isNull

theorem isNull_eq_false_iff (span : Span) :
    span.isNull = false ↔ ¬ (span.start = 0 ∧ span.stop = 0) := by
  rw [← isNull_iff, Bool.not_eq_true]

theorem stop_extend (span other : Span) :
    (span.extend other).stop = max span.stop other.stop := by
  unfold extend
  split
  · rename_i isNull
    rw [eq_null_of_isNull isNull]
    exact (Nat.zero_max _).symm
  · rfl

theorem start_extend {span : Span} (isPosition : span.isNull = false) (other : Span) :
    (span.extend other).start = min span.start other.start := by
  rw [extend, isPosition]
  rfl

/-- The smallest span that reaches over all spans of a list. -/
structure IsHull (spans : List Span) (hull : Span) : Prop where
  start : IsLeast {offset | ∃ span ∈ spans, span.start = offset} hull.start
  stop : IsGreatest {offset | ∃ span ∈ spans, span.stop = offset} hull.stop

/-- The spans of a list that are a position. -/
def positioned (spans : List Span) : List Span := spans.filter (! ·.isNull)

theorem mem_positioned_iff (spans : List Span) (span : Span) :
    span ∈ positioned spans ↔ span ∈ spans ∧ span.isNull = false := by
  simp [positioned]

/-- The null span if no span of the list is a position, else the hull of those that are. -/
def IsPositionedHull (spans : List Span) (hull : Span) : Prop :=
  if positioned spans = [] then hull = null else IsHull (positioned spans) hull

/-- Null spans do no harm: a position starts at zero anyway, or there are positions only behind
spans that stop at zero, and none of these is a position that starts before all behind it. -/
def Anchored (spans : List Span) : Prop :=
  (∃ span ∈ positioned spans, span.start = 0) ∨
    ∃ front back, spans = front ++ back ∧ (∀ span ∈ front, span.stop = 0) ∧
      (∀ span ∈ back, span.isNull = false) ∧
      ∀ span ∈ positioned front, ∃ other ∈ back, other.start ≤ span.start

/-- The span that is reached by extending the null span with the spans of a list in turn. -/
def cover (spans : List Span) : Span := spans.foldl extend null

theorem cover_concat (spans : List Span) (span : Span) :
    cover (spans ++ [span]) = (cover spans).extend span := by
  simp [cover]

namespace IsHull

variable {spans : List Span} {hull : Span}

theorem singleton (span : Span) : IsHull [span] span := by
  constructor
  · simp [IsLeast, lowerBounds]
  · simp [IsGreatest, upperBounds]

theorem start_le (isHull : IsHull spans hull) {span : Span} (membership : span ∈ spans) :
    hull.start ≤ span.start :=
  isHull.start.2 ⟨span, membership, rfl⟩

theorem le_stop (isHull : IsHull spans hull) {span : Span} (membership : span ∈ spans) :
    span.stop ≤ hull.stop :=
  isHull.stop.2 ⟨span, membership, rfl⟩

theorem unique {other : List Span} {hull' : Span} (isHull : IsHull spans hull)
    (isHull' : IsHull other hull') (same : ∀ span, span ∈ spans ↔ span ∈ other) :
    hull = hull' := by
  have starts := isHull.start
  have stops := isHull.stop
  simp only [same] at starts stops
  obtain ⟨start, stop⟩ := hull
  obtain ⟨start', stop'⟩ := hull'
  obtain rfl : start = start' := starts.unique isHull'.start
  obtain rfl : stop = stop' := stops.unique isHull'.stop
  rfl

/-- A hull of positions is a position. -/
theorem isNull_eq_false (isHull : IsHull spans hull)
    (arePositions : ∀ span ∈ spans, span.isNull = false) : hull.isNull = false := by
  rw [isNull_eq_false_iff]
  intro isZero
  obtain ⟨span, membership, isStart⟩ := isHull.start.1
  have isPosition := (isNull_eq_false_iff span).mp (arePositions span membership)
  have stops := isHull.le_stop membership
  omega

theorem extend (isHull : IsHull spans hull) (isPosition : hull.isNull = false) (other : Span) :
    IsHull (spans ++ [other]) (hull.extend other) := by
  obtain ⟨first, isFirst, isStart⟩ := isHull.start.1
  obtain ⟨last, isLast, isStop⟩ := isHull.stop.1
  have starts := start_extend isPosition other
  have stops := stop_extend hull other
  refine ⟨⟨?_, ?_⟩, ?_, ?_⟩
  · by_cases earlier : other.start ≤ hull.start
    · exact ⟨other, by simp, by omega⟩
    · exact ⟨first, by simp [isFirst], by omega⟩
  · rintro _ ⟨span, membership, rfl⟩
    rcases List.mem_append.mp membership with inSpans | isOther
    · have bound := isHull.start_le inSpans
      omega
    · rw [List.mem_singleton.mp isOther]
      omega
  · by_cases later : hull.stop ≤ other.stop
    · exact ⟨other, by simp, by omega⟩
    · exact ⟨last, by simp [isLast], by omega⟩
  · rintro _ ⟨span, membership, rfl⟩
    rcases List.mem_append.mp membership with inSpans | isOther
    · have bound := isHull.le_stop inSpans
      omega
    · rw [List.mem_singleton.mp isOther]
      omega

theorem foldl (isHull : IsHull spans hull) (arePositions : ∀ span ∈ spans, span.isNull = false)
    {more : List Span} (arePositions' : ∀ span ∈ more, span.isNull = false) :
    IsHull (spans ++ more) (more.foldl Span.extend hull) := by
  induction more generalizing spans hull with
  | nil =>
    rw [List.append_nil]
    exact isHull
  | cons other more inductionHypothesis =>
    obtain ⟨isPosition, arePositions'⟩ := List.forall_mem_cons.mp arePositions'
    have extended := isHull.extend (isHull.isNull_eq_false arePositions) other
    have allPositions : ∀ span ∈ spans ++ [other], span.isNull = false :=
      List.forall_mem_append.mpr ⟨arePositions, List.forall_mem_singleton.mpr isPosition⟩
    rw [List.append_cons]
    exact inductionHypothesis extended allPositions arePositions'

end IsHull

/-- Where all spans are positions, extending them in turn gives their hull. -/
theorem isHull_cover {spans : List Span} (nonempty : spans ≠ [])
    (arePositions : ∀ span ∈ spans, span.isNull = false) : IsHull spans (cover spans) := by
  cases spans with
  | nil => exact absurd rfl nonempty
  | cons span spans =>
    obtain ⟨isPosition, arePositions⟩ := List.forall_mem_cons.mp arePositions
    exact (IsHull.singleton span).foldl (List.forall_mem_singleton.mpr isPosition) arePositions

/-- What is reached in the end is the hull of the last spans, with null spans among them counted as
zeros, and all spans in front of these stop at zero. -/
theorem exists_isHull_cover (spans : List Span) :
    ∃ front back, spans = front ++ back ∧ (∀ span ∈ front, span.stop = 0) ∧
      (back = [] ∧ cover spans = null ∨
        (cover spans).isNull = false ∧ IsHull back (cover spans)) := by
  induction spans using List.reverseRecOn with
  | nil => exact ⟨[], [], rfl, List.forall_mem_nil _, .inl ⟨rfl, rfl⟩⟩
  | append_singleton spans span inductionHypothesis =>
    obtain ⟨front, back, isSplit, stops, reached⟩ := inductionHypothesis
    rw [cover_concat]
    by_cases isNull : ((cover spans).extend span).isNull = true
    · -- nothing is reached, or a null span takes back what was reached, which stops at zero too
      refine ⟨spans ++ [span], [], (List.append_nil _).symm, ?_,
        .inl ⟨rfl, eq_null_of_isNull isNull⟩⟩
      have isZero := ((isNull_iff _).mp isNull).2
      rw [stop_extend] at isZero
      have inBack : ∀ span ∈ back, span.stop = 0 := by
        intro other membership
        rcases reached with ⟨rfl, -⟩ | ⟨-, isHull⟩
        · cases membership
        · have bound := isHull.le_stop membership
          omega
      rw [isSplit]
      simp only [List.forall_mem_append, List.forall_mem_singleton]
      exact ⟨⟨stops, inBack⟩, by omega⟩
    · rw [Bool.not_eq_true] at isNull
      rcases reached with ⟨rfl, isStart⟩ | ⟨isPosition, isHull⟩
      · rw [isStart] at isNull ⊢
        exact ⟨front, [span], by rw [isSplit, List.append_nil], stops,
          .inr ⟨isNull, .singleton span⟩⟩
      · exact ⟨front, back ++ [span], by rw [isSplit, List.append_assoc], stops,
          .inr ⟨isNull, isHull.extend isPosition span⟩⟩

section

variable {spans : List Span}

theorem le_stop_cover {span : Span} (membership : span ∈ spans) :
    span.stop ≤ (cover spans).stop := by
  obtain ⟨front, back, rfl, stops, reached⟩ := exists_isHull_cover spans
  rcases List.mem_append.mp membership with inFront | inBack
  · rw [stops span inFront]
    exact Nat.zero_le _
  · rcases reached with ⟨rfl, -⟩ | ⟨-, isHull⟩
    · cases inBack
    · exact isHull.le_stop inBack

/-- The span ends where the last position ends. -/
theorem isGreatest_stop_cover (somePosition : positioned spans ≠ []) :
    IsGreatest {offset | ∃ span ∈ positioned spans, span.stop = offset} (cover spans).stop := by
  have bounds : ∀ span ∈ positioned spans, span.stop ≤ (cover spans).stop := fun span membership =>
    le_stop_cover ((mem_positioned_iff _ _).mp membership).1
  refine ⟨?_, ?_⟩
  · obtain ⟨front, back, isSplit, stops, reached⟩ := exists_isHull_cover spans
    obtain ⟨position, inPositions⟩ := List.exists_mem_of_ne_nil _ somePosition
    have bound := bounds position inPositions
    by_cases isZero : (cover spans).stop = 0
    · exact ⟨position, inPositions, by omega⟩
    · rcases reached with ⟨-, isNull⟩ | ⟨-, isHull⟩
      · rw [isNull] at isZero
        exact absurd rfl isZero
      · obtain ⟨last, inBack, isStop⟩ := isHull.stop.1
        refine ⟨last, (mem_positioned_iff _ _).mpr ⟨?_, ?_⟩, isStop⟩
        · rw [isSplit]
          exact List.mem_append_right _ inBack
        · rw [isNull_eq_false_iff]
          omega
  · rintro _ ⟨span, membership, rfl⟩
    exact bounds span membership

/-- Whether the span is the hull of the positions is a matter of its start. -/
theorem isPositionedHull_cover_iff (somePosition : positioned spans ≠ []) :
    IsPositionedHull spans (cover spans) ↔
      IsLeast {offset | ∃ span ∈ positioned spans, span.start = offset} (cover spans).start := by
  rw [IsPositionedHull, if_neg somePosition]
  constructor
  · exact IsHull.start
  · intro starts
    exact ⟨starts, isGreatest_stop_cover somePosition⟩

theorem cover_eq_null (noPosition : positioned spans = []) : cover spans = null := by
  have areNull : ∀ span ∈ spans, span.isNull = true := by
    simpa [positioned, List.filter_eq_nil_iff] using noPosition
  clear noPosition
  induction spans with
  | nil => rfl
  | cons span spans inductionHypothesis =>
    obtain ⟨isNull, inRest⟩ := List.forall_mem_cons.mp areNull
    obtain rfl := eq_null_of_isNull isNull
    exact inductionHypothesis inRest

/-- A position that starts at zero is never passed over. -/
theorem isLeast_start_of_zero {span : Span} (membership : span ∈ positioned spans)
    (isZero : span.start = 0) :
    IsLeast {offset | ∃ span ∈ positioned spans, span.start = offset} (cover spans).start := by
  obtain ⟨inSpans, isPosition⟩ := (mem_positioned_iff _ _).mp membership
  rw [isNull_eq_false_iff] at isPosition
  obtain ⟨front, back, rfl, stops, reached⟩ := exists_isHull_cover spans
  have starts : (cover (front ++ back)).start = 0 := by
    rcases reached with ⟨-, isNull⟩ | ⟨-, isHull⟩
    · rw [isNull]
      rfl
    · rcases List.mem_append.mp inSpans with inFront | inBack
      · exact absurd ⟨isZero, stops span inFront⟩ isPosition
      · have bound := isHull.start_le inBack
        omega
  rw [starts]
  exact ⟨⟨span, membership, isZero⟩, fun _ _ => Nat.zero_le _⟩

theorem cover_append (front back : List Span) :
    cover (front ++ back) = back.foldl extend (cover front) :=
  List.foldl_append

/-- What is reached over spans that stop at zero starts where a position among them starts. -/
theorem exists_start_cover (stops : ∀ span ∈ spans, span.stop = 0)
    (isPosition : (cover spans).isNull = false) :
    ∃ span ∈ positioned spans, span.start = (cover spans).start := by
  obtain ⟨front, back, rfl, -, reached⟩ := exists_isHull_cover spans
  rcases reached with ⟨-, isNull⟩ | ⟨-, isHull⟩
  · rw [isNull] at isPosition
    cases isPosition
  · obtain ⟨first, isFirst, isStart⟩ := isHull.start.1
    obtain ⟨last, isLast, isStop⟩ := isHull.stop.1
    have isZero := stops last (List.mem_append_right _ isLast)
    have notZero := (isNull_eq_false_iff _).mp isPosition
    refine ⟨first, (mem_positioned_iff _ _).mpr ⟨List.mem_append_right _ isFirst, ?_⟩, isStart⟩
    rw [isNull_eq_false_iff]
    omega

/-- Positions behind spans that stop at zero are extended from the null span, or from where one of
these spans starts. -/
theorem exists_start_cover_append {front back : List Span} (nonempty : back ≠ [])
    (stops : ∀ span ∈ front, span.stop = 0) (arePositions : ∀ span ∈ back, span.isNull = false) :
    (∃ span ∈ positioned front ++ back, span.start = (cover (front ++ back)).start) ∧
      ∀ span ∈ back, (cover (front ++ back)).start ≤ span.start := by
  rw [cover_append]
  by_cases isNull : (cover front).isNull = true
  · rw [eq_null_of_isNull isNull]
    have isHull := isHull_cover nonempty arePositions
    obtain ⟨first, isFirst, isStart⟩ := isHull.start.1
    exact ⟨⟨first, List.mem_append_right _ isFirst, isStart⟩, fun span => isHull.start_le⟩
  · rw [Bool.not_eq_true] at isNull
    obtain ⟨earliest, inFront, isEarliest⟩ := exists_start_cover stops isNull
    have isHull := (IsHull.singleton (cover front)).foldl (List.forall_mem_singleton.mpr isNull)
      arePositions
    refine ⟨?_, fun span membership => isHull.start_le (List.mem_cons_of_mem _ membership)⟩
    obtain ⟨first, isFirst, isStart⟩ := isHull.start.1
    rcases List.mem_cons.mp isFirst with rfl | inBack
    · exact ⟨earliest, List.mem_append_left _ inFront, isEarliest.trans isStart⟩
    · exact ⟨first, List.mem_append_right _ inBack, isStart⟩

theorem positioned_append (front back : List Span) :
    positioned (front ++ back) = positioned front ++ positioned back :=
  List.filter_append _ _

theorem positioned_eq_self (arePositions : ∀ span ∈ spans, span.isNull = false) :
    positioned spans = spans := by
  apply List.filter_eq_self.mpr
  simpa using arePositions

theorem Anchored.isPositionedHull (anchored : Anchored spans) :
    IsPositionedHull spans (cover spans) := by
  by_cases noPosition : positioned spans = []
  · rw [IsPositionedHull, if_pos noPosition]
    exact cover_eq_null noPosition
  · apply (isPositionedHull_cover_iff noPosition).mpr
    rcases anchored with ⟨span, membership, isZero⟩ | ⟨front, back, rfl, stops, arePositions, later⟩
    · exact isLeast_start_of_zero membership isZero
    · rw [positioned_append, positioned_eq_self arePositions] at noPosition ⊢
      have nonempty : back ≠ [] := by
        rintro rfl
        rw [List.append_nil] at noPosition
        obtain ⟨span, membership⟩ := List.exists_mem_of_ne_nil _ noPosition
        obtain ⟨_, impossible, -⟩ := later span membership
        cases impossible
      obtain ⟨starts, earlier⟩ := exists_start_cover_append nonempty stops arePositions
      refine ⟨starts, ?_⟩
      rintro _ ⟨span, membership, rfl⟩
      rcases List.mem_append.mp membership with inFront | inBack
      · obtain ⟨other, inBack, isEarlier⟩ := later span inFront
        exact Nat.le_trans (earlier other inBack) isEarlier
      · exact earlier span inBack

theorem IsPositionedHull.anchored (isHull : IsPositionedHull spans (cover spans)) :
    Anchored spans := by
  by_cases noPosition : positioned spans = []
  · refine .inr ⟨spans, [], (List.append_nil _).symm, ?_, List.forall_mem_nil _, ?_⟩
    · have bound : (cover spans).stop = 0 := by rw [cover_eq_null noPosition]; rfl
      intro span membership
      have stops := le_stop_cover membership
      omega
    · rw [noPosition]
      exact List.forall_mem_nil _
  · obtain ⟨⟨first, isFirst, isStart⟩, starts⟩ :=
      (isPositionedHull_cover_iff noPosition).mp isHull
    by_cases isZero : first.start = 0
    · exact .inl ⟨first, isFirst, isZero⟩
    · obtain ⟨front, back, isSplit, stops, reached⟩ := exists_isHull_cover spans
      rcases reached with ⟨-, isNull⟩ | ⟨-, isHull⟩
      · rw [isNull] at isStart
        exact absurd isStart isZero
      · refine .inr ⟨front, back, isSplit, stops, ?_, ?_⟩
        · intro span membership
          have bound := isHull.start_le membership
          rw [isNull_eq_false_iff]
          omega
        · intro span membership
          obtain ⟨earliest, inBack, isEarliest⟩ := isHull.start.1
          have inPositions : span ∈ positioned spans := by
            rw [isSplit, positioned_append]
            exact List.mem_append_left _ membership
          have bound := starts ⟨span, inPositions, rfl⟩
          exact ⟨earliest, inBack, by omega⟩

/-- Among spans that start before they stop, only null spans in front of all positions are
harmless, unless a position starts at zero. -/
theorem anchored_iff_of_le (ordered : ∀ span ∈ spans, span.start ≤ span.stop) :
    Anchored spans ↔ (∃ span ∈ positioned spans, span.start = 0) ∨
      ∃ front back, spans = front ++ back ∧ (∀ span ∈ front, span.isNull = true) ∧
        ∀ span ∈ back, span.isNull = false := by
  constructor
  · rintro (zero | ⟨front, back, rfl, stops, arePositions, -⟩)
    · exact .inl zero
    · refine .inr ⟨front, back, rfl, ?_, arePositions⟩
      intro span membership
      have stop := stops span membership
      have start := ordered span (List.mem_append_left _ membership)
      rw [isNull_iff]
      omega
  · rintro (zero | ⟨front, back, rfl, areNull, arePositions⟩)
    · exact .inl zero
    · refine .inr ⟨front, back, rfl, ?_, arePositions, ?_⟩
      · intro span membership
        exact ((isNull_iff span).mp (areNull span membership)).2
      · intro span membership
        obtain ⟨inFront, isPosition⟩ := (mem_positioned_iff _ _).mp membership
        rw [areNull span inFront] at isPosition
        cases isPosition

theorem Anchored.cover_eq {other : List Span} (anchored : Anchored spans)
    (anchored' : Anchored other) (same : (positioned spans).Perm (positioned other)) :
    cover spans = cover other := by
  have isHull := anchored.isPositionedHull
  have isHull' := anchored'.isPositionedHull
  unfold IsPositionedHull at isHull isHull'
  by_cases noPosition : positioned spans = []
  · rw [noPosition] at same
    rw [if_pos noPosition] at isHull
    rw [if_pos same.nil_eq.symm] at isHull'
    exact isHull.trans isHull'.symm
  · have somePosition : positioned other ≠ [] := fun none => noPosition (none ▸ same).eq_nil
    rw [if_neg noPosition] at isHull
    rw [if_neg somePosition] at isHull'
    exact isHull.unique isHull' fun span => same.mem_iff

end

end Span

/-- The spans of the nodes of a stream, without those inside groups. -/
def Stream.ownSpans (stream : Stream) : List Span := stream.map Node.span

theorem Stream.span_eq_cover (stream : Stream) : stream.span = Span.cover stream.ownSpans :=
  List.foldl_map.symm

/-- The span of a stream is the hull of its positioned nodes exactly if the unpositioned ones do no
harm. Where no node starts behind its end, these do none only in front of all positioned nodes, or
if one of them starts at zero. Streams that are free of harm and have the same positions in any
order have the same span. -/
theorem span_is_hull_iff_anchored (stream : Stream) :
    (Span.IsPositionedHull stream.ownSpans stream.span ↔ Span.Anchored stream.ownSpans) ∧
    ((∀ span ∈ stream.ownSpans, span.start ≤ span.stop) →
      (Span.Anchored stream.ownSpans ↔
        (∃ span ∈ Span.positioned stream.ownSpans, span.start = 0) ∨
        ∃ front back, stream.ownSpans = front ++ back ∧ (∀ span ∈ front, span.isNull = true) ∧
          ∀ span ∈ back, span.isNull = false)) ∧
    ∀ other : Stream, Span.Anchored stream.ownSpans → Span.Anchored other.ownSpans →
      (Span.positioned stream.ownSpans).Perm (Span.positioned other.ownSpans) →
      stream.span = other.span := by
  rw [stream.span_eq_cover]
  refine ⟨⟨Span.IsPositionedHull.anchored, Span.Anchored.isPositionedHull⟩,
    Span.anchored_iff_of_le, ?_⟩
  intro other anchored anchored' same
  rw [other.span_eq_cover]
  exact anchored.cover_eq anchored' same

/-- A node without a position behind one with a position. -/
def unpositionedTail : Stream :=
  [.ident (word ['a']) ⟨4, 7⟩, .ident (word ['b']) Span.null]

theorem unpositionedTail_span_not_hull :
    unpositionedTail.span = ⟨0, 7⟩ ∧
      ¬ Span.IsPositionedHull unpositionedTail.ownSpans unpositionedTail.span ∧
      Stream.span unpositionedTail.reverse = ⟨4, 7⟩ ∧
      Span.IsPositionedHull (Stream.ownSpans unpositionedTail.reverse) ⟨4, 7⟩ := by
  refine ⟨rfl, ?_, rfl, ?_⟩
  · intro isHull
    have anchored := (span_is_hull_iff_anchored unpositionedTail).1.mp isHull
    have ordered : ∀ span ∈ unpositionedTail.ownSpans, span.start ≤ span.stop := by decide
    rcases ((span_is_hull_iff_anchored unpositionedTail).2.1 ordered).mp anchored with
      ⟨span, membership, isZero⟩ | ⟨front, back, isSplit, areNull, arePositions⟩
    · have notZero : ∀ span ∈ Span.positioned unpositionedTail.ownSpans, span.start ≠ 0 := by decide
      exact notZero span membership isZero
    · cases front with
      | nil =>
        have isNull : Span.null ∈ back := by
          rw [← List.nil_append back, ← isSplit]
          decide
        exact absurd (arePositions _ isNull) (by decide)
      | cons first front =>
        have isFirst : (⟨4, 7⟩ : Span) = first := (List.cons.inj isSplit).1
        exact absurd (areNull first List.mem_cons_self) (by rw [← isFirst]; decide)
  · apply (span_is_hull_iff_anchored unpositionedTail.reverse).1.mpr
    exact .inr ⟨[Span.null], [⟨4, 7⟩], rfl, by decide, by decide, by decide⟩

end Unroll
