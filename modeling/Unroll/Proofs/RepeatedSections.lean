import Unroll.Proofs.LoopGrammar
import Unroll.Proofs.RangeValues
import Unroll.Proofs.Skeletons
import Unroll.Proofs.SubstitutedStreams

set_option autoImplicit false

/-!
# Repeated sections

Cutting the repeated sections out of a body leaves a skeleton: the nodes outside sections, and a
hole for each section. Which nodes these are does not depend on the loop. Filling in a body fills
the holes of its skeleton and nothing else, and a loop repeats its whole body exactly if the
skeleton has no hole, that is, if no three nodes on any level make a section.
-/

namespace Unroll

/-- A marker, a group in parentheses and a continuation. -/
def IsSection (marker continuation : Int32) : List Node → Prop
  | [.punct first _ _, .group .round _ _, .punct last _ _] => first = marker ∧ last = continuation
  | _ => False

theorem isSection_iff (marker continuation : Int32) (nodes : List Node) :
    IsSection marker continuation nodes ↔ ∃ spacing span body groupSpan spacing' span',
      nodes = [.punct marker spacing span, .group .round body groupSpan,
        .punct continuation spacing' span'] := by
  constructor
  · intro isSection
    unfold IsSection at isSection
    split at isSection
    · obtain ⟨rfl, rfl⟩ := isSection
      exact ⟨_, _, _, _, _, _, rfl⟩
    · cases isSection
  · rintro ⟨spacing, span, body, groupSpan, spacing', span', rfl⟩
    exact ⟨rfl, rfl⟩

/-- A section opens a hole that remembers the nodes in its parentheses. -/
def Skeleton.Opening.sections (marker continuation : Int32) : Skeleton.Opening where
  opens stream hole rest := ∃ spacing span groupSpan spacing' span',
    stream = .punct marker spacing span :: .group .round hole groupSpan ::
      .punct continuation spacing' span' :: rest
  takes := by
    rintro _ hole rest ⟨spacing, span, groupSpan, spacing', span', rfl⟩
    exact ⟨_, [_, _], rfl⟩

theorem Stream.opens_section_iff (marker continuation : Int32) (stream : Stream) :
    stream.Opens (IsSection marker continuation) ↔
      ∃ hole rest, (Skeleton.Opening.sections marker continuation).opens stream hole rest := by
  constructor
  · rintro ⟨nodes, isSection, rest, rfl⟩
    obtain ⟨spacing, span, body, groupSpan, spacing', span', rfl⟩ :=
      (isSection_iff _ _ _).mp isSection
    exact ⟨body, rest, spacing, span, groupSpan, spacing', span', rfl⟩
  · rintro ⟨body, rest, spacing, span, groupSpan, spacing', span', rfl⟩
    have isSection := (isSection_iff marker continuation _).mpr ⟨spacing, span, body, groupSpan,
      spacing', span', rfl⟩
    exact ⟨_, isSection, List.prefix_append _ rest⟩

theorem isSection_triple_iff (marker continuation : Int32) (first second third : Node) :
    IsSection marker continuation [first, second, third] ↔
      (first.isPunct marker = true ∧ third.isPunct continuation = true) ∧
        (second.childrenOf? .round).isSome = true := by
  rw [isSection_iff]
  constructor
  · rintro ⟨spacing, span, body, groupSpan, spacing', span', isSection⟩
    cases isSection
    simp [Node.isPunct, Node.childrenOf?]
  · rintro ⟨⟨isMarker, isContinuation⟩, isGroup⟩
    obtain ⟨spacing, span, rfl⟩ := Node.eq_punct_of_isPunct isMarker
    obtain ⟨spacing', span', rfl⟩ := Node.eq_punct_of_isPunct isContinuation
    cases second with
    | ident | literal | punct => cases isGroup
    | group delimiter children groupSpan =>
      rw [Node.childrenOf?, Option.isSome_ite] at isGroup
      exact ⟨spacing, span, children, groupSpan, spacing', span', by rw [isGroup]⟩

instance (marker continuation : Int32) : DecidablePred (IsSection marker continuation)
  | [first, second, third] =>
    decidable_of_iff _ (isSection_triple_iff marker continuation first second third).symm
  | [] | [_] | [_, _] | _ :: _ :: _ :: _ :: _ => .isFalse (by simp [isSection_iff])

theorem Style.isSection_of_section? {style : Style} {first second third : Node} {body : Stream}
    (isSection : style.section? first second third = some body) :
    IsSection style.marker style.continuation [first, second, third] := by
  rw [Style.section?, Option.ite_none_right_eq_some] at isSection
  obtain ⟨marked, isGroup⟩ := isSection
  exact (isSection_triple_iff _ _ _ _ _).mpr ⟨marked, Option.isSome_of_eq_some isGroup⟩

theorem Stream.holds_section_cons {marker continuation : Int32} {node : Node}
    (noMarker : node.isPunct marker = false) (rest : List Node) :
    Stream.Holds (IsSection marker continuation) (node :: rest) ↔
      node.Holds (IsSection marker continuation) ∨
        Stream.Holds (IsSection marker continuation) rest := by
  rw [Stream.holds_cons_iff, or_iff_right]
  rw [Stream.opens_section_iff]
  rintro ⟨body, others, spacing, span, groupSpan, spacing', span', isSection⟩
  rw [(List.cons.inj isSection).1] at noMarker
  simp [Node.isPunct] at noMarker

/-- Substitution makes no section. -/
theorem Stream.Holds.section_of_substitute {marker continuation paste : Int32} {binding : Binding}
    {stream : Stream}
    (holds : Stream.Holds (IsSection marker continuation)
      (Stream.substitute paste binding stream)) :
    stream.Holds (IsSection marker continuation) := by
  apply holds.of_substitute
  · intro nodes isSection
    obtain ⟨spacing, span, body, groupSpan, spacing', span', rfl⟩ :=
      (isSection_iff _ _ _).mp isSection
    simp [Node.Firm]
  · intro nodes isSection
    obtain ⟨spacing, span, body, groupSpan, spacing', span', isCopy⟩ :=
      (isSection_iff _ _ _).mp isSection
    obtain ⟨first, others, rfl, isMarker, isCopy⟩ := List.map_eq_cons_iff.mp isCopy
    obtain ⟨second, others, rfl, isGroup, isCopy⟩ := List.map_eq_cons_iff.mp isCopy
    obtain ⟨third, rfl, isContinuation⟩ := List.map_eq_singleton_iff.mp isCopy
    obtain ⟨children, rfl, -⟩ := Node.substitute_eq_group isGroup
    rw [Node.substitute_eq_punct isMarker, Node.substitute_eq_punct isContinuation]
    exact ⟨rfl, rfl⟩

section Filling

variable (style : Style) (header : Header)

theorem Stream.fill_section (spacing spacing' : Spacing) (span groupSpan span' : Span)
    (body : Stream) (rest : List Node) :
    Stream.fill style header (.punct style.marker spacing span :: .group .round body groupSpan ::
        .punct style.continuation spacing' span' :: rest) =
      ⟨Stream.copies style.paste header body ++ (Stream.fill style header rest).stream, true⟩ := by
  simp [Stream.fill, Style.section?, Node.isPunct, Node.childrenOf?]

theorem Stream.fill_cons {node : Node} {rest : List Node}
    (closed : ¬ ∃ hole behind, (Skeleton.Opening.sections style.marker style.continuation).opens
      (node :: rest) hole behind) :
    Stream.fill style header (node :: rest) =
      .cons (node.fill style header) (Stream.fill style header rest) := by
  rw [← Stream.opens_section_iff] at closed
  match rest with
  | [] | [_] => simp only [Stream.fill]
  | second :: third :: others =>
    cases isSection : style.section? node second third with
    | some body =>
      exact absurd ⟨_, Style.isSection_of_section? isSection, List.prefix_append _ others⟩ closed
    | none => rw [Stream.fill, isSection]

end Filling

theorem Node.IsLeaf.fill_eq {node : Node} (isLeaf : node.IsLeaf) (style : Style)
    (header : Header) : node.fill style header = (node, false) := by
  cases node with
  | ident | literal | punct => rfl
  | group => cases isLeaf

namespace Skeleton

/-- The skeleton whose holes are the sections of a stream. -/
abbrev Cuts (marker continuation : Int32) : Skeleton → Stream → Prop :=
  CutsBy (.sections marker continuation)

theorem exists_cuts (marker continuation : Int32) (stream : Stream) :
    ∃ skeleton, Cuts marker continuation skeleton stream :=
  exists_cutsBy _ stream

variable {marker continuation : Int32}

theorem Cuts.fill_stream {skeleton : Skeleton} {body : Stream}
    (cuts : Cuts marker continuation skeleton body) (paste : Int32) (header : Header) :
    (Stream.fill ⟨marker, continuation, paste⟩ header body).stream =
      Skeleton.filled (Stream.copies paste header) skeleton := by
  induction cuts with
  | nil => rfl
  | hole opens behind behindFilled =>
    obtain ⟨spacing, span, groupSpan, spacing', span', rfl⟩ := opens
    rw [Stream.fill_section, behindFilled]
    rfl
  | leaf isLeaf closed behind behindFilled =>
    rw [Stream.fill_cons _ _ closed, isLeaf.fill_eq, Filled.cons, behindFilled]
    rfl
  | group closed inside behind insideFilled behindFilled =>
    rw [Stream.fill_cons _ _ closed, Node.fill, Filled.cons, insideFilled, behindFilled]
    rfl

theorem Cuts.found_iff {skeleton : Skeleton} {body : Stream}
    (cuts : Cuts marker continuation skeleton body) (paste : Int32) (header : Header) :
    (Stream.fill ⟨marker, continuation, paste⟩ header body).found = true ↔
      body.Holds (IsSection marker continuation) := by
  induction cuts with
  | nil => simp [Stream.fill, Stream.holds_nil_iff, IsSection]
  | hole opens behind =>
    obtain ⟨spacing, span, groupSpan, spacing', span', rfl⟩ := opens
    rw [Stream.fill_section, Stream.holds_cons_iff, Stream.opens_section_iff]
    exact iff_of_true rfl (.inl ⟨_, _, _, _, _, _, _, rfl⟩)
  | leaf isLeaf closed behind behindFound =>
    rw [Stream.fill_cons _ _ closed, Stream.holds_cons_iff, Stream.opens_section_iff,
      isLeaf.fill_eq]
    simp [Filled.cons, closed, isLeaf.not_holds, behindFound]
  | group closed inside behind insideFound behindFound =>
    rw [Stream.fill_cons _ _ closed, Stream.holds_cons_iff, Stream.opens_section_iff]
    simp [Filled.cons, Node.fill, closed, insideFound, behindFound]

theorem Cuts.stream_eq_of_not_found {skeleton : Skeleton} {body : Stream}
    (cuts : Cuts marker continuation skeleton body) (paste : Int32) (header : Header)
    (notFound : (Stream.fill ⟨marker, continuation, paste⟩ header body).found = false) :
    (Stream.fill ⟨marker, continuation, paste⟩ header body).stream = body := by
  induction cuts with
  | nil => rfl
  | hole opens behind =>
    obtain ⟨spacing, span, groupSpan, spacing', span', rfl⟩ := opens
    rw [Stream.fill_section] at notFound
    cases notFound
  | leaf isLeaf closed behind behindSame =>
    rw [Stream.fill_cons _ _ closed, isLeaf.fill_eq] at notFound ⊢
    rw [Filled.cons, behindSame notFound]
  | group closed inside behind insideSame behindSame =>
    rw [Stream.fill_cons _ _ closed] at notFound ⊢
    obtain ⟨inGroup, inRest⟩ := Bool.or_eq_false_iff.mp notFound
    rw [Node.fill, Filled.cons, insideSame inGroup, behindSame inRest]

end Skeleton

namespace Stream

theorem fill_found_iff (style : Style) (header : Header) (body : Stream) :
    (Stream.fill style header body).found = true ↔
      body.Holds (IsSection style.marker style.continuation) := by
  obtain ⟨skeleton, cuts⟩ := Skeleton.exists_cuts style.marker style.continuation body
  exact cuts.found_iff style.paste header

theorem unrolled_of_holds {style : Style} {body : Stream}
    (holds : body.Holds (IsSection style.marker style.continuation)) (header : Header) :
    unrolled style header body = (Stream.fill style header body).stream := by
  have found := (fill_found_iff style header body).mpr holds
  rw [unrolled, if_pos found]

theorem unrolled_of_not_holds {style : Style} {body : Stream}
    (notHolds : ¬ body.Holds (IsSection style.marker style.continuation)) (header : Header) :
    unrolled style header body = Stream.copies style.paste header body := by
  have notFound := mt (fill_found_iff style header body).mp notHolds
  rw [unrolled, if_neg notFound]

/-- A loop depends on its header only through the name of the variable and the values it runs
over. -/
theorem unrolled_congr {header header' : Header}
    (sameName : header.variableName = header'.variableName)
    (sameValues : header.range.values = header'.range.values) (style : Style) (body : Stream) :
    unrolled style header body = unrolled style header' body := by
  have sameCopies : Stream.copies style.paste header = Stream.copies style.paste header' := by
    funext part
    rw [Stream.copies, Stream.copies, sameName, sameValues]
  obtain ⟨skeleton, cuts⟩ := Skeleton.exists_cuts style.marker style.continuation body
  by_cases holds : body.Holds (IsSection style.marker style.continuation)
  · rw [unrolled_of_holds holds, unrolled_of_holds holds, cuts.fill_stream, cuts.fill_stream,
      sameCopies]
  · rw [unrolled_of_not_holds holds, unrolled_of_not_holds holds, sameCopies]

theorem unrolled_variableSpan (style : Style) (header : Header) (span : Span) (body : Stream) :
    unrolled style { header with variableSpan := span } body = unrolled style header body := by
  apply unrolled_congr <;> rfl

theorem copies_append (paste : Int32) (name : Bytes) (span : Span) {first middle last : UInt64}
    (lower : first ≤ middle) (upper : middle ≤ last) (body : Stream) :
    Stream.copies paste ⟨name, span, first, last, false⟩ body =
      Stream.copies paste ⟨name, span, first, middle, false⟩ body ++
        Stream.copies paste ⟨name, span, middle, last, false⟩ body := by
  simp only [Stream.copies, Range.values, Range.valuesFrom_append lower upper,
    List.flatMap_append]

end Stream

/-- Sections are found on every level and nowhere else, a body without any is left as it is, and
what is found decides between repeating the sections and repeating the whole body. -/
theorem sections_decide_expansion (style : Style) :
    (∀ (header : Header) (body : Stream),
      ((Stream.fill style header body).found = true ↔
        body.Holds (IsSection style.marker style.continuation)) ∧
      ((Stream.fill style header body).found = false →
        (Stream.fill style header body).stream = body)) ∧
    ∀ stream out, Stream.expand style stream = .ok out →
      ∃ header body, Loop.Written header body stream ∧
        (body.Holds (IsSection style.marker style.continuation) →
          out = (Stream.fill style header body).stream) ∧
        (¬ body.Holds (IsSection style.marker style.continuation) →
          ∃ values, header.range.Enumerates values ∧
            out = values.flatMap fun value =>
              Stream.substitute style.paste ⟨header.variableName, value⟩ body) := by
  refine ⟨fun header body => ⟨Stream.fill_found_iff style header body, ?_⟩, ?_⟩
  · obtain ⟨skeleton, cuts⟩ := Skeleton.exists_cuts style.marker style.continuation body
    exact cuts.stream_eq_of_not_found style.paste header
  · intro stream out expanded
    have outcome := Stream.expand_outcome style stream
    rw [expanded] at outcome
    obtain ⟨header, body, written, rfl⟩ := outcome
    refine ⟨header, body, written, fun holds => Stream.unrolled_of_holds holds header, ?_⟩
    intro notHolds
    exact ⟨header.range.values, header.range.enumerates_values,
      Stream.unrolled_of_not_holds notHolds header⟩

/-- A loop whose marker is also its continuation, around a body in which sections overlap. -/
def overlappingSections : Stream :=
  [.ident (word ['N']) ⟨0, 1⟩, .ident (word ['i', 'n']) ⟨2, 4⟩, .literal .int (word ['0']) ⟨5, 6⟩,
    .punct (charCode '.') .joint ⟨6, 7⟩, .punct (charCode '.') .alone ⟨7, 8⟩,
    .literal .int (word ['2']) ⟨8, 9⟩,
    .group .curly
      [.punct (charCode '#') .alone ⟨11, 12⟩,
        .group .round [.ident (word ['N']) ⟨13, 14⟩] ⟨12, 15⟩,
        .punct (charCode '#') .alone ⟨15, 16⟩,
        .group .round [.ident (word ['N']) ⟨17, 18⟩] ⟨16, 19⟩,
        .punct (charCode '#') .alone ⟨19, 20⟩] ⟨10, 21⟩]

def overlappingSectionsCopied : Stream :=
  [.literal .int (word ['0']) ⟨13, 14⟩, .literal .int (word ['1']) ⟨13, 14⟩,
    .group .round [.ident (word ['N']) ⟨17, 18⟩] ⟨16, 19⟩, .punct (charCode '#') .alone ⟨19, 20⟩]

/-- The first section is repeated, and what is left of the other one is kept. -/
theorem overlappingSections_expand :
    let style : Style := ⟨charCode '#', charCode '#', charCode '~'⟩
    overlappingSections.expand style = .ok overlappingSectionsCopied ∧
      ∃ header body, Loop.Written header body overlappingSections ∧
        (body.Holds (IsSection style.marker style.continuation) →
          overlappingSectionsCopied = (Stream.fill style header body).stream) := by
  intro style
  have expanded : overlappingSections.expand style = .ok overlappingSectionsCopied := by
    with_unfolding_all rfl
  obtain ⟨header, body, written, repeated, -⟩ := (sections_decide_expansion style).2 _ _ expanded
  exact ⟨expanded, header, body, written, repeated⟩

/-- Filling in a body fills the holes of one skeleton, whatever the loop: each hole with the copies
of its section, for the values of the range in ascending order. Adjoining ranges fill each hole one
behind the other. -/
theorem sections_isolated (marker continuation : Int32) (body : Stream) :
    ∃ skeleton, Skeleton.Cuts marker continuation skeleton body ∧
      (∀ paste (header : Header), ∃ values, header.range.Enumerates values ∧
        (Stream.fill ⟨marker, continuation, paste⟩ header body).stream =
          Skeleton.filled (fun hole => values.flatMap fun value =>
            Stream.substitute paste ⟨header.variableName, value⟩ hole) skeleton) ∧
      ∀ paste name span first middle last, first ≤ middle → middle ≤ last →
        ∃ values values', Range.Enumerates ⟨first, middle, false⟩ values ∧
          Range.Enumerates ⟨middle, last, false⟩ values' ∧
          (Stream.fill ⟨marker, continuation, paste⟩ ⟨name, span, first, last, false⟩ body).stream =
            Skeleton.filled (fun hole =>
              (values.flatMap fun value => Stream.substitute paste ⟨name, value⟩ hole) ++
                values'.flatMap fun value => Stream.substitute paste ⟨name, value⟩ hole)
              skeleton := by
  obtain ⟨skeleton, cuts⟩ := Skeleton.exists_cuts marker continuation body
  refine ⟨skeleton, cuts, ?_, ?_⟩
  · intro paste header
    exact ⟨header.range.values, header.range.enumerates_values, cuts.fill_stream paste header⟩
  · intro paste name span first middle last lower upper
    refine ⟨_, _, Range.enumerates_values _, Range.enumerates_values _, ?_⟩
    rw [cuts.fill_stream]
    congr 1
    funext hole
    exact Stream.copies_append paste name span lower upper hole

/-- A section, the variable and a chain outside of it, and a group that holds another section behind
a marker without a continuation. -/
def scatteredSections : Stream :=
  [.punct (charCode '#') .alone ⟨0, 1⟩, .group .round [.ident (word ['N']) ⟨2, 3⟩] ⟨1, 4⟩,
    .punct (charCode '*') .alone ⟨4, 5⟩, .ident (word ['N']) ⟨6, 7⟩,
    .punct (charCode '~') .alone ⟨7, 8⟩, .ident (word ['x']) ⟨8, 9⟩,
    .punct (charCode '#') .alone ⟨10, 11⟩,
    .group .round
      [.punct (charCode '#') .alone ⟨12, 13⟩, .group .round [.ident (word ['N']) ⟨14, 15⟩] ⟨13, 16⟩,
        .punct (charCode '*') .alone ⟨16, 17⟩] ⟨11, 18⟩]

/-- With the values 0, 1 and 2: both holes are filled, and everything else is kept. -/
def scatteredSectionsFilled : Stream :=
  [.literal .int (word ['0']) ⟨2, 3⟩, .literal .int (word ['1']) ⟨2, 3⟩,
    .literal .int (word ['2']) ⟨2, 3⟩, .ident (word ['N']) ⟨6, 7⟩,
    .punct (charCode '~') .alone ⟨7, 8⟩, .ident (word ['x']) ⟨8, 9⟩,
    .punct (charCode '#') .alone ⟨10, 11⟩,
    .group .round
      [.literal .int (word ['0']) ⟨14, 15⟩, .literal .int (word ['1']) ⟨14, 15⟩,
        .literal .int (word ['2']) ⟨14, 15⟩] ⟨11, 18⟩]

theorem scatteredSections_isolated :
    let style : Style := ⟨charCode '#', charCode '*', charCode '~'⟩
    (Stream.fill style ⟨word ['N'], Span.null, 0, 3, false⟩ scatteredSections).stream =
        scatteredSectionsFilled ∧
      (0 : UInt64) ≤ 1 ∧ (1 : UInt64) ≤ 3 ∧
      ∃ skeleton, Skeleton.Cuts style.marker style.continuation skeleton scatteredSections ∧
        ∃ values values', Range.Enumerates ⟨0, 1, false⟩ values ∧
          Range.Enumerates ⟨1, 3, false⟩ values' ∧
          scatteredSectionsFilled = Skeleton.filled (fun hole =>
            (values.flatMap fun value => Stream.substitute style.paste ⟨word ['N'], value⟩ hole) ++
              values'.flatMap fun value =>
                Stream.substitute style.paste ⟨word ['N'], value⟩ hole) skeleton := by
  intro style
  have filled : (Stream.fill style ⟨word ['N'], Span.null, 0, 3, false⟩ scatteredSections).stream =
      scatteredSectionsFilled := by with_unfolding_all rfl
  have lower : (0 : UInt64) ≤ 1 := by decide
  have upper : (1 : UInt64) ≤ 3 := by decide
  obtain ⟨skeleton, cuts, -, adjoining⟩ :=
    sections_isolated style.marker style.continuation scatteredSections
  obtain ⟨values, values', isFront, isBack, isFilled⟩ :=
    adjoining style.paste (word ['N']) Span.null 0 1 3 lower upper
  exact ⟨filled, lower, upper, skeleton, cuts, values, values', isFront, isBack,
    filled.symm.trans isFilled⟩

end Unroll
