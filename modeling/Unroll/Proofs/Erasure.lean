import Unroll.Proofs.RepeatedSections
import Unroll.Tree.Equality

set_option autoImplicit false

/-!
# Erasure of spans and spacing

Two streams are alike exactly if they coincide once all spans and spacing are erased. What a loop
makes of its body looks at neither, so it commutes with erasure and is alike for bodies that are.
-/

namespace Unroll

mutual

def Node.erased : Node → Node
  | .ident name _ => .ident name Span.null
  | .literal kind raw _ => .literal kind raw Span.null
  | .punct char _ _ => .punct char .alone Span.null
  | .group delimiter children _ => .group delimiter (Stream.erased children) Span.null

/-- A stream without its spans and spacing. -/
def Stream.erased : List Node → List Node
  | [] => []
  | node :: rest => node.erased :: Stream.erased rest

end

mutual

theorem Node.alike_iff_erased_eq (node node' : Node) :
    node.alike node' = true ↔ node.erased = node'.erased := by
  cases node with
  | ident | literal | punct => cases node' <;> simp [Node.alike, Node.erased]
  | group delimiter children span =>
    cases node' with
    | ident | literal | punct => simp [Node.alike, Node.erased]
    | group delimiter' children' span' =>
      have inside := Stream.alike_iff_erased_eq children children'
      simp [Node.alike, Node.erased, inside]

theorem Stream.alike_iff_erased_eq (stream stream' : List Node) :
    Stream.alike stream stream' = true ↔ Stream.erased stream = Stream.erased stream' := by
  cases stream with
  | nil => cases stream' <;> simp [Stream.alike, Stream.erased]
  | cons node rest =>
    cases stream' with
    | nil => simp [Stream.alike, Stream.erased]
    | cons node' rest' =>
      have first := Node.alike_iff_erased_eq node node'
      have others := Stream.alike_iff_erased_eq rest rest'
      simp [Stream.alike, Stream.erased, first, others]

end

theorem Stream.erased_append (first second : Stream) :
    Stream.erased (first ++ second) = Stream.erased first ++ Stream.erased second := by
  induction first with
  | nil => rfl
  | cons node rest inductionHypothesis =>
    rw [List.cons_append, Stream.erased, Stream.erased, inductionHypothesis, List.cons_append]

section Substitution

variable {paste : Int32} {binding : Binding}

theorem Stream.pastes_erased_iff (stream : Stream) :
    Stream.Pastes paste (Stream.erased stream) ↔ Stream.Pastes paste stream := by
  match stream with
  | [] | .ident _ _ :: _ | .literal _ _ _ :: _ | .group _ _ _ :: _ | [.punct _ _ _]
  | .punct _ _ _ :: .ident _ _ :: _ | .punct _ _ _ :: .literal _ _ _ :: _
  | .punct _ _ _ :: .punct _ _ _ :: _ | .punct _ _ _ :: .group _ _ _ :: _ => exact Iff.rfl

namespace Chain

def erased (chain : Chain) : Chain := { chain with span := Span.null }

theorem erased_node (chain : Chain) :
    (chain.node binding).erased = chain.erased.node binding := by
  unfold node
  split
  · rename_i isVariable
    exact (if_pos isVariable).symm
  · rename_i noVariable
    exact (if_neg noVariable).symm

theorem Ends.erased {chain whole : Chain} {rest behind : Stream}
    (ends : Ends paste binding chain rest whole behind) :
    Ends paste binding chain.erased (Stream.erased rest) whole.erased (Stream.erased behind) := by
  induction ends with
  | stop ended => exact .stop (mt (Stream.pastes_erased_iff _).mp ended)
  | join goesOn inductionHypothesis => exact .join inductionHypothesis

end Chain

namespace Stream

variable (paste binding) in
theorem erased_substitute (stream : Stream) :
    Stream.erased (Stream.substitute paste binding stream) =
      Stream.substitute paste binding (Stream.erased stream) := by
  match stream with
  | [] => rfl
  | .ident name span :: rest =>
    obtain ⟨whole, behind, ends⟩ := Chain.exists_ends paste binding (.head name span) rest
    have shorter := sizeOf_le_of_suffix ends.suffix
    have erasedEnds := ends.erased
    have inBehind := erased_substitute behind
    calc
      _ = Stream.erased (whole.node binding :: Stream.substitute paste binding behind) := by
        rw [Stream.substitute, continueChain_of_ends ends]
      _ = whole.erased.node binding ::
          Stream.substitute paste binding (Stream.erased behind) := by
        rw [Stream.erased, whole.erased_node, inBehind]
      _ = _ := (continueChain_of_ends erasedEnds).symm
  | .literal _ _ _ :: rest | .punct _ _ _ :: rest =>
    exact congrArg (_ :: ·) (erased_substitute rest)
  | .group delimiter children span :: rest =>
    simp only [Stream.substitute, Stream.erased, Node.substitute, Node.erased,
      erased_substitute children, erased_substitute rest]
termination_by sizeOf stream
decreasing_by
  all_goals
    simp only [List.cons.sizeOf_spec, Node.group.sizeOf_spec]
    omega

theorem erased_copies (paste : Int32) (header : Header) (body : Stream) :
    Stream.erased (Stream.copies paste header body) =
      Stream.copies paste header (Stream.erased body) := by
  unfold Stream.copies
  induction header.range.values with
  | nil => rfl
  | cons value values inductionHypothesis =>
    rw [List.flatMap_cons, List.flatMap_cons, erased_append, erased_substitute,
      inductionHypothesis]

end Stream

end Substitution

theorem Node.isPunct_erased (char : Int32) (node : Node) :
    node.erased.isPunct char = node.isPunct char := by
  cases node <;> rfl

theorem Node.childrenOf?_erased (delimiter : Delimiter) (node : Node) :
    node.erased.childrenOf? delimiter = (node.childrenOf? delimiter).map Stream.erased := by
  cases node with
  | ident | literal | punct => rfl
  | group own children span =>
    simp only [Node.erased, Node.childrenOf?]
    split <;> rfl

theorem Style.section?_erased (style : Style) (first second third : Node) :
    style.section? first.erased second.erased third.erased =
      (style.section? first second third).map Stream.erased := by
  simp only [Style.section?, Node.isPunct_erased, Node.childrenOf?_erased]
  split <;> rfl

section Filling

variable (style : Style) (header : Header)

def Filled.erased (filled : Filled) : Filled :=
  { filled with stream := Stream.erased filled.stream }

mutual

theorem Node.erased_fill (node : Node) :
    ((node.fill style header).1.erased, (node.fill style header).2) =
      node.erased.fill style header := by
  cases node with
  | ident | literal | punct => rfl
  | group delimiter children span =>
    have inside := Stream.erased_fill children
    simp only [Node.fill, Node.erased, ← inside, Filled.erased]

theorem Stream.erased_fill (stream : List Node) :
    (Stream.fill style header stream).erased = Stream.fill style header (Stream.erased stream) := by
  cases stream with
  | nil => rfl
  | cons first rest =>
    have kept : (Filled.cons (first.fill style header) (Stream.fill style header rest)).erased =
        .cons (first.erased.fill style header)
          (Stream.fill style header (Stream.erased rest)) := by
      rw [← Node.erased_fill first, ← Stream.erased_fill rest]
      rfl
    match rest with
    | [] | [_] => exact kept
    | second :: third :: others =>
      simp only [Stream.erased, Stream.fill, Style.section?_erased] at kept ⊢
      cases style.section? first second third with
      | none => exact kept
      | some body =>
        simp only [Option.map_some, Filled.erased, Stream.erased_append, Stream.erased_copies,
          ← Stream.erased_fill others]

end

end Filling

namespace Stream

theorem erased_unrolled (style : Style) (header : Header) (body : Stream) :
    Stream.erased (unrolled style header body) = unrolled style header (Stream.erased body) := by
  unfold unrolled
  rw [← erased_fill, ← erased_copies]
  exact apply_ite Stream.erased _ _ _

theorem alike_equivalence :
    Equivalence fun stream stream' : Stream => Stream.alike stream stream' = true := by
  simp only [alike_iff_erased_eq]
  exact ⟨fun _ => rfl, fun same => same.symm, fun same same' => same.trans same'⟩

section Alike

variable {body body' : Stream}

theorem alike_substitute (paste : Int32) (binding : Binding)
    (alike : Stream.alike body body' = true) :
    Stream.alike (Stream.substitute paste binding body)
      (Stream.substitute paste binding body') = true := by
  rw [alike_iff_erased_eq] at alike ⊢
  rw [erased_substitute, erased_substitute, alike]

/-- The same sections are found in bodies that are alike, and they are filled in alike. -/
theorem alike_fill (style : Style) (header : Header) (alike : Stream.alike body body' = true) :
    (Stream.fill style header body).found = (Stream.fill style header body').found ∧
      Stream.alike (Stream.fill style header body).stream
        (Stream.fill style header body').stream = true := by
  rw [alike_iff_erased_eq] at alike ⊢
  have same : (Stream.fill style header body).erased = (Stream.fill style header body').erased := by
    rw [erased_fill, erased_fill, alike]
  rw [Filled.erased, Filled.erased, Filled.mk.injEq] at same
  exact ⟨same.2, same.1⟩

/-- A loop makes streams that are alike of bodies that are alike. -/
theorem alike_unrolled (style : Style) (header : Header)
    (alike : Stream.alike body body' = true) :
    Stream.alike (unrolled style header body) (unrolled style header body') = true := by
  rw [alike_iff_erased_eq] at alike ⊢
  rw [erased_unrolled, erased_unrolled, alike]

end Alike

end Stream

/-- Being alike is being the same up to spans and spacing, and no step from a body to its expansion
looks at these: neither a copy for one value, nor the sections that are found and filled in. -/
theorem expansion_ignores_spans_and_spacing :
    (∀ stream stream' : Stream, Stream.alike stream stream' = true ↔
      Stream.erased stream = Stream.erased stream') ∧
    (Equivalence fun stream stream' : Stream => Stream.alike stream stream' = true) ∧
    ∀ body body' : Stream, Stream.alike body body' = true →
      (∀ paste binding, Stream.alike (Stream.substitute paste binding body)
        (Stream.substitute paste binding body') = true) ∧
      ∀ style header,
        (Stream.fill style header body).found = (Stream.fill style header body').found ∧
        Stream.alike (Stream.fill style header body).stream
          (Stream.fill style header body').stream = true ∧
        Stream.alike (Stream.unrolled style header body)
          (Stream.unrolled style header body') = true := by
  refine ⟨Stream.alike_iff_erased_eq, Stream.alike_equivalence, ?_⟩
  intro body body' alike
  constructor
  · intro paste binding
    exact Stream.alike_substitute paste binding alike
  · intro style header
    obtain ⟨sameFound, alikeFilled⟩ := Stream.alike_fill style header alike
    exact ⟨sameFound, alikeFilled, Stream.alike_unrolled style header alike⟩

/-- A section with a pasted name and a sign, written without blanks. -/
def denseSection : Stream :=
  [.punct (charCode '#') .joint ⟨0, 1⟩,
    .group .round [.ident (word ['x']) ⟨2, 3⟩, .punct (charCode '~') .joint ⟨3, 4⟩,
      .ident (word ['N']) ⟨4, 5⟩, .punct (charCode '+') .joint ⟨5, 6⟩] ⟨1, 7⟩,
    .punct (charCode '*') .joint ⟨7, 8⟩]

/-- The same section with blanks between its tokens. -/
def spreadSection : Stream :=
  [.punct (charCode '#') .alone ⟨0, 1⟩,
    .group .round [.ident (word ['x']) ⟨4, 5⟩, .punct (charCode '~') .alone ⟨6, 7⟩,
      .ident (word ['N']) ⟨8, 9⟩, .punct (charCode '+') .alone ⟨10, 11⟩] ⟨2, 13⟩,
    .punct (charCode '*') .alone ⟨14, 15⟩]

theorem spreadSection_expands_alike :
    let header : Header := ⟨word ['N'], ⟨0, 0⟩, ⟨0, 2, false⟩⟩
    denseSection ≠ spreadSection ∧ Stream.alike denseSection spreadSection = true ∧
      (Stream.fill {} header denseSection).found = true ∧
      (Stream.fill {} header spreadSection).found = true ∧
      Stream.alike (Stream.fill {} header denseSection).stream
        (Stream.fill {} header spreadSection).stream = true := by
  intro header
  have alike : Stream.alike denseSection spreadSection = true := by with_unfolding_all rfl
  have isFound : (Stream.fill {} header denseSection).found = true := by with_unfolding_all rfl
  obtain ⟨sameFound, alikeFilled, -⟩ :=
    (expansion_ignores_spans_and_spacing.2.2 _ _ alike).2 {} header
  refine ⟨?_, alike, isFound, sameFound ▸ isFound, alikeFilled⟩
  simp [denseSection, spreadSection]

end Unroll
