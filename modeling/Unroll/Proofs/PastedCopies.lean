import Unroll.Proofs.RepeatedSections
import Unroll.Proofs.Segments

set_option autoImplicit false

/-!
# Copies have nothing left to paste

In a copy no paste character stands between two identifiers, on any level: a chain takes in all that
can be pasted to it, and the nodes next to it come from other segments. So a second substitution
replaces single identifiers and does nothing else. Sections have neither identifiers nor links, so a
copy holds them exactly if the stream does, whichever characters mark and paste.
-/

namespace Unroll

/-- Two identifiers with a paste character between them. -/
def IsPair (paste : Int32) : List Node → Prop
  | [.ident _ _, .punct char _ _, .ident _ _] => char = paste
  | _ => False

theorem isPair_iff (paste : Int32) (nodes : List Node) :
    IsPair paste nodes ↔ ∃ name span spacing pasteSpan name' span',
      nodes = [.ident name span, .punct paste spacing pasteSpan, .ident name' span'] := by
  constructor
  · intro isPair
    unfold IsPair at isPair
    split at isPair
    · subst isPair
      exact ⟨_, _, _, _, _, _, rfl⟩
    · cases isPair
  · rintro ⟨name, span, spacing, pasteSpan, name', span', rfl⟩
    rfl

/-- A single identifier. -/
def IsIdent (name : Bytes) : List Node → Prop
  | [.ident own _] => own = name
  | _ => False

theorem isIdent_iff (name : Bytes) (nodes : List Node) :
    IsIdent name nodes ↔ ∃ span, nodes = [.ident name span] := by
  constructor
  · intro isIdent
    unfold IsIdent at isIdent
    split at isIdent
    · subst isIdent
      exact ⟨_, rfl⟩
    · cases isIdent
  · rintro ⟨span, rfl⟩
    rfl

instance (name : Bytes) : DecidablePred (IsIdent name)
  | [.ident own _] => inferInstanceAs (Decidable (own = name))
  | [] | [.punct _ _ _] | [.literal _ _ _] | [.group _ _ _] | _ :: _ :: _ =>
    .isFalse (by simp [isIdent_iff])

mutual

def Node.valued (binding : Binding) : Node → Node
  | .ident name span =>
    if name = binding.variableName then .ofValue binding.value span else .ident name span
  | .group delimiter children span => .group delimiter (Stream.valued binding children) span
  | node => node

/-- A stream with the literal of the value in place of each identifier that is called as the
variable. -/
def Stream.valued (binding : Binding) : List Node → List Node
  | [] => []
  | node :: rest => node.valued binding :: Stream.valued binding rest

end

section

variable {paste : Int32} {binding : Binding}

theorem Chain.isLeaf_node (chain : Chain) : (chain.node binding).IsLeaf := by
  unfold Chain.node
  split <;> trivial

/-- A chain without links is replaced as its only identifier is. -/
theorem Chain.node_head (name : Bytes) (span : Span) :
    (Chain.head name span).node binding = (Node.ident name span).valued binding := by
  simp [Chain.node, Chain.head, Node.valued]

namespace Stream

/-- A pair opens a stream exactly if its first node is an identifier to which the rest is pasted. -/
theorem opens_pair_cons_iff (node : Node) (rest : List Node) :
    Stream.Opens (IsPair paste) (node :: rest) ↔
      (∃ name span, node = .ident name span) ∧ Stream.Pastes paste rest := by
  constructor
  · rintro ⟨nodes, isPair, isPrefix⟩
    obtain ⟨name, span, spacing, pasteSpan, name', span', rfl⟩ := (isPair_iff _ _).mp isPair
    obtain ⟨rfl, others, rfl⟩ := List.cons_prefix_cons.mp isPrefix
    exact ⟨⟨name, span, rfl⟩, rfl⟩
  · rintro ⟨⟨name, span, rfl⟩, pastes⟩
    obtain ⟨spacing, pasteSpan, name', span', others, rfl⟩ := (pastes_iff _ _).mp pastes
    have isPair := (isPair_iff paste _).mpr ⟨name, span, spacing, pasteSpan, name', span', rfl⟩
    exact ⟨_, isPair, others, rfl⟩

/-- A copy begins with an identifier only if the stream does. -/
theorem exists_ident_of_substitute {stream copy : Stream} {name : Bytes} {span : Span}
    (isCopy : Stream.substitute paste binding stream = .ident name span :: copy) :
    ∃ own ownSpan rest, stream = .ident own ownSpan :: rest := by
  cases stream with
  | nil => cases isCopy
  | cons node rest =>
    cases node with
    | ident own ownSpan => exact ⟨own, ownSpan, rest, rfl⟩
    | literal | punct | group => cases isCopy

/-- A copy begins with punctuation only if the stream does, and then the rest of it is a copy. -/
theorem exists_punct_of_substitute {stream copy : Stream} {char : Int32} {spacing : Spacing}
    {span : Span}
    (isCopy : Stream.substitute paste binding stream = .punct char spacing span :: copy) :
    ∃ rest, stream = .punct char spacing span :: rest ∧
      Stream.substitute paste binding rest = copy := by
  cases stream with
  | nil => cases isCopy
  | cons node rest =>
    cases node with
    | ident own ownSpan =>
      obtain ⟨whole, behind, ends⟩ := Chain.exists_ends paste binding (.head own ownSpan) rest
      rw [Stream.substitute, continueChain_of_ends ends] at isCopy
      have firm : (whole.node binding).Firm := by
        rw [(List.cons.inj isCopy).1]
        trivial
      exact absurd firm whole.not_firm_node
    | literal | group => cases isCopy
    | punct own ownSpacing ownSpan =>
      obtain ⟨isNode, isRest⟩ := List.cons.inj isCopy
      exact ⟨rest, by rw [← isNode]; rfl, isRest⟩

theorem Pastes.of_substitute {stream : Stream}
    (pastes : Stream.Pastes paste (Stream.substitute paste binding stream)) :
    Stream.Pastes paste stream := by
  obtain ⟨spacing, span, name, nameSpan, others, isCopy⟩ := (pastes_iff _ _).mp pastes
  obtain ⟨rest, rfl, isRest⟩ := exists_punct_of_substitute isCopy
  obtain ⟨own, ownSpan, behind, rfl⟩ := exists_ident_of_substitute isRest
  rfl

variable (paste binding) in
/-- A copy has no pair: the first node of one would be a chain to which the next two belong. -/
theorem not_holds_pair_substitute (stream : Stream) :
    ¬ Stream.Holds (IsPair paste) (Stream.substitute paste binding stream) := by
  induction stream using chainInduction paste with
  | nil =>
    rw [Stream.substitute, holds_nil_iff, isPair_iff]
    simp
  | chain head span links rest ended behind =>
    rw [substitute_linked ended, holds_cons_iff, opens_pair_cons_iff]
    rintro (⟨-, pastes⟩ | inNode | inRest)
    · exact ended pastes.of_substitute
    · exact (Chain.isLeaf_node _).not_holds _ inNode
    · exact behind inRest
  | leaf node rest isLeaf noName behind =>
    rw [substitute_leaf isLeaf noName, holds_cons_iff, opens_pair_cons_iff]
    rintro (⟨⟨name, span, isName⟩, -⟩ | inNode | inRest)
    · exact noName name span isName
    · exact isLeaf.not_holds _ inNode
    · exact behind inRest
  | group delimiter children span rest inside behind =>
    rw [Stream.substitute, holds_cons_iff, opens_pair_cons_iff]
    · rintro (⟨⟨name, span, isName⟩, -⟩ | inNode | inRest)
      · cases isName
      · exact inside inNode
      · exact behind inRest
    · simp

/-- Without pairs each identifier is a segment of its own, and substitution goes node by node. -/
theorem substitute_eq_valued {stream : Stream}
    (noPair : ¬ Stream.Holds (IsPair paste) stream) :
    Stream.substitute paste binding stream = Stream.valued binding stream := by
  induction stream using chainInduction paste with
  | nil => rfl
  | chain head span links rest ended behind =>
    rw [holds_cons_iff, not_or, not_or, opens_pair_cons_iff] at noPair
    obtain ⟨notOpens, -, notBehind⟩ := noPair
    cases links with
    | nil =>
      rw [List.flatMap_nil, List.nil_append] at notBehind ⊢
      rw [substitute_ident ended, Chain.node_head, behind notBehind]
      rfl
    | cons link links => exact absurd ⟨⟨head, span, rfl⟩, rfl⟩ notOpens
  | leaf node rest isLeaf noName behind =>
    rw [holds_cons_iff, not_or, not_or] at noPair
    rw [substitute_leaf isLeaf noName, behind noPair.2.2]
    cases node with
    | ident name span => exact absurd rfl (noName name span)
    | literal | punct => rfl
    | group => cases isLeaf
  | group delimiter children span rest inside behind =>
    rw [holds_cons_iff, not_or, not_or] at noPair
    obtain ⟨-, notInside, notBehind⟩ := noPair
    rw [Stream.substitute, Node.substitute, inside notInside, behind notBehind]
    · rfl
    · simp

end Stream

mutual

theorem Node.valued_eq_self (node : Node)
    (noName : ¬ Stream.Holds (IsIdent binding.variableName) [node]) :
    node.valued binding = node := by
  cases node with
  | literal | punct => rfl
  | ident name span =>
    have other : name ≠ binding.variableName := by
      rintro rfl
      exact noName ⟨_, .top _, _, (isIdent_iff _ _).mpr ⟨span, rfl⟩, List.infix_refl _⟩
    rw [Node.valued, if_neg other]
  | group delimiter children span =>
    have noNameInside : ¬ Stream.Holds (IsIdent binding.variableName) children :=
      fun inside => noName (.of_children List.mem_cons_self inside)
    rw [Node.valued, Stream.valued_eq_self children noNameInside]

/-- Without the name nothing is replaced. -/
theorem Stream.valued_eq_self (stream : List Node)
    (noName : ¬ Stream.Holds (IsIdent binding.variableName) stream) :
    Stream.valued binding stream = stream := by
  cases stream with
  | nil => rfl
  | cons node rest =>
    have notFirst : ¬ Stream.Holds (IsIdent binding.variableName) [node] :=
      fun holds => noName (Stream.Holds.of_infix ⟨[], rest, rfl⟩ holds)
    have notBehind : ¬ Stream.Holds (IsIdent binding.variableName) rest :=
      fun holds => noName (Stream.Holds.of_infix (List.suffix_cons node rest).isInfix holds)
    rw [Stream.valued, Node.valued_eq_self node notFirst, Stream.valued_eq_self rest notBehind]

end

/-! Sections. -/

namespace Stream

variable {marker continuation : Int32}

theorem Holds.section_of_links {links : List Link} {rest : Stream}
    (holds : Stream.Holds (IsSection marker continuation)
      (links.flatMap (Link.nodes paste) ++ rest)) :
    rest.Holds (IsSection marker continuation) := by
  induction links with
  | nil => exact holds
  | cons link links inductionHypothesis =>
    rw [List.flatMap_cons, Link.nodes, List.cons_append, List.cons_append, List.cons_append,
      List.nil_append, holds_cons_iff, opens_section_iff] at holds
    rcases holds with ⟨_, _, _, _, _, _, _, isSection⟩ | inPaste | behind
    · cases isSection
    · cases inPaste
    · have inLinks := (holds_section_cons rfl _).mp behind
      exact inductionHypothesis (inLinks.resolve_left id)

/-- No node of a section belongs to a chain, so a copy keeps the sections of a stream. -/
theorem Holds.section_substitute {stream : Stream}
    (holds : stream.Holds (IsSection marker continuation)) :
    Stream.Holds (IsSection marker continuation) (Stream.substitute paste binding stream) := by
  induction stream using chainInduction paste with
  | nil => exact holds
  | chain head span links rest ended behind =>
    rw [substitute_linked ended]
    rw [holds_section_cons rfl] at holds
    have inRest := (holds.resolve_left id).section_of_links
    exact Stream.Holds.of_infix (List.suffix_cons _ _).isInfix (behind inRest)
  | leaf node rest isLeaf noName behind =>
    rw [holds_cons_iff, opens_section_iff] at holds
    rcases holds with ⟨body, others, spacing, span, groupSpan, spacing', span', isSection⟩ |
      inNode | inRest
    · rw [isSection]
      apply (holds_cons_iff _ _).mpr (.inl _)
      apply (opens_section_iff _ _ _).mpr
      exact ⟨_, _, spacing, span, groupSpan, spacing', span', rfl⟩
    · exact absurd inNode (isLeaf.not_holds _)
    · rw [substitute_leaf isLeaf noName]
      exact Stream.Holds.of_infix (List.suffix_cons _ _).isInfix (behind inRest)
  | group delimiter children span rest inside behind =>
    rw [holds_section_cons rfl] at holds
    rcases holds with inChildren | inRest
    · exact .of_children List.mem_cons_self (inside inChildren)
    · exact Stream.Holds.of_infix (List.suffix_cons _ _).isInfix (behind inRest)

end Stream

/-- An identifier called as the variable comes from a chain with links: on its own it would have
become a literal. -/
theorem Segment.isPasted_of_copy {segment : Segment} {span : Span}
    (isVariable : segment.copy paste binding = .ident binding.variableName span) :
    segment.IsPasted := by
  cases segment with
  | chain head ownSpan links =>
    cases links with
    | nil =>
      rw [Segment.copy] at isVariable
      split at isVariable
      · cases isVariable
      · cases isVariable
        contradiction
    | cons link links => exact List.cons_ne_nil _ _
  | other node noName =>
    cases node with
    | ident name ownSpan => exact absurd rfl (noName name ownSpan)
    | literal | punct | group => cases isVariable

end

/-- A copy has no paste character between two identifiers on any level, and its identifiers that are
called as the variable come from chains with links. So another substitution replaces the identifiers
of its variable in place, and nothing if there are none. A copy holds sections exactly if the body
does. -/
theorem copies_have_nothing_to_paste (paste : Int32) (binding : Binding) (body : Stream) :
    ¬ Stream.Holds (IsPair paste) (Stream.substitute paste binding body) ∧
    (∀ level, Stream.Level (Stream.substitute paste binding body) level →
      ∃ inner segments, body.Level inner ∧ inner.SplitsInto paste segments ∧
        level = segments.map (Segment.copy paste binding) ∧
        ∀ segment ∈ segments, ∀ span,
          segment.copy paste binding = .ident binding.variableName span → segment.IsPasted) ∧
    (∀ later, Stream.substitute paste later (Stream.substitute paste binding body) =
      Stream.valued later (Stream.substitute paste binding body)) ∧
    (∀ later : Binding,
      ¬ Stream.Holds (IsIdent later.variableName) (Stream.substitute paste binding body) →
      Stream.substitute paste later (Stream.substitute paste binding body) =
        Stream.substitute paste binding body) ∧
    ∀ marker continuation,
      Stream.Holds (IsSection marker continuation) (Stream.substitute paste binding body) ↔
        body.Holds (IsSection marker continuation) := by
  have noPair := Stream.not_holds_pair_substitute paste binding body
  have again (later : Binding) := @Stream.substitute_eq_valued paste later _ noPair
  refine ⟨noPair, ?_, again, ?_, ?_⟩
  · intro level isLevel
    obtain ⟨inner, isInner, rfl⟩ := isLevel.of_substitute
    obtain ⟨segments, splits⟩ := Stream.exists_splitsInto paste inner
    refine ⟨inner, segments, isInner, splits, splits.substitute_eq, ?_⟩
    intro segment _ span isVariable
    exact Segment.isPasted_of_copy isVariable
  · intro later noName
    rw [again later, Stream.valued_eq_self _ noName]
  · intro marker continuation
    exact ⟨Stream.Holds.section_of_substitute, Stream.Holds.section_substitute⟩

/-- A chain that is called as the variable in the end, in front of a section whose marks are paste
characters, and the variable on its own. -/
def regrownName : Stream :=
  [.ident (word ['a']) ⟨0, 1⟩, .punct (charCode '~') .alone ⟨1, 2⟩, .ident (word ['b']) ⟨2, 3⟩,
    .punct (charCode '~') .alone ⟨3, 4⟩, .group .round [.ident (word ['a', 'b']) ⟨5, 7⟩] ⟨4, 8⟩,
    .punct (charCode '~') .alone ⟨8, 9⟩, .ident (word ['a', 'b']) ⟨9, 11⟩]

def regrownNameCopied : Stream :=
  [.ident (word ['a', 'b']) ⟨0, 1⟩, .punct (charCode '~') .alone ⟨3, 4⟩,
    .group .round [.literal .int (word ['7']) ⟨5, 7⟩] ⟨4, 8⟩,
    .punct (charCode '~') .alone ⟨8, 9⟩, .literal .int (word ['7']) ⟨9, 11⟩]

theorem regrownName_nothing_to_paste :
    Stream.substitute (charCode '~') ⟨word ['a', 'b'], 7⟩ regrownName = regrownNameCopied ∧
      (∃ segments : List Segment,
        regrownNameCopied = segments.map (Segment.copy (charCode '~') ⟨word ['a', 'b'], 7⟩) ∧
          ∃ segment ∈ segments, segment.IsPasted) ∧
      ¬ regrownNameCopied.Holds (IsIdent (word ['b'])) ∧
      Stream.substitute (charCode '~') ⟨word ['b'], 8⟩ regrownNameCopied = regrownNameCopied ∧
      regrownNameCopied.Holds (IsSection (charCode '~') (charCode '~')) := by
  have isCopy : Stream.substitute (charCode '~') ⟨word ['a', 'b'], 7⟩ regrownName =
      regrownNameCopied := by
    with_unfolding_all rfl
  obtain ⟨-, stems, -, unchanged, sections⟩ :=
    copies_have_nothing_to_paste (charCode '~') ⟨word ['a', 'b'], 7⟩ regrownName
  rw [isCopy] at stems unchanged sections
  have noName : ¬ regrownNameCopied.Holds (IsIdent (word ['b'])) := by decide
  refine ⟨isCopy, ?_, noName, unchanged ⟨word ['b'], 8⟩ noName, (sections _ _).mpr (by decide)⟩
  obtain ⟨inner, segments, -, -, isMap, pasted⟩ := stems _ (.top _)
  obtain ⟨segment, others, rfl, isFirst, -⟩ := List.map_eq_cons_iff.mp isMap.symm
  exact ⟨_, isMap, segment, List.mem_cons_self, pasted segment List.mem_cons_self _ isFirst⟩

end Unroll
