import Unroll.Loop.Substitution
import Unroll.Proofs.Levels

set_option autoImplicit false

/-!
# Substituted streams

Substitution turns each chain of identifiers into one node and every other node into one node of its
own. So punctuation and groups that stand in a row in a copy stand in a row in the body, and a copy
holds no marks that the body does not hold.
-/

namespace Unroll

/-- A paste character and an identifier stand next. -/
def Stream.Pastes (paste : Int32) : List Node → Prop
  | .punct char _ _ :: .ident _ _ :: _ => char = paste
  | _ => False

theorem Stream.pastes_iff (paste : Int32) (stream : Stream) :
    Stream.Pastes paste stream ↔ ∃ spacing span name nameSpan rest,
      stream = .punct paste spacing span :: .ident name nameSpan :: rest := by
  constructor
  · intro pastes
    unfold Stream.Pastes at pastes
    split at pastes
    · subst pastes
      exact ⟨_, _, _, _, _, rfl⟩
    · cases pastes
  · rintro ⟨spacing, span, name, nameSpan, rest, rfl⟩
    rfl

/-- A chain goes on through a stream for as long as identifiers are pasted to it. The last chain is
the whole one, and the last stream is what follows it. -/
inductive Chain.Ends (paste : Int32) (binding : Binding) : Chain → Stream → Chain → Stream → Prop
  | stop {chain : Chain} {rest : Stream} (ended : ¬ Stream.Pastes paste rest) :
      Ends paste binding chain rest chain rest
  | join {chain whole : Chain} {spacing : Spacing} {span nameSpan : Span} {name : Bytes}
      {rest behind : Stream}
      (goesOn : Ends paste binding (chain.join (binding.piece name)) rest whole behind) :
      Ends paste binding chain (.punct paste spacing span :: .ident name nameSpan :: rest) whole
        behind

section Substitution

variable {paste : Int32} {binding : Binding}

namespace Chain

theorem node_head_of_ne {name : Bytes} (notVariable : name ≠ binding.variableName) (span : Span) :
    (head name span).node binding = .ident name span := by
  simp [node, head, notVariable]

theorem Ends.suffix {chain whole : Chain} {rest behind : Stream}
    (ends : Ends paste binding chain rest whole behind) : behind <:+ rest := by
  induction ends with
  | stop => exact List.suffix_refl _
  | join goesOn inductionHypothesis =>
    exact (inductionHypothesis.trans (List.suffix_cons _ _)).trans (List.suffix_cons _ _)

variable (paste binding) in
theorem exists_ends (chain : Chain) (rest : Stream) :
    ∃ whole behind, Ends paste binding chain rest whole behind := by
  by_cases pastes : Stream.Pastes paste rest
  · obtain ⟨spacing, span, name, nameSpan, others, rfl⟩ := (Stream.pastes_iff _ _).mp pastes
    obtain ⟨whole, behind, ends⟩ := exists_ends (chain.join (binding.piece name)) others
    exact ⟨whole, behind, .join ends⟩
  · exact ⟨chain, rest, .stop pastes⟩
termination_by rest.length

end Chain

namespace Stream

theorem continueChain_of_not_pastes {rest : Stream} (ended : ¬ Stream.Pastes paste rest)
    (chain : Chain) :
    Stream.continueChain paste binding chain rest =
      chain.node binding :: Stream.substitute paste binding rest := by
  match rest with
  | [] => rfl
  | .ident _ _ :: _ | .literal _ _ _ :: _ | .group _ _ _ :: _ => rfl
  | [.punct _ _ _] => rfl
  | .punct char spacing span :: .ident name nameSpan :: others =>
    have notPaste : char ≠ paste := ended
    rw [Stream.continueChain, if_neg notPaste]
    rfl
  | .punct _ _ _ :: .literal _ _ _ :: _ | .punct _ _ _ :: .punct _ _ _ :: _
  | .punct _ _ _ :: .group _ _ _ :: _ => rfl

theorem continueChain_of_ends {chain whole : Chain} {rest behind : Stream}
    (ends : Chain.Ends paste binding chain rest whole behind) :
    Stream.continueChain paste binding chain rest =
      whole.node binding :: Stream.substitute paste binding behind := by
  induction ends with
  | stop ended => exact continueChain_of_not_pastes ended _
  | join goesOn inductionHypothesis => rw [Stream.continueChain, if_pos rfl, inductionHypothesis]

theorem substitute_ident {rest : Stream} (ended : ¬ Stream.Pastes paste rest) (name : Bytes)
    (span : Span) :
    Stream.substitute paste binding (.ident name span :: rest) =
      (Chain.head name span).node binding :: Stream.substitute paste binding rest :=
  continueChain_of_not_pastes ended (.head name span)

/-- A stream and its copy: one node for each chain that begins outside of another one, and one for
each other node. -/
inductive Substituted (paste : Int32) (binding : Binding) : Stream → Stream → Prop
  | nil : Substituted paste binding [] []
  | chain {name : Bytes} {span : Span} {rest behind copy : Stream} {whole : Chain}
      (ends : Chain.Ends paste binding (.head name span) rest whole behind)
      (copied : Substituted paste binding behind copy) :
      Substituted paste binding (.ident name span :: rest) (whole.node binding :: copy)
  | other {node : Node} {rest copy : Stream} (noName : ∀ name span, node ≠ .ident name span)
      (copied : Substituted paste binding rest copy) :
      Substituted paste binding (node :: rest) (node.substitute paste binding :: copy)

variable (paste binding) in
theorem substituted (stream : Stream) :
    Substituted paste binding stream (Stream.substitute paste binding stream) := by
  match stream with
  | [] => exact .nil
  | .ident name span :: rest =>
    obtain ⟨whole, behind, ends⟩ := Chain.exists_ends paste binding (.head name span) rest
    have shorter := ends.suffix.length_le
    have copied := substituted behind
    rw [Stream.substitute, continueChain_of_ends ends]
    exact .chain ends copied
  | .literal _ _ _ :: rest | .punct _ _ _ :: rest | .group _ _ _ :: rest =>
    exact .other nofun (substituted rest)
termination_by stream.length

end Stream

/-- Punctuation and groups. -/
def Node.Firm : Node → Prop
  | .punct _ _ _ | .group _ _ _ => True
  | .ident _ _ | .literal _ _ _ => False

theorem Chain.not_firm_node (chain : Chain) : ¬ (chain.node binding).Firm := by
  unfold Chain.node
  split <;> exact id

namespace Node

theorem Firm.of_substitute {node : Node} (firm : (node.substitute paste binding).Firm) :
    node.Firm := by
  cases node with
  | ident name span => exact absurd firm (Chain.not_firm_node (.head name span))
  | literal => exact firm
  | punct | group => trivial

theorem substitute_eq_punct {node : Node} {char : Int32} {spacing : Spacing} {span : Span}
    (copied : node.substitute paste binding = .punct char spacing span) :
    node = .punct char spacing span := by
  have firm : (node.substitute paste binding).Firm := by
    rw [copied]
    trivial
  cases node with
  | ident | literal => cases firm.of_substitute
  | group => cases copied
  | punct => exact copied

theorem substitute_eq_group {node : Node} {delimiter : Delimiter} {copy : Stream} {span : Span}
    (copied : node.substitute paste binding = .group delimiter copy span) :
    ∃ children, node = .group delimiter children span ∧
      copy = Stream.substitute paste binding children := by
  have firm : (node.substitute paste binding).Firm := by
    rw [copied]
    trivial
  cases node with
  | ident | literal => cases firm.of_substitute
  | punct => cases copied
  | group own children ownSpan =>
    cases copied
    exact ⟨children, rfl, rfl⟩

end Node

namespace Stream

variable {stream copy : Stream} {nodes : List Node}

theorem Substituted.prefix_of_firm (copied : Substituted paste binding stream copy)
    (firm : ∀ node ∈ nodes, node.Firm) (isPrefix : nodes <+: copy) :
    ∃ inner, inner <+: stream ∧ nodes = inner.map (Node.substitute paste binding) := by
  induction copied generalizing nodes with
  | nil => exact ⟨[], List.nil_prefix, List.prefix_nil.mp isPrefix⟩
  | chain ends copied inductionHypothesis =>
    cases nodes with
    | nil => exact ⟨[], List.nil_prefix, rfl⟩
    | cons node nodes =>
      obtain ⟨rfl, -⟩ := List.cons_prefix_cons.mp isPrefix
      exact absurd (firm _ List.mem_cons_self) (Chain.not_firm_node _)
  | other noName copied inductionHypothesis =>
    cases nodes with
    | nil => exact ⟨[], List.nil_prefix, rfl⟩
    | cons node nodes =>
      obtain ⟨rfl, inRest⟩ := List.cons_prefix_cons.mp isPrefix
      obtain ⟨inner, innerPrefix, rfl⟩ :=
        inductionHypothesis (fun node membership => firm node (.tail _ membership)) inRest
      exact ⟨_ :: inner, List.cons_prefix_cons.mpr ⟨rfl, innerPrefix⟩, rfl⟩

/-- The end of a copy is the copy of an end: no node comes from the middle of a chain. -/
theorem Substituted.of_suffix (copied : Substituted paste binding stream copy)
    (isSuffix : nodes <:+ copy) :
    ∃ inner, inner <:+ stream ∧ Substituted paste binding inner nodes := by
  induction copied with
  | nil =>
    rw [List.suffix_nil.mp isSuffix]
    exact ⟨[], List.suffix_refl [], .nil⟩
  | chain ends copied inductionHypothesis =>
    rcases List.suffix_cons_iff.mp isSuffix with rfl | inRest
    · exact ⟨_, List.suffix_refl _, .chain ends copied⟩
    · obtain ⟨inner, innerSuffix, innerCopied⟩ := inductionHypothesis inRest
      -- The rest of the copy begins behind the whole chain.
      have inRest := innerSuffix.trans ends.suffix
      exact ⟨inner, inRest.trans (List.suffix_cons _ _), innerCopied⟩
  | other noName copied inductionHypothesis =>
    rcases List.suffix_cons_iff.mp isSuffix with rfl | inRest
    · exact ⟨_, List.suffix_refl _, .other noName copied⟩
    · obtain ⟨inner, innerSuffix, innerCopied⟩ := inductionHypothesis inRest
      exact ⟨inner, innerSuffix.trans (List.suffix_cons _ _), innerCopied⟩

/-- Punctuation and groups in a row in a copy come from a row in the stream. -/
theorem Substituted.infix_of_firm (copied : Substituted paste binding stream copy)
    (firm : ∀ node ∈ nodes, node.Firm) (isInfix : nodes <:+: copy) :
    ∃ inner, inner <:+: stream ∧ nodes = inner.map (Node.substitute paste binding) := by
  obtain ⟨part, isPrefix, isSuffix⟩ := List.infix_iff_prefix_suffix.mp isInfix
  obtain ⟨original, originalSuffix, partCopied⟩ := copied.of_suffix isSuffix
  obtain ⟨inner, innerPrefix, rfl⟩ := partCopied.prefix_of_firm firm isPrefix
  exact ⟨inner, innerPrefix.isInfix.trans originalSuffix.isInfix, rfl⟩

theorem group_mem_of_substitute {delimiter : Delimiter} {children : Stream} {span : Span}
    (membership : .group delimiter children span ∈ Stream.substitute paste binding stream) :
    ∃ inner, .group delimiter inner span ∈ stream ∧
      children = Stream.substitute paste binding inner := by
  have firm : ∀ node ∈ [Node.group delimiter children span], node.Firm := by simp [Node.Firm]
  obtain ⟨inner, innerInfix, isCopy⟩ := (substituted paste binding stream).infix_of_firm firm
    ((List.singleton_infix_iff _ _).mpr membership)
  obtain ⟨node, rfl, copied⟩ := List.map_eq_singleton_iff.mp isCopy.symm
  obtain ⟨inner, rfl, rfl⟩ := Node.substitute_eq_group copied
  exact ⟨inner, innerInfix.mem List.mem_cons_self, rfl⟩

theorem Level.of_substitute {level : Stream}
    (isLevel : Level (Stream.substitute paste binding stream) level) :
    ∃ inner, stream.Level inner ∧ level = Stream.substitute paste binding inner := by
  generalize substitution : Stream.substitute paste binding stream = copy at isLevel
  induction isLevel generalizing stream with
  | top => exact ⟨stream, .top stream, substitution.symm⟩
  | inside membership below inductionHypothesis =>
    subst substitution
    obtain ⟨children, inStream, isCopy⟩ := group_mem_of_substitute membership
    obtain ⟨inner, isLevel, rfl⟩ := inductionHypothesis isCopy.symm
    exact ⟨inner, .inside inStream isLevel, rfl⟩

/-- A shape of punctuation and groups that a copy holds is held by the stream, if it does not depend
on what substitution does to a node. -/
theorem Holds.of_substitute {shape : List Node → Prop}
    (firm : ∀ nodes, shape nodes → ∀ node ∈ nodes, node.Firm)
    (reflects : ∀ nodes, shape (nodes.map (Node.substitute paste binding)) → shape nodes)
    (holds : Holds shape (Stream.substitute paste binding stream)) : Holds shape stream := by
  obtain ⟨level, isLevel, nodes, shaped, inLevel⟩ := holds
  obtain ⟨inner, isInner, rfl⟩ := isLevel.of_substitute
  obtain ⟨original, inInner, rfl⟩ := (substituted paste binding inner).infix_of_firm
    (firm nodes shaped) inLevel
  exact ⟨inner, isInner, original, reflects original shaped, inInner⟩

/-- Substitution makes no punctuation. -/
theorem Holds.punct_of_substitute {char : Int32}
    (holds : Holds (IsPunct char) (Stream.substitute paste binding stream)) :
    Holds (IsPunct char) stream := by
  apply holds.of_substitute
  · intro nodes isPunct
    obtain ⟨spacing, span, rfl⟩ := (isPunct_iff _ _).mp isPunct
    simp [Node.Firm]
  · intro nodes isPunct
    obtain ⟨spacing, span, isCopy⟩ := (isPunct_iff _ _).mp isPunct
    obtain ⟨node, rfl, copied⟩ := List.map_eq_singleton_iff.mp isCopy
    rw [Node.substitute_eq_punct copied]
    rfl

end Stream

end Substitution

/-! Chains by their links. -/

/-- A paste character and the identifier behind it. -/
structure Link where
  spacing : Spacing
  pasteSpan : Span
  name : Bytes
  nameSpan : Span

def Link.nodes (paste : Int32) (link : Link) : List Node :=
  [.punct paste link.spacing link.pasteSpan, .ident link.name link.nameSpan]

/-- A stream begins with all the links that there are. -/
theorem Stream.exists_links (paste : Int32) (stream : Stream) :
    ∃ (links : List Link) (rest : Stream), stream = links.flatMap (Link.nodes paste) ++ rest ∧
      ¬ Stream.Pastes paste rest := by
  by_cases pastes : Stream.Pastes paste stream
  · obtain ⟨spacing, span, name, nameSpan, others, rfl⟩ := (Stream.pastes_iff _ _).mp pastes
    obtain ⟨links, rest, rfl, ended⟩ := Stream.exists_links paste others
    exact ⟨⟨spacing, span, name, nameSpan⟩ :: links, rest, rfl, ended⟩
  · exact ⟨[], stream, rfl, pastes⟩
termination_by stream.length

namespace Chain

variable {paste : Int32} {binding : Binding}

theorem node_head_self (name : Bytes) (value : UInt64) (span : Span) :
    (head name span).node ⟨name, value⟩ = .ofValue value span := by
  simp [node, head]

/-- A chain with links joined to it. -/
def linked (binding : Binding) (chain : Chain) (links : List Link) : Chain :=
  links.foldl (fun chain link => chain.join (binding.piece link.name)) chain

theorem ends_linked {rest : Stream} (ended : ¬ Stream.Pastes paste rest) (links : List Link)
    (chain : Chain) :
    Ends paste binding chain (links.flatMap (Link.nodes paste) ++ rest) (chain.linked binding links)
      rest := by
  induction links generalizing chain with
  | nil => exact .stop ended
  | cons link links inductionHypothesis => exact .join (inductionHypothesis _)

theorem linked_cons (chain : Chain) (link : Link) (links : List Link) :
    chain.linked binding (link :: links) =
      ⟨chain.name ++ ((link :: links).map Link.name).flatMap binding.piece, chain.span, true⟩ := by
  induction links generalizing chain link with
  | nil => simp [linked, join]
  | cons next links inductionHypothesis =>
    have further := inductionHypothesis (chain.join (binding.piece link.name)) next
    rw [linked, List.foldl_cons, ← linked, further]
    simp [join]

end Chain

namespace Stream

variable {paste : Int32} {binding : Binding}

theorem substitute_linked {rest : Stream} (ended : ¬ Stream.Pastes paste rest) (name : Bytes)
    (span : Span) (links : List Link) :
    Stream.substitute paste binding
        (.ident name span :: (links.flatMap (Link.nodes paste) ++ rest)) =
      ((Chain.head name span).linked binding links).node binding ::
        Stream.substitute paste binding rest :=
  continueChain_of_ends (Chain.ends_linked ended links (.head name span))

/-- A stream is made of chains with all their links, of groups and of other leaves. -/
theorem chainInduction (paste : Int32) {motive : Stream → Prop} (nil : motive [])
    (chain : ∀ head span (links : List Link) rest, ¬ Stream.Pastes paste rest → motive rest →
      motive (.ident head span :: (links.flatMap (Link.nodes paste) ++ rest)))
    (leaf : ∀ node rest, node.IsLeaf → (∀ name span, node ≠ .ident name span) → motive rest →
      motive (node :: rest))
    (group : ∀ delimiter children span rest, motive children → motive rest →
      motive (.group delimiter children span :: rest))
    (stream : Stream) : motive stream := by
  match stream with
  | [] => exact nil
  | .ident head span :: others =>
    obtain ⟨links, rest, isOthers, ended⟩ := exists_links paste others
    have shorter := sizeOf_le_of_suffix (List.suffix_append (links.flatMap (Link.nodes paste)) rest)
    have behind := chainInduction paste nil chain leaf group rest
    rw [isOthers]
    exact chain head span links rest ended behind
  | .literal _ _ _ :: rest | .punct _ _ _ :: rest =>
    exact leaf _ rest trivial (by simp) (chainInduction paste nil chain leaf group rest)
  | .group delimiter children span :: rest =>
    exact group delimiter children span rest (chainInduction paste nil chain leaf group children)
      (chainInduction paste nil chain leaf group rest)
termination_by sizeOf stream
decreasing_by
  · rw [isOthers]
    simp only [List.cons.sizeOf_spec]
    omega
  all_goals
    simp only [List.cons.sizeOf_spec, Node.group.sizeOf_spec]
    omega

theorem substitute_leaf {node : Node} (isLeaf : node.IsLeaf)
    (noName : ∀ name span, node ≠ .ident name span) (rest : Stream) :
    Stream.substitute paste binding (node :: rest) =
      node :: Stream.substitute paste binding rest := by
  cases node with
  | ident name span => exact absurd rfl (noName name span)
  | literal | punct => rfl
  | group => cases isLeaf

end Stream

end Unroll
