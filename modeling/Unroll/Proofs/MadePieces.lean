import Unroll.Proofs.DepthLimits
import Unroll.Proofs.Flattening
import Unroll.Proofs.RepeatedSections

set_option autoImplicit false

/-!
# What pieces are made of

Substitution makes few pieces of its own: the decimal literal of a value, and a name to which other
names and the digits of values are pasted. All other pieces of an output are pieces of the input.
This holds of copies, of filled sections, of expansions, and of splicing as often as it takes. What
is true of the input and of these two pieces is therefore true of every output.
-/

namespace Unroll

/-- A piece that is given, or made of given ones and of values. -/
inductive Piece.Made (values : UInt64 → Prop) (given : List Piece) : Piece → Prop
  | given {piece : Piece} (membership : piece ∈ given) : Made values given piece
  | value {value : UInt64} (isValue : values value) :
      Made values given (.literal .int (Bytes.decimal value.toNat))
  | pasteName {name more : Bytes} (first : Made values given (.ident name))
      (second : Made values given (.ident more)) : Made values given (.ident (name ++ more))
  | pasteValue {name : Bytes} {value : UInt64} (first : Made values given (.ident name))
      (isValue : values value) : Made values given (.ident (name ++ Bytes.decimal value.toNat))

theorem Piece.Made.trans {values : UInt64 → Prop} {given between : List Piece}
    (made : ∀ piece ∈ between, Made values given piece) {piece : Piece}
    (further : Made values between piece) : Made values given piece := by
  induction further with
  | given membership => exact made _ membership
  | value isValue => exact .value isValue
  | pasteName _ _ first second => exact .pasteName first second
  | pasteValue _ isValue first => exact .pasteValue first isValue

namespace Stream

/-- All pieces of the output are made of the pieces of the input and of values. -/
def Makes (values : UInt64 → Prop) (stream out : Stream) : Prop :=
  ∀ piece ∈ Stream.pieces out, Piece.Made values (Stream.pieces stream) piece

namespace Makes

variable {values : UInt64 → Prop} {stream between out out' : Stream}

theorem of_subset (inside : Stream.pieces out ⊆ Stream.pieces stream) :
    Makes values stream out := by
  intro piece membership
  exact .given (inside membership)

theorem refl (stream : Stream) : Makes values stream stream :=
  .of_subset (List.Subset.refl _)

theorem trans (first : Makes values stream between) (second : Makes values between out) :
    Makes values stream out := by
  intro piece membership
  exact (second piece membership).trans first

/-- What is made of a part of the input is made of the input. -/
theorem mono (made : Makes values between out)
    (inside : Stream.pieces between ⊆ Stream.pieces stream) : Makes values stream out :=
  .trans (.of_subset inside) made

theorem append (made : Makes values stream out) (made' : Makes values stream out') :
    Makes values stream (out ++ out') := by
  intro piece membership
  rw [Stream.pieces_append, List.mem_append] at membership
  rcases membership with inFirst | inSecond
  · exact made piece inFirst
  · exact made' piece inSecond

theorem flatMap {α : Type} {parts : List α} {part : α → Stream}
    (made : ∀ one ∈ parts, Makes values stream (part one)) :
    Makes values stream (parts.flatMap part) := by
  induction parts with
  | nil => exact .of_subset (List.nil_subset _)
  | cons one parts inductionHypothesis =>
    obtain ⟨first, others⟩ := List.forall_mem_cons.mp made
    exact first.append (inductionHypothesis others)

/-- Outputs side by side are made of their inputs side by side. -/
theorem append_append {front rest : Stream} (first : Makes values front out)
    (behind : Makes values rest out') : Makes values (front ++ rest) (out ++ out') := by
  apply append
  · exact first.mono (by simp)
  · exact behind.mono (by simp)

theorem group {children inner : Stream} (inside : Makes values children inner)
    (delimiter : Delimiter) (span : Span) :
    Makes values [.group delimiter children span] [.group delimiter inner span] := by
  intro piece membership
  simp only [Stream.pieces, Node.pieces, List.append_nil, List.cons_append, List.mem_cons,
    List.mem_append, List.not_mem_nil, or_false] at membership
  rcases membership with rfl | inInner | rfl
  · exact .given (by simp [Stream.pieces, Node.pieces])
  · apply (inside piece inInner).trans
    intro own inChildren
    exact .given (by simp [Stream.pieces, Node.pieces, inChildren])
  · exact .given (by simp [Stream.pieces, Node.pieces])

end Makes

end Stream

theorem Link.ident_mem_pieces (paste : Int32) {links : List Link} {link : Link}
    (membership : link ∈ links) :
    .ident link.name ∈ Stream.pieces (links.flatMap (Link.nodes paste)) := by
  obtain ⟨before, behind, rfl⟩ := List.append_of_mem membership
  simp [Link.nodes, Stream.pieces, Node.pieces]

section Substitution

variable {values : UInt64 → Prop} {binding : Binding} (isValue : values binding.value)

include isValue

namespace Chain

variable {given : List Piece} {chain : Chain}

theorem made_join {name : Bytes} (isChain : Piece.Made values given (.ident chain.name))
    (isName : .ident name ∈ given) :
    Piece.Made values given (.ident (chain.join (binding.piece name)).name) := by
  unfold Binding.piece
  split
  · exact .pasteValue isChain isValue
  · exact .pasteName isChain (.given isName)

theorem made_linked (links : List Link) (isChain : Piece.Made values given (.ident chain.name))
    (areNames : ∀ link ∈ links, .ident link.name ∈ given) :
    Piece.Made values given (.ident (chain.linked binding links).name) := by
  induction links generalizing chain with
  | nil => exact isChain
  | cons link links inductionHypothesis =>
    obtain ⟨isName, others⟩ := List.forall_mem_cons.mp areNames
    exact inductionHypothesis (made_join isValue isChain isName) others

theorem made_node (isChain : Piece.Made values given (.ident chain.name)) :
    ∀ piece ∈ (chain.node binding).pieces, Piece.Made values given piece := by
  unfold node
  split
  · exact List.forall_mem_singleton.mpr (.value isValue)
  · exact List.forall_mem_singleton.mpr isChain

end Chain

theorem Stream.makes_substitute (paste : Int32) (stream : Stream) :
    Makes values stream (Stream.substitute paste binding stream) := by
  induction stream using chainInduction paste with
  | nil => exact .refl []
  | chain head span links rest ended inRest =>
    have inChain : Makes values (.ident head span :: links.flatMap (Link.nodes paste))
        [((Chain.head head span).linked binding links).node binding] := by
      intro piece membership
      rw [Stream.pieces, Stream.pieces, List.append_nil] at membership
      apply Chain.made_node isValue _ piece membership
      apply Chain.made_linked isValue links
      · exact .given List.mem_cons_self
      · intro link inLinks
        exact List.mem_cons_of_mem _ (Link.ident_mem_pieces paste inLinks)
    rw [Stream.substitute_linked ended]
    exact inChain.append_append inRest
  | leaf node rest isLeaf noName inRest =>
    rw [Stream.substitute_leaf isLeaf noName]
    exact Makes.append_append (.refl [node]) inRest
  | group delimiter children span rest inChildren inRest =>
    exact (inChildren.group delimiter span).append_append inRest

end Substitution

section Expansion

variable {values : UInt64 → Prop} {header : Header}
  (areValues : ∀ value ∈ header.range.values, values value)

include areValues

theorem Stream.makes_copies (paste : Int32) (body : Stream) :
    Makes values body (Stream.copies paste header body) := by
  apply Makes.flatMap
  intro value membership
  exact Stream.makes_substitute (areValues value membership) paste body

theorem Skeleton.Cuts.makes_filled {marker continuation : Int32} {skeleton : Skeleton}
    {body : Stream} (cuts : Skeleton.Cuts marker continuation skeleton body) (paste : Int32) :
    Stream.Makes values body (Skeleton.filled (Stream.copies paste header) skeleton) := by
  induction cuts with
  | nil => exact .refl []
  | @hole stream body rest skeleton opens behind inRest =>
    obtain ⟨spacing, span, groupSpan, spacing', span', rfl⟩ := opens
    have inCopies := Stream.makes_copies areValues paste body
    apply Stream.Makes.append
    · apply inCopies.mono
      intro piece membership
      simp [Stream.pieces, Node.pieces, membership]
    · apply inRest.mono
      intro piece membership
      simp [Stream.pieces, membership]
  | leaf isLeaf closed behind inRest => exact .append_append (.refl [_]) inRest
  | group closed inside behind inChildren inRest =>
    exact (inChildren.group _ _).append_append inRest

theorem Stream.makes_fill (style : Style) (body : Stream) :
    Makes values body (Stream.fill style header body).stream := by
  obtain ⟨skeleton, cuts⟩ := Skeleton.exists_cuts style.marker style.continuation body
  have filled := cuts.makes_filled areValues style.paste
  rwa [← cuts.fill_stream style.paste header] at filled

theorem Stream.makes_unrolled (style : Style) (body : Stream) :
    Makes values body (Stream.unrolled style header body) := by
  by_cases holds : body.Holds (IsSection style.marker style.continuation)
  · rw [Stream.unrolled_of_holds holds]
    exact Stream.makes_fill areValues style body
  · rw [Stream.unrolled_of_not_holds holds]
    exact Stream.makes_copies areValues style.paste body

end Expansion

theorem Stream.makes_expand {style : Style} {stream out : Stream}
    (expanded : stream.expand style = .ok out) : Makes (fun _ => True) stream out := by
  have outcome := Stream.expand_outcome style stream
  rw [expanded] at outcome
  obtain ⟨header, body, ⟨nodes, span, -, rfl⟩, rfl⟩ := outcome
  have inBody : Makes (fun _ => True) body (Stream.unrolled style header body) :=
    Stream.makes_unrolled (fun _ _ => trivial) style body
  apply inBody.mono
  intro piece membership
  simp [Stream.pieces, Node.pieces, membership]

/-! Splicing. -/

section Splicing

variable {values : UInt64 → Prop} {table : Generators}
  (generatorsMake : ∀ name generator, table.get? name = some generator →
    ∀ input output, generator input = .ok output → Stream.Makes values input output)

include generatorsMake

/-- A run makes no other pieces than its generators do. -/
theorem Stream.Splices.makes {levels : Nat} {stream : Stream} {patches : Patchwork}
    (splices : Stream.Splices table levels stream patches) :
    Makes values stream (Patchwork.nodes patches) := by
  induction splices with
  | nil => exact .refl []
  | leaf isLeaf noInvocation behind inRest => exact .append_append (.refl [_]) inRest
  | group inside behind inChildren inRest => exact (inChildren.group _ _).append_append inRest
  | @invocation levels first second third rest generated invocation inner patches found generates
      output behind inOutput inRest =>
    obtain ⟨name, _, _, _, _, registered, rfl, rfl, rfl⟩ := Invocation.shape_of_ofNodes? found
    have inGenerated := generatorsMake name _ registered _ _ generates
    apply Makes.append
    · apply (inGenerated.trans inOutput).mono
      intro piece membership
      simp [Stream.pieces, Node.pieces, membership]
    · obtain ⟨front, isRest⟩ := invocation.behind_suffix rest
      apply inRest.mono
      intro piece membership
      rw [← isRest]
      simp [Stream.pieces, membership]

theorem Stream.makes_splice {limit : Int} {stream out : Stream}
    (spliced : stream.splice table limit = .ok out) : Makes values stream out := by
  obtain ⟨patches, splices, rfl⟩ := (Stream.splice_eq_ok_iff limit out).mp spliced
  exact splices.makes generatorsMake

end Splicing

end Unroll
