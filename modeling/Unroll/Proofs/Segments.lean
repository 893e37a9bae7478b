import Mathlib.Logic.ExistsUnique
import Unroll.Proofs.SubstitutedStreams

set_option autoImplicit false

/-!
# Segments of a stream

A stream falls into segments in one way: a segment is an identifier with all the links that follow
it, or a single other node. Substitution turns each segment into one node, so it leaves a stream as
it is exactly if, on every level, no segment is a chain with links or the variable on its own.
-/

namespace Unroll

inductive Segment where
  | chain (head : Bytes) (span : Span) (links : List Link)
  | other (node : Node) (noName : ∀ name span, node ≠ .ident name span)

namespace Segment

def nodes (paste : Int32) : Segment → List Node
  | .chain head span links => .ident head span :: links.flatMap (Link.nodes paste)
  | .other node _ => [node]

/-- Nothing of the rest belongs to the segment. -/
def EndsBefore (paste : Int32) (rest : Stream) : Segment → Prop
  | .chain _ _ _ => ¬ Stream.Pastes paste rest
  | .other _ _ => True

/-- The node that a segment becomes. -/
def copy (paste : Int32) (binding : Binding) : Segment → Node
  | .chain head span [] =>
    if head = binding.variableName then .ofValue binding.value span else .ident head span
  | .chain head span (link :: links) =>
    .ident (head ++ (link :: links).flatMap fun link =>
      if link.name = binding.variableName then Bytes.decimal binding.value.toNat
      else link.name) span
  | .other node _ =>
    match node with
    | .group delimiter children span =>
      .group delimiter (Stream.substitute paste binding children) span
    | node => node

/-- A chain of two identifiers or more. -/
def IsPasted : Segment → Prop
  | .chain _ _ links => links ≠ []
  | .other _ _ => False

/-- An identifier of the given name on its own. -/
def IsAlone (name : Bytes) : Segment → Prop
  | .chain head _ links => links = [] ∧ head = name
  | .other _ _ => False

end Segment

/-- The segments of a stream, from left to right. -/
inductive Stream.SplitsInto (paste : Int32) : Stream → List Segment → Prop
  | nil : SplitsInto paste [] []
  | cons {segment : Segment} {rest : Stream} {segments : List Segment}
      (ended : segment.EndsBefore paste rest) (behind : SplitsInto paste rest segments) :
      SplitsInto paste (segment.nodes paste ++ rest) (segment :: segments)

section

variable {paste : Int32}

namespace Segment

theorem nodes_ne_nil (paste : Int32) (segment : Segment) : segment.nodes paste ≠ [] := by
  cases segment <;> exact List.cons_ne_nil _ _

theorem links_eq_of_append_eq {links links' : List Link} {rest rest' : Stream}
    (ended : ¬ Stream.Pastes paste rest) (ended' : ¬ Stream.Pastes paste rest')
    (same : links.flatMap (Link.nodes paste) ++ rest =
      links'.flatMap (Link.nodes paste) ++ rest') : links = links' ∧ rest = rest' := by
  induction links generalizing links' with
  | nil =>
    cases links' with
    | nil => exact ⟨rfl, same⟩
    | cons link' links' =>
      rw [List.flatMap_nil, List.nil_append] at same
      exact absurd (same ▸ rfl) ended
  | cons link links inductionHypothesis =>
    cases links' with
    | nil =>
      rw [List.flatMap_nil, List.nil_append] at same
      exact absurd (same ▸ rfl) ended'
    | cons link' links' =>
      simp only [List.flatMap_cons, Link.nodes, List.cons_append, List.nil_append, List.cons.injEq,
        Node.punct.injEq, Node.ident.injEq, true_and] at same
      obtain ⟨⟨sameSpacing, samePaste⟩, ⟨sameName, sameSpan⟩, same⟩ := same
      obtain ⟨rfl, rfl⟩ := inductionHypothesis same
      cases link
      cases link'
      cases sameSpacing
      cases samePaste
      cases sameName
      cases sameSpan
      exact ⟨rfl, rfl⟩

/-- The first segment of a stream is determined by the stream. -/
theorem eq_of_append_eq {segment segment' : Segment} {rest rest' : Stream}
    (ended : segment.EndsBefore paste rest) (ended' : segment'.EndsBefore paste rest')
    (same : segment.nodes paste ++ rest = segment'.nodes paste ++ rest') :
    segment = segment' ∧ rest = rest' := by
  cases segment with
  | chain head span links =>
    cases segment' with
    | chain head' span' links' =>
      obtain ⟨sameHead, sameBehind⟩ := List.cons.inj same
      cases sameHead
      obtain ⟨rfl, rfl⟩ := links_eq_of_append_eq ended ended' sameBehind
      exact ⟨rfl, rfl⟩
    | other node noName => exact absurd (List.cons.inj same).1.symm (noName head span)
  | other node noName =>
    cases segment' with
    | chain head span links => exact absurd (List.cons.inj same).1 (noName head span)
    | other node' noName' =>
      obtain ⟨rfl, rfl⟩ := List.cons.inj same
      exact ⟨rfl, rfl⟩

end Segment

namespace Stream

theorem SplitsInto.flatMap_eq {stream : Stream} {segments : List Segment}
    (splits : stream.SplitsInto paste segments) :
    segments.flatMap (Segment.nodes paste) = stream := by
  induction splits with
  | nil => rfl
  | cons ended behind inductionHypothesis => rw [List.flatMap_cons, inductionHypothesis]

theorem SplitsInto.unique {stream : Stream} {segments segments' : List Segment}
    (splits : stream.SplitsInto paste segments) (splits' : stream.SplitsInto paste segments') :
    segments = segments' := by
  induction splits generalizing segments' with
  | nil =>
    generalize isEmpty : ([] : Stream) = stream at splits'
    cases splits' with
    | nil => rfl
    | @cons segment rest segments ended behind =>
      have isNil := (List.append_eq_nil_iff.mp isEmpty.symm).1
      exact absurd isNil (segment.nodes_ne_nil paste)
  | @cons segment rest segments ended behind inductionHypothesis =>
    generalize isStream : segment.nodes paste ++ rest = stream at splits'
    cases splits' with
    | nil => exact absurd (List.append_eq_nil_iff.mp isStream).1 (segment.nodes_ne_nil paste)
    | cons ended' behind' =>
      obtain ⟨rfl, rfl⟩ := Segment.eq_of_append_eq ended ended' isStream
      rw [inductionHypothesis behind']

theorem SplitsInto.chain {rest : Stream} {segments : List Segment}
    (ended : ¬ Stream.Pastes paste rest) (behind : rest.SplitsInto paste segments) (head : Bytes)
    (span : Span) (links : List Link) :
    SplitsInto paste (.ident head span :: (links.flatMap (Link.nodes paste) ++ rest))
      (.chain head span links :: segments) :=
  @SplitsInto.cons paste (.chain head span links) rest segments ended behind

theorem SplitsInto.other {rest : Stream} {segments : List Segment} {node : Node}
    (noName : ∀ name span, node ≠ .ident name span) (behind : rest.SplitsInto paste segments) :
    SplitsInto paste (node :: rest) (.other node noName :: segments) :=
  @SplitsInto.cons paste (.other node noName) rest segments trivial behind

variable (paste) in
theorem exists_splitsInto (stream : Stream) : ∃ segments, stream.SplitsInto paste segments := by
  induction stream using chainInduction paste with
  | nil => exact ⟨[], .nil⟩
  | chain head span links rest ended behind =>
    obtain ⟨segments, splits⟩ := behind
    exact ⟨_, splits.chain ended head span links⟩
  | leaf node rest isLeaf noName behind =>
    obtain ⟨segments, splits⟩ := behind
    exact ⟨_, splits.other noName⟩
  | group delimiter children span rest inside behind =>
    obtain ⟨segments, splits⟩ := behind
    exact ⟨_, splits.other (by simp)⟩

end Stream

variable {binding : Binding}

/-- A chain with its links is copied as the identifier of all its names together. -/
theorem Segment.copy_chain (head : Bytes) (span : Span) (links : List Link) :
    (Segment.chain head span links).copy paste binding =
      ((Chain.head head span).linked binding links).node binding := by
  cases links with
  | nil => simp [copy, Chain.linked, Chain.node, Chain.head]
  | cons link links =>
    rw [Chain.linked_cons, Chain.node, if_neg (by simp), List.flatMap_map]
    rfl

theorem Segment.substitute_append {segment : Segment} {rest : Stream}
    (ended : segment.EndsBefore paste rest) :
    Stream.substitute paste binding (segment.nodes paste ++ rest) =
      segment.copy paste binding :: Stream.substitute paste binding rest := by
  cases segment with
  | chain head span links =>
    rw [copy_chain]
    exact Stream.substitute_linked ended head span links
  | other node noName =>
    cases node with
    | ident name span => exact absurd rfl (noName name span)
    | literal | punct | group => rfl

namespace Stream

theorem SplitsInto.substitute_eq {stream : Stream} {segments : List Segment}
    (splits : stream.SplitsInto paste segments) :
    Stream.substitute paste binding stream = segments.map (Segment.copy paste binding) := by
  induction splits with
  | nil => rfl
  | cons ended behind inductionHypothesis =>
    rw [Segment.substitute_append ended, inductionHypothesis, List.map_cons]

end Stream

/-! What substitution leaves as it is. -/

namespace Segment

theorem length_le_flatMap (paste : Int32) (segments : List Segment) :
    segments.length ≤ (segments.flatMap (nodes paste)).length := by
  induction segments with
  | nil => exact Nat.le_refl 0
  | cons segment segments inductionHypothesis =>
    have positive := List.length_pos_iff.mpr (segment.nodes_ne_nil paste)
    rw [List.flatMap_cons, List.length_append, List.length_cons]
    omega

/-- Segments are their own copies only one by one: a longer one would leave too few nodes for the
others. -/
theorem flatMap_eq_map_iff (segments : List Segment) :
    segments.flatMap (nodes paste) = segments.map (copy paste binding) ↔
      ∀ segment ∈ segments, segment.nodes paste = [segment.copy paste binding] := by
  induction segments with
  | nil => simp
  | cons segment segments inductionHypothesis =>
    rw [List.flatMap_cons, List.map_cons, List.forall_mem_cons, ← inductionHypothesis]
    constructor
    · intro same
      have lengths := congrArg List.length same
      have enough := length_le_flatMap paste segments
      rw [List.length_append, List.length_cons, List.length_map] at lengths
      obtain ⟨node, isSingle⟩ : ∃ node, segment.nodes paste = [node] := by
        apply List.length_eq_one_iff.mp
        have positive := List.length_pos_iff.mpr (segment.nodes_ne_nil paste)
        omega
      rw [isSingle, List.singleton_append, List.cons.injEq] at same
      exact ⟨by rw [isSingle, same.1], same.2⟩
    · rintro ⟨isSingle, same⟩
      rw [isSingle, same, List.singleton_append]

theorem nodes_eq_copy_iff (segment : Segment) :
    segment.nodes paste = [segment.copy paste binding] ↔
      (¬ segment.IsPasted ∧ ¬ segment.IsAlone binding.variableName) ∧
        ∀ delimiter children span, .group delimiter children span ∈ segment.nodes paste →
          Stream.substitute paste binding children = children := by
  cases segment with
  | chain head span links =>
    cases links with
    | nil =>
      by_cases isVariable : head = binding.variableName
      · simp [nodes, copy, IsPasted, IsAlone, isVariable, Node.ofValue]
      · simp [nodes, copy, IsPasted, IsAlone, isVariable]
    | cons link links => simp [nodes, copy, IsPasted, Link.nodes]
  | other node noName =>
    cases node with
    | ident name span => exact absurd rfl (noName name span)
    | literal | punct => simp [nodes, copy, IsPasted, IsAlone]
    | group delimiter children span =>
      simp only [nodes, copy, List.cons.injEq, Node.group.injEq, true_and, and_true]
      constructor
      · intro same
        refine ⟨⟨id, id⟩, fun own inner ownSpan membership => ?_⟩
        cases List.mem_singleton.mp membership
        exact same.symm
      · rintro ⟨-, inside⟩
        exact (inside delimiter children span List.mem_cons_self).symm

end Segment

namespace Stream

/-- A stream is its own copy exactly if it has neither chains with links nor the variable on its own
among its segments, and the same holds of what its groups hold. -/
theorem SplitsInto.substitute_eq_self_iff {stream : Stream} {segments : List Segment}
    (splits : stream.SplitsInto paste segments) :
    Stream.substitute paste binding stream = stream ↔
      (∀ segment ∈ segments, ¬ segment.IsPasted ∧ ¬ segment.IsAlone binding.variableName) ∧
        ∀ delimiter children span, .group delimiter children span ∈ stream →
          Stream.substitute paste binding children = children := by
  have groups : ∀ node, node ∈ stream ↔ ∃ segment ∈ segments, node ∈ segment.nodes paste := by
    intro node
    rw [← splits.flatMap_eq, List.mem_flatMap]
  have asSegments := @Segment.flatMap_eq_map_iff paste binding segments
  rw [splits.flatMap_eq, ← splits.substitute_eq] at asSegments
  rw [eq_comm, asSegments]
  simp only [Segment.nodes_eq_copy_iff, groups]
  constructor
  · intro each
    refine ⟨fun segment membership => (each segment membership).1, ?_⟩
    rintro delimiter children span ⟨segment, inSegments, inSegment⟩
    exact (each segment inSegments).2 delimiter children span inSegment
  · rintro ⟨each, inside⟩ segment membership
    exact ⟨each segment membership, fun delimiter children span inSegment =>
      inside delimiter children span ⟨segment, membership, inSegment⟩⟩

/-- No segment of any level is changed by substitution. -/
def Settled (paste : Int32) (variableName : Bytes) (stream : Stream) : Prop :=
  ∀ level segments, stream.Level level → level.SplitsInto paste segments →
    ∀ segment ∈ segments, ¬ segment.IsPasted ∧ ¬ segment.IsAlone variableName

theorem Level.substitute_eq_self {stream level : Stream} (isLevel : stream.Level level)
    (same : Stream.substitute paste binding stream = stream) :
    Stream.substitute paste binding level = level := by
  induction isLevel with
  | top => exact same
  | inside membership below inductionHypothesis =>
    obtain ⟨segments, splits⟩ := exists_splitsInto paste _
    exact inductionHypothesis ((splits.substitute_eq_self_iff.mp same).2 _ _ _ membership)

theorem Settled.substitute_eq_self {stream : Stream}
    (settled : stream.Settled paste binding.variableName) :
    Stream.substitute paste binding stream = stream := by
  obtain ⟨segments, splits⟩ := exists_splitsInto paste stream
  apply splits.substitute_eq_self_iff.mpr
  refine ⟨settled stream segments (.top stream) splits, ?_⟩
  intro delimiter children span membership
  have inside : Settled paste binding.variableName children :=
    fun level segments below => settled level segments (.inside membership below)
  exact inside.substitute_eq_self
termination_by sizeOf stream
decreasing_by
  have smaller := List.sizeOf_lt_of_mem membership
  rw [Node.group.sizeOf_spec] at smaller
  omega

end Stream

end

/-- A stream has one decomposition into chains with all their links and other nodes. Substitution
gives one node for each of these segments, and gives back the stream itself exactly if no level has
a chain with links or the variable on its own. -/
theorem substitution_copies_segments (paste : Int32) (binding : Binding) (body : Stream) :
    (∃! segments, body.SplitsInto paste segments) ∧
    (∀ segments, body.SplitsInto paste segments →
      Stream.substitute paste binding body = segments.map (Segment.copy paste binding)) ∧
    (Stream.substitute paste binding body = body ↔
      ¬ ∃ level segments, body.Level level ∧ level.SplitsInto paste segments ∧
        ∃ segment ∈ segments, segment.IsPasted ∨ segment.IsAlone binding.variableName) := by
  obtain ⟨segments, splits⟩ := Stream.exists_splitsInto paste body
  refine ⟨⟨segments, splits, fun others splits' => splits'.unique splits⟩, ?_, ?_, ?_⟩
  · intro segments splits
    exact splits.substitute_eq
  · rintro same ⟨level, segments, isLevel, splits, segment, membership, changes⟩
    have sameLevel := isLevel.substitute_eq_self same
    obtain ⟨notPasted, notAlone⟩ :=
      (splits.substitute_eq_self_iff.mp sameLevel).1 segment membership
    exact changes.elim notPasted notAlone
  · intro unchanged
    apply Stream.Settled.substitute_eq_self
    intro level segments isLevel splits segment membership
    exact not_or.mp fun changes =>
      unchanged ⟨level, segments, isLevel, splits, segment, membership, changes⟩

/-- A chain that a literal breaks off, the variable behind a paste character of its own, at the head
of a chain and inside a group. -/
def brokenChains : Stream :=
  [.ident (word ['a']) ⟨0, 1⟩, .punct (charCode '~') .alone ⟨1, 2⟩, .ident (word ['N']) ⟨2, 3⟩,
    .punct (charCode '~') .alone ⟨3, 4⟩, .literal .int (word ['1']) ⟨4, 5⟩,
    .punct (charCode '~') .alone ⟨6, 7⟩, .ident (word ['N']) ⟨7, 8⟩, .ident (word ['N']) ⟨9, 10⟩,
    .punct (charCode '~') .alone ⟨10, 11⟩, .ident (word ['x']) ⟨11, 12⟩,
    .group .square [.ident (word ['N']) ⟨13, 14⟩] ⟨12, 15⟩]

def brokenChainsSegments : List Segment :=
  [.chain (word ['a']) ⟨0, 1⟩ [⟨.alone, ⟨1, 2⟩, word ['N'], ⟨2, 3⟩⟩],
    .other (.punct (charCode '~') .alone ⟨3, 4⟩) (by simp),
    .other (.literal .int (word ['1']) ⟨4, 5⟩) (by simp),
    .other (.punct (charCode '~') .alone ⟨6, 7⟩) (by simp), .chain (word ['N']) ⟨7, 8⟩ [],
    .chain (word ['N']) ⟨9, 10⟩ [⟨.alone, ⟨10, 11⟩, word ['x'], ⟨11, 12⟩⟩],
    .other (.group .square [.ident (word ['N']) ⟨13, 14⟩] ⟨12, 15⟩) (by simp)]

theorem brokenChains_copied :
    brokenChains.SplitsInto (charCode '~') brokenChainsSegments ∧
      Stream.substitute (charCode '~') ⟨word ['N'], 18⟩ brokenChains =
        [.ident (word ['a', '1', '8']) ⟨0, 1⟩, .punct (charCode '~') .alone ⟨3, 4⟩,
          .literal .int (word ['1']) ⟨4, 5⟩, .punct (charCode '~') .alone ⟨6, 7⟩,
          .literal .int (word ['1', '8']) ⟨7, 8⟩, .ident (word ['N', 'x']) ⟨9, 10⟩,
          .group .square [.literal .int (word ['1', '8']) ⟨13, 14⟩] ⟨12, 15⟩] := by
  have splits : brokenChains.SplitsInto (charCode '~') brokenChainsSegments :=
    .chain id (.other _ <| .other _ <| .other _ <| .chain id (.chain id (.other _ .nil)
      _ _ [⟨.alone, ⟨10, 11⟩, word ['x'], ⟨11, 12⟩⟩]) _ _ [])
      _ _ [⟨.alone, ⟨1, 2⟩, word ['N'], ⟨2, 3⟩⟩]
  obtain ⟨-, copied, -⟩ :=
    substitution_copies_segments (charCode '~') ⟨word ['N'], 18⟩ brokenChains
  refine ⟨splits, ?_⟩
  rw [copied _ splits]
  with_unfolding_all rfl

end Unroll
