import Unroll.Proofs.DepthLimits

set_option autoImplicit false

/-!
# Seams

The output of an invocation is spliced on its own before it is inserted, so nothing looks across the
seam in front of it and the seam behind it. What splicing leaves of invocations stands across a
seam: a name at the end of an output and the mark behind it, or a name and a mark that come to stand
in front of a group because an output between them is empty. Where nothing stands across a seam,
nothing is left to splice.
-/

namespace Unroll

/-- Where nodes stand in a stream: how many stand in front of them on their level, and for each
group around them, from the outermost on, how many stand in front of it. -/
inductive Place where
  | here (offset : Nat)
  | inside (index : Nat) (below : Place)

/-- The same place behind so many more nodes. -/
def Place.shift (count : Nat) : Place → Place
  | .here offset => .here (count + offset)
  | .inside index below => .inside (count + index) below

theorem Place.shift_shift (count more : Nat) (place : Place) :
    (place.shift count).shift more = place.shift (more + count) := by
  cases place with
  | here offset => exact congrArg Place.here (Nat.add_assoc _ _ _).symm
  | inside index below => exact congrArg (Place.inside · below) (Nat.add_assoc _ _ _).symm

theorem Place.shift_zero (place : Place) : place.shift 0 = place := by
  cases place <;> simp [Place.shift]

namespace Stream

/-- The nodes stand in a row at this place. -/
inductive RowAt (row : List Node) : Stream → Place → Prop
  | here {stream : Stream} (before behind : Stream) (split : stream = before ++ (row ++ behind)) :
      RowAt row stream (.here before.length)
  | inside {stream children : Stream} {delimiter : Delimiter} {span : Span} {place : Place}
      (before behind : Stream) (split : stream = before ++ .group delimiter children span :: behind)
      (below : RowAt row children place) : RowAt row stream (.inside before.length place)

variable {row : List Node} {place : Place}

/-- Nodes of a shape are held exactly if some stand at some place. -/
theorem holds_iff_exists_rowAt (shape : List Node → Prop) (stream : Stream) :
    Holds shape stream ↔ ∃ row place, shape row ∧ RowAt row stream place := by
  constructor
  · rintro ⟨level, isLevel, row, shaped, before, behind, isInfix⟩
    induction isLevel with
    | top => exact ⟨row, _, shaped, .here before behind (by rw [← isInfix, List.append_assoc])⟩
    | inside membership below inChildren =>
      obtain ⟨row, place, shaped, rowAt⟩ := inChildren isInfix
      obtain ⟨front, back, split⟩ := List.append_of_mem membership
      exact ⟨row, _, shaped, .inside front back split rowAt⟩
  · rintro ⟨row, place, shaped, rowAt⟩
    induction rowAt with
    | here before behind split =>
      exact ⟨_, .top _, row, shaped, before, behind, by rw [split, List.append_assoc]⟩
    | inside before behind split below inChildren =>
      subst split
      exact .of_children (List.mem_append_right before List.mem_cons_self) inChildren

theorem RowAt.append {stream : Stream} (rowAt : RowAt row stream place) (back : Stream) :
    RowAt row (stream ++ back) place := by
  cases rowAt with
  | here before behind split =>
    exact .here before (behind ++ back) (by simp only [split, List.append_assoc])
  | inside before behind split below =>
    exact .inside before (behind ++ back) (by rw [split, List.append_assoc, List.cons_append]) below

theorem RowAt.shift {stream : Stream} (rowAt : RowAt row stream place) (front : Stream) :
    RowAt row (front ++ stream) (place.shift front.length) := by
  cases rowAt with
  | here before behind split =>
    rw [Place.shift, ← List.length_append]
    exact .here (front ++ before) behind (by rw [split, List.append_assoc])
  | inside before behind split below =>
    rw [Place.shift, ← List.length_append]
    exact .inside (front ++ before) behind (by rw [split, List.append_assoc]) below

/-- Nodes in a row stand at the front, in the first node, or behind it. -/
theorem RowAt.of_cons {node : Node} {rest : Stream} (rowAt : RowAt row (node :: rest) place) :
    (place = .here 0 ∧ row <+: node :: rest) ∨
      (∃ delimiter children span below, node = .group delimiter children span ∧
        place = .inside 0 below ∧ RowAt row children below) ∨
      ∃ later, place = later.shift 1 ∧ RowAt row rest later := by
  cases rowAt with
  | here before behind split =>
    cases before with
    | nil => exact .inl ⟨rfl, behind, split.symm⟩
    | cons first before =>
      refine .inr (.inr ⟨.here before.length, ?_, .here before behind (List.cons.inj split).2⟩)
      rw [Place.shift, List.length_cons, Nat.add_comm]
  | @inside _ children delimiter span below before behind split inChildren =>
    cases before with
    | nil =>
      have isGroup := (List.cons.inj split).1
      exact .inr (.inl ⟨delimiter, children, span, below, isGroup, rfl, inChildren⟩)
    | cons first before =>
      have isRest := (List.cons.inj split).2
      refine .inr (.inr ⟨.inside before.length below, ?_, .inside before behind isRest inChildren⟩)
      rw [Place.shift, List.length_cons, Nat.add_comm]

/-- A row in two streams one behind the other lies in one of them or crosses from one to the
other. -/
theorem RowAt.of_append {front back : Stream} (rowAt : RowAt row (front ++ back) place) :
    RowAt row front place ∨ (∃ later, place = later.shift front.length ∧ RowAt row back later) ∨
      ∃ before left right, left ≠ [] ∧ right ≠ [] ∧ row = left ++ right ∧ front = before ++ left ∧
        right <+: back ∧ place = .here before.length := by
  induction front generalizing place with
  | nil =>
    exact .inr (.inl ⟨place, place.shift_zero.symm, rowAt⟩)
  | cons node front inductionHypothesis =>
    rcases rowAt.of_cons with ⟨rfl, isPrefix⟩ | ⟨_, _, _, below, rfl, rfl, inChildren⟩ |
      ⟨later, rfl, inRest⟩
    · rcases List.prefix_or_prefix_of_prefix isPrefix (List.prefix_append (node :: front) back) with
        ⟨behind, isFront⟩ | ⟨right, rfl⟩
      · exact .inl (.here [] behind isFront.symm)
      · have atRight := (List.prefix_append_right_inj (node :: front)).mp isPrefix
        by_cases hasRight : right = []
        · subst hasRight
          exact .inl (.here [] [] (by simp))
        · exact .inr (.inr ⟨[], node :: front, right, List.cons_ne_nil _ _, hasRight, rfl, rfl,
            atRight, rfl⟩)
    · exact .inl (.inside [] front rfl inChildren)
    · rcases inductionHypothesis inRest with inFront | ⟨last, rfl, inBack⟩ |
        ⟨before, left, right, hasLeft, hasRight, isRow, rfl, atRight, rfl⟩
      · exact .inl (inFront.shift [node])
      · refine .inr (.inl ⟨last, ?_, inBack⟩)
        rw [Place.shift_shift, List.length_cons, Nat.add_comm]
      · refine .inr (.inr ⟨node :: before, left, right, hasLeft, hasRight, isRow, rfl, atRight, ?_⟩)
        rw [Place.shift, List.length_cons, Nat.add_comm]

end Stream

namespace Patchwork

/-- An insertion begins or ends here. -/
def Seam (before behind : Patchwork) : Prop :=
  (∃ inner front, before = front ++ [.insertion inner]) ∨
    ∃ inner rest, behind = .insertion inner :: rest

/-- Nodes in a row end in front of a seam with some of them and begin behind it with the others. The
place is the one that they have in the stream. -/
inductive StraddlesAt (row : List Node) : Patchwork → Place → Prop
  | across {patches : Patchwork} {left right : List Node} (before behind : Patchwork)
      (split : patches = before ++ behind) (seam : Seam before behind) (front : List Node)
      (hasLeft : left ≠ []) (hasRight : right ≠ []) (isRow : row = left ++ right)
      (atLeft : Patchwork.nodes before = front ++ left)
      (atRight : right <+: Patchwork.nodes behind) : StraddlesAt row patches (.here front.length)
  | inGroup {patches children : Patchwork} {delimiter : Delimiter} {span : Span} {place : Place}
      (before behind : Patchwork)
      (split : patches = before ++ .group delimiter children span :: behind)
      (below : StraddlesAt row children place) :
      StraddlesAt row patches (.inside (Patchwork.nodes before).length place)
  | inInsertion {patches inner : Patchwork} {place : Place} (before behind : Patchwork)
      (split : patches = before ++ .insertion inner :: behind)
      (below : StraddlesAt row inner place) :
      StraddlesAt row patches (place.shift (Patchwork.nodes before).length)

theorem nodes_append (front back : Patchwork) :
    Patchwork.nodes (front ++ back) = Patchwork.nodes front ++ Patchwork.nodes back := by
  induction front with
  | nil => rfl
  | cons patch front inductionHypothesis =>
    rw [List.cons_append, Patchwork.nodes, Patchwork.nodes, inductionHypothesis, List.append_assoc]

variable {patches rest : Patchwork} {row : List Node} {place : Place}

theorem Seam.cons {before behind : Patchwork} (seam : Seam before behind) (patch : Patch) :
    Seam (patch :: before) behind := by
  rcases seam with ⟨inner, front, rfl⟩ | begins
  · exact .inl ⟨inner, patch :: front, rfl⟩
  · exact .inr begins

theorem StraddlesAt.cons (straddles : StraddlesAt row rest place) (patch : Patch) :
    StraddlesAt row (patch :: rest) (place.shift patch.nodes.length) := by
  cases straddles with
  | across before behind split seam front hasLeft hasRight isRow atLeft atRight =>
    rw [Place.shift, ← List.length_append]
    refine .across (patch :: before) behind (by rw [split, List.cons_append]) (seam.cons patch)
      (patch.nodes ++ front) hasLeft hasRight isRow ?_ atRight
    rw [Patchwork.nodes, atLeft, List.append_assoc]
  | inGroup before behind split below =>
    rw [Place.shift, ← List.length_append]
    exact .inGroup (patch :: before) behind (by rw [split, List.cons_append]) below
  | inInsertion before behind split below =>
    rw [Place.shift_shift, ← List.length_append]
    exact .inInsertion (patch :: before) behind (by rw [split, List.cons_append]) below

/-- What stands across a seam stands in the stream, at the same place. -/
theorem StraddlesAt.rowAt (straddles : StraddlesAt row patches place) :
    Stream.RowAt row (Patchwork.nodes patches) place := by
  induction straddles with
  | across before behind split seam front hasLeft hasRight isRow atLeft atRight =>
    obtain ⟨back, isBehind⟩ := atRight
    refine .here front back ?_
    rw [split, nodes_append, atLeft, ← isBehind, isRow]
    simp only [List.append_assoc]
  | inGroup before behind split below inChildren =>
    rw [split, nodes_append]
    exact .inside (Patchwork.nodes before) (Patchwork.nodes behind) rfl inChildren
  | inInsertion before behind split below inInner =>
    rw [split, nodes_append]
    exact (inInner.append _).shift _

end Patchwork

namespace Stream

variable {table : Generators} {levels : Nat} {stream : Stream} {patches : Patchwork}
  {call : List Node} {place : Place}

/-- A name that was kept and opened no invocation has a seam behind it, or behind the mark that
follows it, if a mark and a group come to stand behind it. -/
theorem Splices.straddlesAt_of_opens {node : Node} {rest : Stream} (isLeaf : node.IsLeaf)
    (noInvocation : ¬ Opens (IsInvocation table) (node :: rest))
    (behind : Splices table levels rest patches) (isInvocation : IsInvocation table call)
    (opens : call <+: node :: Patchwork.nodes patches) :
    Patchwork.StraddlesAt call (.leaf node :: patches) (.here 0) := by
  obtain ⟨name, generator, registered, nameSpan, spacing, markSpan, _, _, _, rfl⟩ :=
    (isInvocation_iff _ _).mp isInvocation
  obtain ⟨rfl, markNext⟩ := List.cons_prefix_cons.mp opens
  cases behind with
  | nil => cases List.prefix_nil.mp markNext
  | group => cases (List.cons_prefix_cons.mp markNext).1
  | @invocation _ _ _ _ _ _ _ inner patches =>
    exact .across [.leaf _] (.insertion inner :: patches) rfl (.inr ⟨inner, patches, rfl⟩) []
      (List.cons_ne_nil _ _) (List.cons_ne_nil _ _) rfl rfl markNext
  | leaf _ _ behind =>
    obtain ⟨rfl, groupNext⟩ := List.cons_prefix_cons.mp markNext
    cases behind with
    | nil => cases List.prefix_nil.mp groupNext
    | leaf isLeaf =>
      obtain ⟨rfl, -⟩ := List.cons_prefix_cons.mp groupNext
      cases isLeaf
    | @group _ delimiter children rest span =>
      have isCall := (isInvocation_iff table _).mpr ⟨name, generator, registered, nameSpan,
        spacing, markSpan, delimiter, children, span, rfl⟩
      exact absurd ⟨_, isCall, List.prefix_append _ rest⟩ noInvocation
    | @invocation _ _ _ _ _ _ _ inner patches =>
      exact .across [.leaf _, .leaf _] (.insertion inner :: patches) rfl
        (.inr ⟨inner, patches, rfl⟩) [] (List.cons_ne_nil _ _) (List.cons_ne_nil _ _) rfl rfl
        groupNext

/-- No invocation stands in what a run gives but across a seam. -/
theorem Splices.straddlesAt_of_rowAt (splices : Splices table levels stream patches)
    (isInvocation : IsInvocation table call)
    (rowAt : RowAt call (Patchwork.nodes patches) place) :
    Patchwork.StraddlesAt call patches place := by
  induction splices generalizing place with
  | nil =>
    have holds := (holds_iff_exists_rowAt _ []).mpr ⟨call, place, isInvocation, rowAt⟩
    cases holds_nil_iff.mp holds
  | leaf isLeaf noInvocation behind behindStraddles =>
    rcases rowAt.of_cons with ⟨rfl, isPrefix⟩ | ⟨_, _, _, _, rfl, -, -⟩ | ⟨later, rfl, inRest⟩
    · exact behind.straddlesAt_of_opens isLeaf noInvocation isInvocation isPrefix
    · cases isLeaf
    · exact (behindStraddles inRest).cons _
  | group inside behind insideStraddles behindStraddles =>
    rcases rowAt.of_cons with ⟨rfl, isPrefix⟩ | ⟨_, _, _, below, isGroup, rfl, inChildren⟩ |
      ⟨later, rfl, inRest⟩
    · exact absurd ⟨_, isInvocation, isPrefix⟩ (not_opens_invocation_group _ _ _ _)
    · cases isGroup
      exact .inGroup [] _ rfl (insideStraddles inChildren)
    · exact (behindStraddles inRest).cons _
  | @invocation _ _ _ _ _ _ _ inner patches found generates output behind outputStraddles
      behindStraddles =>
    rcases rowAt.of_append with inOutput | ⟨later, rfl, inRest⟩ |
      ⟨front, left, right, hasLeft, hasRight, isRow, atLeft, atRight, rfl⟩
    · -- The output begins where its insertion does, so its places need no shift.
      have straddles := outputStraddles inOutput
      have inInsertion := Patchwork.StraddlesAt.inInsertion [] patches rfl straddles
      rwa [Patchwork.nodes, List.length_nil, Place.shift_zero] at inInsertion
    · exact (behindStraddles inRest).cons _
    · refine .across [.insertion inner] patches rfl (.inl ⟨inner, [], rfl⟩) front hasLeft hasRight
        isRow ?_ atRight
      rwa [Patchwork.nodes, Patchwork.nodes, List.append_nil]

/-- A stream stays as it is under every limit exactly if it holds no invocation. -/
theorem splice_eq_self_iff (table : Generators) (stream : Stream) :
    (∀ limit, stream.splice table limit = .ok stream) ↔ ¬ stream.Holds (IsInvocation table) := by
  constructor
  · intro unchanged
    exact (splice_no_level_iff (Int.le_refl 0)).mp ⟨stream, unchanged 0⟩
  · intro notHolds limit
    exact spliceLevels_of_not_holds notHolds limit limit.toNat

end Stream

/-- Three nodes that make an invocation stand at a place of what splicing gives exactly if they
stand across a seam there. Splicing it again, whatever the limit, changes nothing exactly if none
do. -/
theorem leftovers_straddle_seams (table : Generators) (limit : Int) (stream out : Stream)
    (spliced : stream.splice table limit = .ok out) :
    ∃ patches, stream.Splices table limit.toNat patches ∧ Patchwork.nodes patches = out ∧
      (∀ call, IsInvocation table call →
        (∀ place, out.RowAt call place ↔ patches.StraddlesAt call place) ∧
          (out.Holds (· = call) ↔ ∃ place, patches.StraddlesAt call place)) ∧
      ((∀ again, out.splice table again = .ok out) ↔
        ∀ call place, IsInvocation table call → ¬ patches.StraddlesAt call place) := by
  obtain ⟨patches, splices, rfl⟩ := (Stream.splice_eq_ok_iff limit out).mp spliced
  have rowAt_iff {call : List Node} (isInvocation : IsInvocation table call) (place : Place) :
      Stream.RowAt call (Patchwork.nodes patches) place ↔ patches.StraddlesAt call place :=
    ⟨splices.straddlesAt_of_rowAt isInvocation, Patchwork.StraddlesAt.rowAt⟩
  refine ⟨patches, splices, rfl, fun call isInvocation => ⟨rowAt_iff isInvocation, ?_⟩, ?_⟩
  · rw [Stream.holds_iff_exists_rowAt]
    simp [rowAt_iff isInvocation]
  · rw [Stream.splice_eq_self_iff, Stream.holds_iff_exists_rowAt]
    simp only [not_exists, not_and]
    refine forall_congr' fun call => forall_congr' fun place => forall_congr' fun isInvocation => ?_
    exact not_congr (rowAt_iff isInvocation place)

/-- An invocation that gives the name of its own generator, in front of a mark and a group. -/
def nameAtSeam : Stream :=
  [.ident (word ['s', 'e', 'q']) ⟨0, 3⟩, .punct (charCode '!') .alone ⟨3, 4⟩,
    .group .round
      [.ident (word ['N']) ⟨5, 6⟩, .ident (word ['i', 'n']) ⟨7, 9⟩,
        .literal .int (word ['0']) ⟨10, 11⟩, .punct (charCode '.') .joint ⟨11, 12⟩,
        .punct (charCode '.') .alone ⟨12, 13⟩, .literal .int (word ['1']) ⟨13, 14⟩,
        .group .curly [.ident (word ['s', 'e', 'q']) ⟨17, 20⟩] ⟨15, 22⟩] ⟨4, 23⟩,
    .punct (charCode '!') .alone ⟨24, 25⟩, .group .round [.ident (word ['x']) ⟨27, 28⟩] ⟨26, 29⟩]

def nameAtSeamSpliced : Stream :=
  [.ident (word ['s', 'e', 'q']) ⟨17, 20⟩, .punct (charCode '!') .alone ⟨24, 25⟩,
    .group .round [.ident (word ['x']) ⟨27, 28⟩] ⟨26, 29⟩]

/-- The result is an invocation, and splicing it again fails. -/
theorem nameAtSeam_not_settled :
    let table : Generators := [(word ['s', 'e', 'q'], Stream.expand {})]
    nameAtSeam.splice table 64 = .ok nameAtSeamSpliced ∧
      nameAtSeamSpliced.Holds (IsInvocation table) ∧
      nameAtSeamSpliced.splice table 64 = .error (.diagnosed ⟨27, 28⟩ .missingBody) := by
  intro table
  have holds : nameAtSeamSpliced.Holds (IsInvocation table) :=
    ⟨_, .top _, nameAtSeamSpliced, ⟨rfl, rfl⟩, List.infix_refl _⟩
  have spliced : nameAtSeam.splice table 64 = .ok nameAtSeamSpliced := by with_unfolding_all rfl
  exact ⟨spliced, holds, by with_unfolding_all rfl⟩

theorem nameAtSeam_straddles :
    let table : Generators := [(word ['s', 'e', 'q'], Stream.expand {})]
    nameAtSeam.splice table 64 = .ok nameAtSeamSpliced ∧
      ∃ patches, nameAtSeam.Splices table 64 patches ∧
        Patchwork.nodes patches = nameAtSeamSpliced ∧
        patches.StraddlesAt nameAtSeamSpliced (.here 0) := by
  intro table
  have spliced : nameAtSeam.splice table 64 = .ok nameAtSeamSpliced := by with_unfolding_all rfl
  obtain ⟨patches, splices, isOut, leftovers, -⟩ :=
    leftovers_straddle_seams table 64 nameAtSeam nameAtSeamSpliced spliced
  obtain ⟨rowAt_iff, -⟩ := leftovers nameAtSeamSpliced ⟨rfl, rfl⟩
  exact ⟨spliced, patches, splices, isOut, (rowAt_iff (.here 0)).mp (.here [] [] rfl)⟩

end Unroll
