import Unroll.Proofs.Forests

set_option autoImplicit false

/-!
# Outlines show the nesting

The items of a stream list the forest of its labels, so the outline that is drawn of them is that of
the stream: below the title a line for each node, each in front of the nodes it holds.
-/

namespace Unroll

mutual

def Node.preorder : Node → List Node
  | .group delimiter children span => .group delimiter children span :: Stream.preorder children
  | node => [node]

/-- The nodes on all levels, each in front of those it holds. -/
def Stream.preorder : Stream → List Node
  | [] => []
  | node :: rest => node.preorder ++ Stream.preorder rest

end

/-- A group has brackets to write. -/
def Node.HasBrackets : Node → Prop
  | .group delimiter _ _ => ∃ bracket, delimiter = .bracket bracket
  | _ => True

mutual

theorem Node.missingBrackets?_of_hasBrackets (node : Node)
    (bracketed : ∀ own ∈ node.preorder, own.HasBrackets) : node.missingBrackets? = none := by
  cases node with
  | ident | literal | punct => rfl
  | group delimiter children span =>
    obtain ⟨⟨bracket, rfl⟩, inside⟩ := List.forall_mem_cons.mp bracketed
    rw [Node.missingBrackets?]
    exact Stream.missingBrackets?_of_hasBrackets children inside

theorem Stream.missingBrackets?_of_hasBrackets (stream : Stream)
    (bracketed : ∀ own ∈ stream.preorder, own.HasBrackets) :
    Stream.missingBrackets? stream = none := by
  cases stream with
  | nil => rfl
  | cons node rest =>
    obtain ⟨inNode, inRest⟩ := List.forall_mem_append.mp bracketed
    rw [Stream.missingBrackets?, node.missingBrackets?_of_hasBrackets inNode]
    exact Stream.missingBrackets?_of_hasBrackets rest inRest

end

namespace Outline

mutual

def ofNode : Node → Labelled
  | .group delimiter children span =>
    .node (label (.group delimiter children span)) (ofStream children)
  | node => .node (label node) []

/-- The labels of a stream with the nesting of its nodes. -/
def ofStream : Stream → List Labelled
  | [] => []
  | node :: rest => ofNode node :: ofStream rest

end

mutual

theorem innerItems_eq (level : Nat) (node : Node) (behind : List Item) :
    ⟨level, label node⟩ :: innerItems level node behind =
      treeItems level (ofNode node) ++ behind := by
  cases node with
  | ident | literal | punct => rfl
  | group delimiter children span =>
    rw [innerItems, items_eq (level + 1) children behind]
    rfl

/-- The items of a stream list the forest of its labels. -/
theorem items_eq (level : Nat) (stream : Stream) (behind : List Item) :
    items level stream behind = forestItems level (ofStream stream) ++ behind := by
  cases stream with
  | nil => rfl
  | cons node rest =>
    rw [items, items_eq level rest behind, innerItems_eq level node, ← List.append_assoc]
    rfl

end

mutual

theorem treeItems_label (level : Nat) (node : Node) :
    (treeItems level (ofNode node)).map Item.label = node.preorder.map label := by
  cases node with
  | ident | literal | punct => rfl
  | group delimiter children span =>
    rw [ofNode, treeItems, List.map_cons, forestItems_label (level + 1) children]
    rfl

theorem forestItems_label (level : Nat) (stream : Stream) :
    (forestItems level (ofStream stream)).map Item.label = stream.preorder.map label := by
  cases stream with
  | nil => rfl
  | cons node rest =>
    rw [ofStream, forestItems, List.map_append, treeItems_label level node,
      forestItems_label level rest, Stream.preorder, List.map_append]

end

/-! The lines of an outline. -/

/-- For each level above, a bar or two blanks. -/
inductive IsIndentation : Nat → Bytes → Prop
  | top : IsIndentation 0 []
  | deeper {level : Nat} {indentation : Bytes} (outer : IsIndentation level indentation)
      (isLast : Bool) :
      IsIndentation (level + 1) (indentation ++ utf8 (if isLast then "  " else "│ "))

/-- The line of an item: its indentation, a branch, and its label. -/
def IsLine (item : Item) (line : Bytes) : Prop :=
  ∃ indentation, IsIndentation item.level indentation ∧ ∃ isLast isLeaf : Bool,
    line = indentation ++ utf8 (if isLast then "└" else "├") ++
      utf8 (if isLeaf then "──" else "─┬") ++ item.label

def ended (line : Bytes) : Bytes := line ++ [Bytes.newline]

mutual

theorem exists_lines_drawTree {level : Nat} {indentation : Bytes}
    (indented : IsIndentation level indentation) (isLast : Bool) (tree : Labelled) (text : Bytes) :
    ∃ lines, drawTree indentation isLast tree text = lines.flatMap ended ++ text ∧
      List.Forall₂ IsLine (treeItems level tree) lines := by
  obtain ⟨label, children⟩ := tree
  obtain ⟨lines, drawn, areLines⟩ := exists_lines_drawForest (indented.deeper isLast) children text
  refine ⟨_ :: lines, ?_, .cons ⟨indentation, indented, isLast, children.isEmpty, rfl⟩ areLines⟩
  rw [drawTree, drawn]
  simp [ended]

theorem exists_lines_drawForest {level : Nat} {indentation : Bytes}
    (indented : IsIndentation level indentation) (trees : List Labelled) (text : Bytes) :
    ∃ lines, drawForest indentation trees text = lines.flatMap ended ++ text ∧
      List.Forall₂ IsLine (forestItems level trees) lines := by
  cases trees with
  | nil => exact ⟨[], rfl, .nil⟩
  | cons tree rest =>
    obtain ⟨later, drawnLater, areLater⟩ := exists_lines_drawForest indented rest text
    obtain ⟨lines, drawn, areLines⟩ :=
      exists_lines_drawTree indented rest.isEmpty tree (later.flatMap ended ++ text)
    refine ⟨lines ++ later, ?_, List.rel_append areLines areLater⟩
    rw [drawForest, drawnLater, drawn, List.flatMap_append, List.append_assoc]

end

theorem IsIndentation.newline_not_mem {level : Nat} {indentation : Bytes}
    (indented : IsIndentation level indentation) : Bytes.newline ∉ indentation := by
  induction indented with
  | top => exact List.not_mem_nil
  | deeper _ isLast inOuter =>
    have noNewline : Bytes.newline ∉ utf8 (if isLast then "  " else "│ ") := by
      cases isLast <;> with_unfolding_all decide
    simp [inOuter, noNewline]

theorem IsLine.newline_not_mem {item : Item} {line : Bytes} (isLine : IsLine item line)
    (inLabel : Bytes.newline ∉ item.label) : Bytes.newline ∉ line := by
  obtain ⟨indentation, indented, isLast, isLeaf, rfl⟩ := isLine
  have noCorner : Bytes.newline ∉ utf8 (if isLast then "└" else "├") := by
    cases isLast <;> with_unfolding_all decide
  have noStem : Bytes.newline ∉ utf8 (if isLeaf then "──" else "─┬") := by
    cases isLeaf <;> with_unfolding_all decide
  simp [indented.newline_not_mem, noCorner, noStem, inLabel]

theorem exists_item_of_mem_lines {list : List Item} {lines : List Bytes}
    (areLines : List.Forall₂ IsLine list lines) {line : Bytes} (membership : line ∈ lines) :
    ∃ item ∈ list, IsLine item line := by
  induction areLines with
  | nil => cases membership
  | @cons item own list lines isLine _ inductionHypothesis =>
    rcases List.mem_cons.mp membership with rfl | inRest
    · exact ⟨item, List.mem_cons_self, isLine⟩
    · obtain ⟨other, inList, isOther⟩ := inductionHypothesis inRest
      exact ⟨other, List.mem_cons_of_mem _ inList, isOther⟩

end Outline

open Outline

/-- The items of a stream with brackets are its nodes in preorder, they start at level zero and go
down one level at a time, and from their levels alone the forest of the stream is built again: the
nodes directly below another one are those for which it is the nearest earlier item with a smaller
level. Its outline is a title and a line for each item, if no label breaks its line. -/
theorem outline_shows_nesting (stream : Stream) (nonempty : stream ≠ [])
    (bracketed : ∀ node ∈ stream.preorder, node.HasBrackets) (title : Bytes) :
    let list := items 0 stream []
    list.map Item.label = stream.preorder.map label ∧
      list.head?.map Item.level = some 0 ∧
      list.IsChain (fun item next => next.level ≤ item.level + 1) ∧
      forest list = ofStream stream ∧
      (∀ parent child, (parent, child) ∈ forestEdges 0 (ofStream stream) ↔
        IsParent list parent child) ∧
      ∃ lines, stream.outline title = .ok (ended title ++ lines.flatMap ended) ∧
        List.Forall₂ IsLine list lines ∧
        ((∀ node ∈ stream.preorder, Bytes.newline ∉ label node) →
          ∀ line ∈ lines, Bytes.newline ∉ line) := by
  intro list
  have isListing : list = forestItems 0 (ofStream stream) :=
    (items_eq 0 stream []).trans (List.append_nil _)
  have labels : list.map Item.label = stream.preorder.map label := by
    rw [isListing, forestItems_label]
  have rebuilt : forest list = ofStream stream := by
    rw [isListing, forest_forestItems]
  refine ⟨labels, ?_, ?_, rebuilt, ?_, ?_⟩
  · cases stream with
    | nil => exact absurd rfl nonempty
    | cons node rest => rfl
  · rw [isListing]
    exact isChain_forestItems 0 _
  · intro parent child
    rw [← rebuilt, mem_forestEdges_forest_iff]
    simp
  · obtain ⟨lines, drawn, areLines⟩ := exists_lines_drawForest .top (ofStream stream) []
    rw [← isListing] at areLines
    refine ⟨lines, ?_, areLines, ?_⟩
    · have isEmpty : stream.isEmpty = false := by simpa using nonempty
      simp only [Stream.outline, stream.missingBrackets?_of_hasBrackets bracketed, isEmpty]
      rw [rebuilt, drawn, List.append_nil]
      rfl
    · intro inLabels line membership
      obtain ⟨item, inList, isLine⟩ := exists_item_of_mem_lines areLines membership
      apply isLine.newline_not_mem
      have inPreorder : item.label ∈ stream.preorder.map label := by
        rw [← labels]
        exact List.mem_map_of_mem inList
      obtain ⟨node, isNode, isLabel⟩ := List.mem_map.mp inPreorder
      rw [← isLabel]
      exact inLabels node isNode

/-- Two groups inside each other, an empty group and a name, `([1]){} x`. -/
def steppedGroups : Stream :=
  [.group .round [.group .square [.literal .int (word ['1']) ⟨2, 3⟩] ⟨1, 4⟩] ⟨0, 5⟩,
    .group .curly [] ⟨5, 7⟩, .ident (word ['x']) ⟨8, 9⟩]

theorem steppedGroups_shown :
    steppedGroups ≠ [] ∧ (∀ node ∈ steppedGroups.preorder, node.HasBrackets) ∧
      (items 0 steppedGroups []).map Item.level = [0, 1, 2, 0, 0] ∧
      forest (items 0 steppedGroups []) = ofStream steppedGroups ∧
      forestEdges 0 (ofStream steppedGroups) = [(0, 1), (1, 2)] ∧
      ∃ lines : List Bytes, lines.length = 5 ∧
        steppedGroups.outline (word ['t']) = .ok (word ['t', '\n'] ++ lines.flatMap ended) := by
  have nonempty : steppedGroups ≠ [] := List.cons_ne_nil _ _
  have bracketed : ∀ node ∈ steppedGroups.preorder, node.HasBrackets := by
    simp [steppedGroups, Stream.preorder, Node.preorder, Node.HasBrackets]
  obtain ⟨-, -, -, rebuilt, -, lines, drawn, areLines, -⟩ :=
    outline_shows_nesting steppedGroups nonempty bracketed (word ['t'])
  exact ⟨nonempty, bracketed, rfl, rebuilt, rfl, lines, areLines.length_eq.symm, drawn⟩

end Unroll
