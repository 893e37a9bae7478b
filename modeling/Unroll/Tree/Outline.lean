import Unroll.Tree.Layout

set_option autoImplicit false

/-!
# Outlines

A stream drawn as a tree, one line for each node. The nodes are listed with their levels first. The
levels alone give the nesting back: every item is a child of the nearest earlier item with a smaller
level.
-/

namespace Unroll.Outline

/-- The label of a node. That of a delimiter without brackets shows none. -/
def label : Node → Bytes
  | .ident name _ => utf8 "ident " ++ name
  | .literal kind raw _ => utf8 "literal " ++ raw ++ utf8 " (" ++ kind.name ++ utf8 ")"
  | .punct char .alone _ => utf8 "punct " ++ Utf8.encode char.toInt
  | .punct char .joint _ => utf8 "punct " ++ Utf8.encode char.toInt ++ utf8 " (joint)"
  | .group (.bracket kind) _ _ => utf8 "group " ++ [kind.opener] ++ utf8 "…" ++ [kind.closer]
  | .group (.unknown _) _ _ => utf8 "group …"

/-- A label and how deep it stands. -/
structure Item where
  level : Nat
  label : Bytes
  deriving DecidableEq, Repr

mutual

/-- Puts the items of what a node holds in front of others. -/
def innerItems (level : Nat) : Node → List Item → List Item
  | .group _ children _, behind => items (level + 1) children behind
  | _, behind => behind

/-- Puts the items of a stream in front of others, each node in front of what it holds. -/
def items (level : Nat) : List Node → List Item → List Item
  | [], behind => behind
  | node :: rest, behind =>
    ⟨level, label node⟩ :: innerItems level node (items level rest behind)

end

/-- Labels with the nesting of a tree. -/
inductive Labelled where
  | node (label : Bytes) (children : List Labelled)

/-- The forest of a list of items. -/
def forest (list : List Item) : List Labelled :=
  match list with
  | [] => []
  | item :: rest =>
    .node item.label (forest (rest.takeWhile (item.level < ·.level))) ::
      forest (rest.dropWhile (item.level < ·.level))
termination_by list.length
decreasing_by
  · exact Nat.lt_succ_of_le (List.takeWhile_sublist _).length_le
  · exact Nat.lt_succ_of_le (List.dropWhile_sublist _).length_le

mutual

/-- Writes the lines of a tree behind an indentation in front of a text. -/
def drawTree (indentation : Bytes) (isLast : Bool) : Labelled → Bytes → Bytes
  | .node label children, text =>
    indentation ++ utf8 (if isLast then "└" else "├") ++
      utf8 (if children.isEmpty then "──" else "─┬") ++ label ++ [Bytes.newline] ++
      drawForest (indentation ++ utf8 (if isLast then "  " else "│ ")) children text

def drawForest (indentation : Bytes) : List Labelled → Bytes → Bytes
  | [], text => text
  | tree :: rest, text =>
    drawTree indentation rest.isEmpty tree (drawForest indentation rest text)

end

end Unroll.Outline

namespace Unroll

/-- A title and the outline of a stream under it. -/
def Stream.outline (title : Bytes) (stream : Stream) : Except MissingBrackets Bytes :=
  match Stream.missingBrackets? stream with
  | some missing => .error missing
  | none =>
    if stream.isEmpty then .ok (title ++ utf8 "\n(empty)\n")
    else
      .ok (title ++ [Bytes.newline] ++
        Outline.drawForest [] (Outline.forest (Outline.items 0 stream [])) [])

end Unroll
