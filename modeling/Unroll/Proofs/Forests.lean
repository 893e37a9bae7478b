import Mathlib.Data.List.Basic
import Mathlib.Data.List.Chain
import Unroll.Tree.Outline

set_option autoImplicit false

/-!
# Forests and their levels

A list of items is the forest in which each item is a child of the nearest earlier item with a
smaller level. A forest that is listed from the top down, each tree in front of the next one and
each root in front of what is below it, is therefore given back by the levels of its list.
-/

namespace Unroll.Outline

/-! Places in a list. -/

/-- No earlier item has a smaller level. -/
def IsRoot (list : List Item) (index : Nat) : Prop :=
  ∃ own, list[index]? = some own ∧
    ∀ earlier other, earlier < index → list[earlier]? = some other → own.level ≤ other.level

/-- The first one is the nearest earlier item with a smaller level. -/
def IsParent (list : List Item) (parent child : Nat) : Prop :=
  ∃ above own, list[parent]? = some above ∧ list[child]? = some own ∧ parent < child ∧
    above.level < own.level ∧
    ∀ between other, parent < between → between < child → list[between]? = some other →
      own.level ≤ other.level

section

variable {front behind : List Item}

theorem getElem?_front {index : Nat} {own : Item} (isOwn : front[index]? = some own) :
    (front ++ behind)[index]? = some own := by
  rwa [List.getElem?_append_left (List.getElem?_eq_some_iff.mp isOwn).1]

theorem getElem?_behind (index : Nat) :
    (front ++ behind)[front.length + index]? = behind[index]? := by
  rw [List.getElem?_append_right (Nat.le_add_right _ _), Nat.add_sub_cancel_left]

theorem getElem?_append_cases {index : Nat} {own : Item}
    (isOwn : (front ++ behind)[index]? = some own) :
    index < front.length ∧ front[index]? = some own ∨
      ∃ later, index = front.length + later ∧ behind[later]? = some own := by
  by_cases within : index < front.length
  · rw [List.getElem?_append_left within] at isOwn
    exact .inl ⟨within, isOwn⟩
  · obtain ⟨later, rfl⟩ := Nat.exists_eq_add_of_le (Nat.le_of_not_lt within)
    rw [getElem?_behind] at isOwn
    exact .inr ⟨later, rfl, isOwn⟩

variable (ends : ∀ first ∈ behind.head?, ∀ own ∈ front, first.level ≤ own.level)
include ends

/-- A least item of what stands behind is no deeper than all in front. -/
theorem level_le_of_least {index : Nat} {own : Item} (isOwn : behind[index]? = some own)
    (least : ∀ earlier other, earlier < index → behind[earlier]? = some other →
      own.level ≤ other.level) : ∀ other ∈ front, own.level ≤ other.level := by
  rw [List.head?_eq_getElem?] at ends
  by_cases isFirst : index = 0
  · subst isFirst
    exact ends own isOwn
  · have positive : 0 < behind.length :=
      Nat.zero_lt_of_lt (List.getElem?_eq_some_iff.mp isOwn).1
    have isHead := List.getElem?_eq_getElem positive
    intro other membership
    exact Nat.le_trans (least 0 _ (by omega) isHead) (ends _ isHead other membership)

theorem isRoot_append_iff (index : Nat) :
    IsRoot (front ++ behind) index ↔
      IsRoot front index ∨ ∃ later, index = front.length + later ∧ IsRoot behind later := by
  constructor
  · rintro ⟨own, isOwn, least⟩
    rcases getElem?_append_cases isOwn with ⟨-, inFront⟩ | ⟨later, rfl, inBehind⟩
    · exact .inl ⟨own, inFront, fun earlier other before isOther =>
        least earlier other before (getElem?_front isOther)⟩
    · refine .inr ⟨later, rfl, own, inBehind, ?_⟩
      intro earlier other before isOther
      apply least (front.length + earlier) other (by omega)
      rwa [getElem?_behind]
  · rintro (⟨own, isOwn, least⟩ | ⟨later, rfl, own, isOwn, least⟩)
    · have within := (List.getElem?_eq_some_iff.mp isOwn).1
      refine ⟨own, getElem?_front isOwn, ?_⟩
      intro earlier other before isOther
      rw [List.getElem?_append_left (by omega)] at isOther
      exact least earlier other before isOther
    · refine ⟨own, by rwa [getElem?_behind], ?_⟩
      intro earlier other before isOther
      rcases getElem?_append_cases isOther with ⟨-, inFront⟩ | ⟨place, rfl, inBehind⟩
      · exact level_le_of_least ends isOwn least other (List.mem_of_getElem? inFront)
      · exact least place other (by omega) inBehind

theorem isParent_append_iff (parent child : Nat) :
    IsParent (front ++ behind) parent child ↔
      IsParent front parent child ∨ ∃ parent' child', parent = front.length + parent' ∧
        child = front.length + child' ∧ IsParent behind parent' child' := by
  constructor
  · rintro ⟨above, own, isAbove, isOwn, ordered, higher, least⟩
    rcases getElem?_append_cases isOwn with ⟨within, inFront⟩ | ⟨later, rfl, inBehind⟩
    · rw [List.getElem?_append_left (by omega)] at isAbove
      exact .inl ⟨above, own, isAbove, inFront, ordered, higher,
        fun between other behindParent before isOther =>
          least between other behindParent before (getElem?_front isOther)⟩
    · have leastBehind : ∀ between other, parent < front.length + between → between < later →
          behind[between]? = some other → own.level ≤ other.level := by
        intro between other behindParent before isOther
        apply least (front.length + between) other behindParent (by omega)
        rwa [getElem?_behind]
      rcases getElem?_append_cases isAbove with ⟨within, aboveFront⟩ | ⟨place, rfl, aboveBehind⟩
      · -- a parent in front would be no higher than the first item behind
        have bound := level_le_of_least ends inBehind
          (fun earlier other => leastBehind earlier other (by omega)) above
          (List.mem_of_getElem? aboveFront)
        omega
      · exact .inr ⟨place, later, rfl, rfl, above, own, aboveBehind, inBehind, by omega, higher,
          fun between other behindParent => leastBehind between other (by omega)⟩
  · rintro (⟨above, own, isAbove, isOwn, ordered, higher, least⟩ |
      ⟨parent, child, rfl, rfl, above, own, isAbove, isOwn, ordered, higher, least⟩)
    · have within := (List.getElem?_eq_some_iff.mp isOwn).1
      refine ⟨above, own, getElem?_front isAbove, getElem?_front isOwn, ordered, higher, ?_⟩
      intro between other behindParent before isOther
      rw [List.getElem?_append_left (by omega)] at isOther
      exact least between other behindParent before isOther
    · refine ⟨above, own, by rwa [getElem?_behind], by rwa [getElem?_behind], by omega, higher, ?_⟩
      intro between other behindParent before isOther
      obtain ⟨place, rfl⟩ := Nat.exists_eq_add_of_le (show front.length ≤ between by omega)
      rw [getElem?_behind] at isOther
      exact least place other (by omega) (by omega) isOther

end

section

variable {item : Item} {below : List Item} (deeper : ∀ own ∈ below, item.level < own.level)
include deeper

theorem isRoot_cons_iff (index : Nat) : IsRoot (item :: below) index ↔ index = 0 := by
  constructor
  · rintro ⟨own, isOwn, least⟩
    cases index with
    | zero => rfl
    | succ index =>
      have isDeeper := deeper own (List.mem_of_getElem? isOwn)
      have bound := least 0 item (Nat.succ_pos _) rfl
      omega
  · rintro rfl
    exact ⟨item, rfl, fun earlier _ before => absurd before (Nat.not_lt_zero earlier)⟩

theorem isParent_cons_iff (parent child : Nat) :
    IsParent (item :: below) parent child ↔
      (parent = 0 ∧ ∃ root, child = root + 1 ∧ IsRoot below root) ∨
      ∃ parent' child', parent = parent' + 1 ∧ child = child' + 1 ∧
        IsParent below parent' child' := by
  constructor
  · rintro ⟨above, own, isAbove, isOwn, ordered, higher, least⟩
    obtain ⟨child, rfl⟩ := Nat.exists_eq_succ_of_ne_zero (Nat.ne_zero_of_lt ordered)
    cases parent with
    | zero =>
      exact .inl ⟨rfl, child, rfl, own, isOwn, fun earlier other before isOther =>
        least (earlier + 1) other (by omega) (by omega) isOther⟩
    | succ parent =>
      exact .inr ⟨parent, child, rfl, rfl, above, own, isAbove, isOwn, by omega, higher,
        fun between other behindParent before isOther =>
          least (between + 1) other (by omega) (by omega) isOther⟩
  · rintro (⟨rfl, root, rfl, own, isOwn, least⟩ |
      ⟨parent, child, rfl, rfl, above, own, isAbove, isOwn, ordered, higher, least⟩)
    · refine ⟨item, own, rfl, isOwn, Nat.succ_pos _, deeper own (List.mem_of_getElem? isOwn), ?_⟩
      intro between other behindParent before isOther
      obtain ⟨between, rfl⟩ := Nat.exists_eq_succ_of_ne_zero (Nat.ne_zero_of_lt behindParent)
      exact least between other (by omega) isOther
    · refine ⟨above, own, isAbove, isOwn, by omega, higher, ?_⟩
      intro between other behindParent before isOther
      obtain ⟨between, rfl⟩ := Nat.exists_eq_succ_of_ne_zero (Nat.ne_zero_of_lt behindParent)
      exact least between other (by omega) (by omega) isOther

end

theorem ends_of_deeper {item : Item} {below behind : List Item}
    (deeper : ∀ own ∈ below, item.level < own.level)
    (ends : ∀ next ∈ behind.head?, next.level ≤ item.level) :
    ∀ next ∈ behind.head?, ∀ own ∈ item :: below, next.level ≤ own.level := by
  intro next isNext own membership
  have bound := ends next isNext
  rcases List.mem_cons.mp membership with rfl | inBelow
  · exact bound
  · have isDeeper := deeper own inBelow
    omega

/-! The forest of a list. -/

theorem forest_cons_append {item : Item} {below behind : List Item}
    (deeper : ∀ own ∈ below, item.level < own.level)
    (ends : ∀ next ∈ behind.head?, next.level ≤ item.level) :
    forest (item :: (below ++ behind)) = .node item.label (forest below) :: forest behind := by
  have areDeeper : ∀ own ∈ below, decide (item.level < own.level) = true :=
    fun own membership => decide_eq_true (deeper own membership)
  have stops : behind.takeWhile (item.level < ·.level) = [] ∧
      behind.dropWhile (item.level < ·.level) = behind := by
    cases behind with
    | nil => exact ⟨rfl, rfl⟩
    | cons next rest =>
      have notDeeper := Nat.not_lt_of_le (ends next rfl)
      simp [notDeeper]
  rw [forest, List.takeWhile_append_of_pos areDeeper, List.dropWhile_append_of_pos areDeeper,
    stops.1, stops.2, List.append_nil]

/-- Every list is empty or an item with deeper ones behind it and others behind these. -/
theorem forestInduction {motive : List Item → Prop} (nil : motive [])
    (cons : ∀ item below behind, (∀ own ∈ below, item.level < own.level) →
      (∀ next ∈ behind.head?, next.level ≤ item.level) → motive below → motive behind →
      motive (item :: (below ++ behind))) (list : List Item) : motive list := by
  induction list using forest.induct with
  | case1 => exact nil
  | case2 item rest inBelow inBehind =>
    rw [← @List.takeWhile_append_dropWhile _ (item.level < ·.level) rest]
    refine cons item _ _ ?_ ?_ inBelow inBehind
    · intro own membership
      exact of_decide_eq_true (List.all_eq_true.mp List.all_takeWhile own membership)
    · intro next isNext
      have notDeeper :=
        List.head?_dropWhile_not (fun own : Item => decide (item.level < own.level)) rest
      rw [isNext] at notDeeper
      exact Nat.le_of_not_lt (of_decide_eq_false notDeeper)

mutual

def treeSize : Labelled → Nat
  | .node _ children => forestSize children + 1

def forestSize : List Labelled → Nat
  | [] => 0
  | tree :: rest => treeSize tree + forestSize rest

end

/-- The places of the roots among all nodes from the top down, the first place given. -/
def roots (place : Nat) : List Labelled → List Nat
  | [] => []
  | tree :: rest => place :: roots (place + treeSize tree) rest

mutual

def treeEdges (place : Nat) : Labelled → List (Nat × Nat)
  | .node _ children =>
    (roots (place + 1) children).map (place, ·) ++ forestEdges (place + 1) children

/-- The places of all nodes, each paired with those directly below it. -/
def forestEdges (place : Nat) : List Labelled → List (Nat × Nat)
  | [] => []
  | tree :: rest => treeEdges place tree ++ forestEdges (place + treeSize tree) rest

end

theorem forestSize_forest (list : List Item) : forestSize (forest list) = list.length := by
  induction list using forestInduction with
  | nil => rw [forest]; rfl
  | cons item below behind deeper ends inBelow inBehind =>
    rw [forest_cons_append deeper ends, forestSize, treeSize, inBelow, inBehind, List.length_cons,
      List.length_append]
    omega

theorem mem_roots_forest_iff (list : List Item) (place index : Nat) :
    index ∈ roots place (forest list) ↔ ∃ root, index = place + root ∧ IsRoot list root := by
  induction list using forestInduction generalizing place with
  | nil => simp [forest, roots, IsRoot]
  | cons item below behind deeper ends _ inBehind =>
    rw [forest_cons_append deeper ends, roots, treeSize, forestSize_forest, List.mem_cons,
      inBehind, ← List.cons_append]
    simp only [isRoot_append_iff (ends_of_deeper deeper ends), isRoot_cons_iff deeper,
      List.length_cons]
    -- only the places differ: the roots behind are counted from the end of the first tree
    grind

theorem mem_forestEdges_forest_iff (list : List Item) (place parent child : Nat) :
    (parent, child) ∈ forestEdges place (forest list) ↔
      ∃ parent' child', parent = place + parent' ∧ child = place + child' ∧
        IsParent list parent' child' := by
  induction list using forestInduction generalizing place with
  | nil => simp [forest, forestEdges, IsParent]
  | cons item below behind deeper ends inBelow inBehind =>
    rw [forest_cons_append deeper ends, forestEdges, treeEdges, treeSize, forestSize_forest,
      List.mem_append, List.mem_append, inBelow, inBehind, ← List.cons_append]
    simp only [isParent_append_iff (ends_of_deeper deeper ends), isParent_cons_iff deeper,
      List.length_cons, List.mem_map, mem_roots_forest_iff, Prod.mk.injEq]
    -- the three kinds of edges on both sides: from the root, below it, and in the trees behind
    grind

/-! Listing a forest. -/

mutual

def treeItems (level : Nat) : Labelled → List Item
  | .node label children => ⟨level, label⟩ :: forestItems (level + 1) children

/-- The labels of a forest, each in front of those below it, with how deep they stand. -/
def forestItems (level : Nat) : List Labelled → List Item
  | [] => []
  | tree :: rest => treeItems level tree ++ forestItems level rest

end

mutual

theorem le_level_treeItems (level : Nat) (tree : Labelled) :
    ∀ item ∈ treeItems level tree, level ≤ item.level := by
  obtain ⟨label, children⟩ := tree
  intro item membership
  rcases List.mem_cons.mp membership with rfl | inside
  · exact Nat.le_refl level
  · exact Nat.le_of_succ_le (le_level_forestItems (level + 1) children item inside)

theorem le_level_forestItems (level : Nat) (trees : List Labelled) :
    ∀ item ∈ forestItems level trees, level ≤ item.level := by
  cases trees with
  | nil => exact List.forall_mem_nil _
  | cons tree rest =>
    rw [forestItems, List.forall_mem_append]
    exact ⟨le_level_treeItems level tree, le_level_forestItems level rest⟩

end

theorem level_head_forestItems {level : Nat} {trees : List Labelled} {item : Item}
    (isFirst : item ∈ (forestItems level trees).head?) : item.level = level := by
  cases trees with
  | nil => cases isFirst
  | cons tree rest =>
    obtain ⟨label, children⟩ := tree
    cases isFirst
    rfl

mutual

theorem isChain_treeItems (level : Nat) (tree : Labelled) :
    (treeItems level tree).IsChain fun item next => next.level ≤ item.level + 1 := by
  obtain ⟨label, children⟩ := tree
  rw [treeItems, List.isChain_cons]
  refine ⟨?_, isChain_forestItems (level + 1) children⟩
  intro next isNext
  rw [level_head_forestItems isNext]

/-- A listed forest goes down one level at a time. -/
theorem isChain_forestItems (level : Nat) (trees : List Labelled) :
    (forestItems level trees).IsChain fun item next => next.level ≤ item.level + 1 := by
  cases trees with
  | nil => exact .nil
  | cons tree rest =>
    rw [forestItems, List.isChain_append]
    refine ⟨isChain_treeItems level tree, isChain_forestItems level rest, ?_⟩
    intro item isLast next isNext
    have bound := le_level_treeItems level tree item (List.mem_of_getLast? isLast)
    rw [level_head_forestItems isNext]
    omega

end

/-- A forest that is listed is built again from its list. -/
theorem forest_forestItems (level : Nat) (trees : List Labelled) :
    forest (forestItems level trees) = trees := by
  match trees with
  | [] => rw [forestItems, forest]
  | .node label children :: rest =>
    rw [forestItems, treeItems, List.cons_append, forest_cons_append,
      forest_forestItems (level + 1) children, forest_forestItems level rest]
    · exact le_level_forestItems (level + 1) children
    · intro next isNext
      exact Nat.le_of_eq (level_head_forestItems isNext)

end Unroll.Outline
