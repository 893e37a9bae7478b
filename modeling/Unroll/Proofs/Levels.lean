import Mathlib.Data.List.Infix
import Unroll.Tree.Basic

set_option autoImplicit false

/-!
# Levels of a stream

The levels of a stream are the stream itself and, group by group, the streams inside it. What is
looked for in a stream is looked for on all levels: nodes in a row that have some shape.
-/

namespace Unroll

namespace Stream

inductive Level : Stream → Stream → Prop
  | top (stream : Stream) : Level stream stream
  | inside {stream : Stream} {delimiter : Delimiter} {children : Stream} {span : Span}
      {level : Stream} (membership : .group delimiter children span ∈ stream)
      (below : Level children level) : Level stream level

theorem Level.of_cons {node : Node} {rest level : Stream} (isLevel : Level (node :: rest) level) :
    level = node :: rest ∨
      (∃ delimiter children span, node = .group delimiter children span ∧ Level children level) ∨
      Level rest level := by
  cases isLevel with
  | top => exact .inl rfl
  | inside membership below =>
    rcases List.mem_cons.mp membership with rfl | membership
    · exact .inr (.inl ⟨_, _, _, rfl, below⟩)
    · exact .inr (.inr (.inside membership below))

theorem Level.of_nil {level : Stream} (isLevel : Level [] level) : level = [] := by
  cases isLevel with
  | top => rfl
  | inside membership => cases membership

/-- Nodes of the given shape stand in a row on some level. -/
def Holds (shape : List Node → Prop) (stream : Stream) : Prop :=
  ∃ level, stream.Level level ∧ ∃ nodes, shape nodes ∧ nodes <:+: level

/-- Nodes of the given shape stand at the front. -/
def Opens (shape : List Node → Prop) (stream : Stream) : Prop :=
  ∃ nodes, shape nodes ∧ nodes <+: stream

end Stream

theorem Stream.sizeOf_le_of_suffix {part stream : List Node} (isSuffix : part <:+ stream) :
    sizeOf part ≤ sizeOf stream := by
  obtain ⟨front, rfl⟩ := isSuffix
  induction front with
  | nil => exact Nat.le_refl _
  | cons node front inductionHypothesis =>
    rw [List.cons_append, List.cons.sizeOf_spec]
    omega

/-- Nodes of the given shape stand in a row inside a group. -/
def Node.Holds (shape : List Node → Prop) : Node → Prop
  | .group _ children _ => Stream.Holds shape children
  | _ => False

section

variable (shape : List Node → Prop)

@[simp] theorem Node.holds_group (delimiter : Delimiter) (children : Stream) (span : Span) :
    (Node.group delimiter children span).Holds shape ↔ children.Holds shape := Iff.rfl

@[simp] theorem Node.not_holds_ident (name : Bytes) (span : Span) :
    ¬ (Node.ident name span).Holds shape := id

@[simp] theorem Node.not_holds_literal (kind : LiteralKind) (raw : Bytes) (span : Span) :
    ¬ (Node.literal kind raw span).Holds shape := id

@[simp] theorem Node.not_holds_punct (char : Int32) (spacing : Spacing) (span : Span) :
    ¬ (Node.punct char spacing span).Holds shape := id

end

def Node.IsLeaf : Node → Prop
  | .group _ _ _ => False
  | _ => True

def Node.IsPunctuation : Node → Prop
  | .punct _ _ _ => True
  | _ => False

theorem Node.isPunctuation_iff (node : Node) :
    node.IsPunctuation ↔ ∃ char spacing span, node = .punct char spacing span := by
  cases node with
  | ident | literal | group => simp [Node.IsPunctuation]
  | punct char spacing span => exact iff_of_true trivial ⟨char, spacing, span, rfl⟩

/-- Punctuation stands next. -/
def Stream.Punctuated (stream : Stream) : Prop := ∃ next ∈ stream.head?, next.IsPunctuation

theorem Stream.punctuated_cons_iff (node : Node) (rest : Stream) :
    Stream.Punctuated (node :: rest) ↔ node.IsPunctuation := by
  simp [Stream.Punctuated]

theorem Stream.Punctuated.append {stream : Stream} (punctuated : stream.Punctuated)
    (more : Stream) : Stream.Punctuated (stream ++ more) := by
  obtain ⟨next, isNext, isPunctuation⟩ := punctuated
  exact ⟨next, List.mem_head?_append_of_mem_head? isNext, isPunctuation⟩

theorem Node.IsLeaf.not_holds {node : Node} (isLeaf : node.IsLeaf) (shape : List Node → Prop) :
    ¬ node.Holds shape := by
  cases node with
  | ident | literal | punct => exact id
  | group => cases isLeaf

namespace Stream

variable {shape : List Node → Prop}

theorem Holds.of_children {stream : Stream} {delimiter : Delimiter} {children : Stream}
    {span : Span} (membership : .group delimiter children span ∈ stream)
    (inChildren : Holds shape children) : Holds shape stream := by
  obtain ⟨level, below, inLevel⟩ := inChildren
  exact ⟨level, .inside membership below, inLevel⟩

theorem Holds.of_infix {part stream : Stream} (isPart : part <:+: stream)
    (inPart : Holds shape part) : Holds shape stream := by
  obtain ⟨level, isLevel, nodes, shaped, inLevel⟩ := inPart
  cases isLevel with
  | top => exact ⟨stream, .top stream, nodes, shaped, inLevel.trans isPart⟩
  | inside membership below =>
    exact .of_children (isPart.mem membership) ⟨level, below, nodes, shaped, inLevel⟩

/-- A stream that holds nodes of a shape holds what these nodes contain. -/
theorem Holds.mono {part : List Node → Prop} {stream : Stream}
    (contained : ∀ nodes, shape nodes → ∃ inner, part inner ∧ inner <:+: nodes)
    (holds : Holds shape stream) : Holds part stream := by
  obtain ⟨level, isLevel, nodes, shaped, inLevel⟩ := holds
  obtain ⟨inner, isPart, inNodes⟩ := contained nodes shaped
  exact ⟨level, isLevel, inner, isPart, inNodes.trans inLevel⟩

theorem holds_nil_iff : Holds shape [] ↔ shape [] := by
  constructor
  · rintro ⟨level, isLevel, nodes, shaped, inLevel⟩
    cases isLevel with
    | top => rwa [List.infix_nil.mp inLevel] at shaped
    | inside membership => cases membership
  · intro shaped
    exact ⟨[], .top [], [], shaped, List.infix_refl []⟩

/-- What a stream holds opens it, lies in its first node, or is held by the rest. -/
theorem holds_cons_iff (node : Node) (rest : List Node) :
    Holds shape (node :: rest) ↔
      Opens shape (node :: rest) ∨ node.Holds shape ∨ Holds shape rest := by
  constructor
  · rintro ⟨level, isLevel, nodes, shaped, inLevel⟩
    cases isLevel with
    | top =>
      rcases List.infix_cons_iff.mp inLevel with isPrefix | inRest
      · exact .inl ⟨nodes, shaped, isPrefix⟩
      · exact .inr (.inr ⟨rest, .top rest, nodes, shaped, inRest⟩)
    | inside membership below =>
      rcases List.mem_cons.mp membership with rfl | membership
      · exact .inr (.inl ⟨level, below, nodes, shaped, inLevel⟩)
      · exact .inr (.inr (.of_children membership ⟨level, below, nodes, shaped, inLevel⟩))
  · rintro (opens | inNode | inRest)
    · obtain ⟨nodes, shaped, isPrefix⟩ := opens
      exact ⟨node :: rest, .top _, nodes, shaped, isPrefix.isInfix⟩
    · cases node with
      | ident | literal | punct => cases inNode
      | group delimiter children span => exact .of_children List.mem_cons_self inNode
    · exact inRest.of_infix (List.suffix_cons node rest).isInfix

end Stream

section Decision

variable (shape : List Node → Prop) [DecidablePred shape]

instance (stream : Stream) : Decidable (stream.Opens shape) :=
  decidable_of_iff (∃ nodes ∈ stream.inits, shape nodes) (by
    simp only [Stream.Opens, List.mem_inits, and_comm])

mutual

def Node.decideHolds : (node : Node) → Decidable (node.Holds shape)
  | .group _ children _ => Stream.decideHolds children
  | .ident _ _ | .literal _ _ _ | .punct _ _ _ => .isFalse id

def Stream.decideHolds : (stream : List Node) → Decidable (Stream.Holds shape stream)
  | [] => decidable_of_iff _ Stream.holds_nil_iff.symm
  | node :: rest =>
    have := node.decideHolds
    have := Stream.decideHolds rest
    decidable_of_iff _ (Stream.holds_cons_iff node rest).symm

end

instance (stream : Stream) : Decidable (stream.Holds shape) := Stream.decideHolds shape stream

end Decision

theorem Node.eq_punct_of_isPunct {node : Node} {char : Int32} (isPunct : node.isPunct char = true) :
    ∃ spacing span, node = .punct char spacing span := by
  cases node with
  | ident | literal | group => cases isPunct
  | punct own spacing span =>
    rw [Node.isPunct, beq_iff_eq] at isPunct
    exact ⟨spacing, span, by rw [isPunct]⟩

/-- A single punctuation character. -/
def IsPunct (char : Int32) : List Node → Prop
  | [.punct own _ _] => own = char
  | _ => False

theorem isPunct_iff (char : Int32) (nodes : List Node) :
    IsPunct char nodes ↔ ∃ spacing span, nodes = [.punct char spacing span] := by
  constructor
  · intro isPunct
    unfold IsPunct at isPunct
    split at isPunct
    · subst isPunct
      exact ⟨_, _, rfl⟩
    · cases isPunct
  · rintro ⟨spacing, span, rfl⟩
    rfl

instance (char : Int32) : DecidablePred (IsPunct char)
  | [.punct own _ _] => inferInstanceAs (Decidable (own = char))
  | [] | [.ident _ _] | [.literal _ _ _] | [.group _ _ _] | _ :: _ :: _ =>
    .isFalse (by simp [isPunct_iff])

/-- Streams one behind the other hold a punctuation character only if one of them does. -/
theorem Stream.Holds.exists_of_flatMap {α : Type} {values : List α} {part : α → Stream}
    {char : Int32} (holds : Stream.Holds (IsPunct char) (values.flatMap part)) :
    ∃ value ∈ values, (part value).Holds (IsPunct char) := by
  obtain ⟨level, isLevel, nodes, isPunct, inLevel⟩ := holds
  cases isLevel with
  | top =>
    obtain ⟨spacing, span, rfl⟩ := (isPunct_iff _ _).mp isPunct
    obtain ⟨value, inValues, inPart⟩ :=
      List.mem_flatMap.mp ((List.singleton_infix_iff _ _).mp inLevel)
    exact ⟨value, inValues, _, .top _, _, isPunct, (List.singleton_infix_iff _ _).mpr inPart⟩
  | inside membership below =>
    obtain ⟨value, inValues, inPart⟩ := List.mem_flatMap.mp membership
    exact ⟨value, inValues, .of_children inPart ⟨level, below, nodes, isPunct, inLevel⟩⟩

end Unroll
