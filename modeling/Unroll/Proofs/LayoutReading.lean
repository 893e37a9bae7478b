import Unroll.Proofs.TextReading
import Unroll.Tree.Layout

set_option autoImplicit false

/-!
# Reading what was written

Blanks are written so that no word runs into its neighbour. What is left are the three ways in which
a piece can run into the text behind it, and a written stream is read back exactly if none of them
occurs anywhere.
-/

namespace Unroll

open Pattern

mutual

/-- No piece of a node runs into what is written behind it, up to a text that follows. -/
def Node.ApartFrom : Node → Bytes → Prop
  | .ident name _, text => (Piece.ident name).Apart text
  | .literal kind raw _, text => (Piece.literal kind raw).Apart text
  | .punct char _ _, text => (Piece.punct char).Apart text
  | .group (.bracket kind) children _, text =>
    Stream.ApartFrom children (Layout.padding (.bracket kind) children ++ kind.closer :: text)
  | .group (.unknown _) children _, text => Stream.ApartFrom children text

def Stream.ApartFrom : List Node → Bytes → Prop
  | [], _ => True
  | node :: rest, text =>
    node.ApartFrom (Layout.writeBehind (some node) rest text) ∧ Stream.ApartFrom rest text

end

/-- No piece of a stream runs into what is written behind it. -/
def Stream.Apart (stream : Stream) : Prop := Stream.ApartFrom stream []

/-! The text of a stream. -/

mutual

theorem Node.missingBrackets?_eq_none (node : Node) (spelled : node.Spelled) :
    node.missingBrackets? = none := by
  cases node with
  | ident | literal | punct => rfl
  | group delimiter children span =>
    obtain ⟨⟨bracket, rfl⟩, inside⟩ := (Node.spelled_group_iff _ _ _).mp spelled
    exact Stream.missingBrackets?_eq_none children inside

theorem Stream.missingBrackets?_eq_none (stream : List Node) (spelled : Stream.Spelled stream) :
    Stream.missingBrackets? stream = none := by
  cases stream with
  | nil => rfl
  | cons node rest =>
    obtain ⟨inNode, inRest⟩ := (Stream.spelled_cons_iff node rest).mp spelled
    rw [Stream.missingBrackets?, node.missingBrackets?_eq_none inNode]
    exact Stream.missingBrackets?_eq_none rest inRest

end

theorem Stream.text_eq {stream : Stream} (spelled : Stream.Spelled stream) :
    stream.text = .ok (Layout.writeBehind none stream []) := by
  rw [Stream.text, Stream.missingBrackets?_eq_none stream spelled]

namespace Layout

theorem gap_cases (left : Option Node) (node : Node) :
    gap left node = [] ∨ gap left node = [Bytes.blank] := by
  unfold gap
  split
  · exact .inl rfl
  · split
    · exact .inr rfl
    · exact .inl rfl

theorem padding_cases (delimiter : Delimiter) (children : Stream) :
    padding delimiter children = [] ∨ padding delimiter children = [Bytes.blank] := by
  unfold padding
  split
  · exact .inr rfl
  · exact .inl rfl

end Layout

mutual

theorem Node.keepsSlashes (node : Node) (spelled : node.Spelled) {text : Bytes}
    {later : List Piece} (keeps : KeepsSlashes text later) :
    KeepsSlashes (node.write text) (node.pieces ++ later) := by
  cases node with
  | ident name span => exact keeps.piece (.ident name)
  | literal kind raw span => exact keeps.piece (.literal kind raw)
  | punct char spacing span => exact keeps.piece (.punct char)
  | group delimiter children span =>
    obtain ⟨⟨bracket, rfl⟩, inside⟩ := (Node.spelled_group_iff _ _ _).mp spelled
    have isPadding := Layout.padding_cases (.bracket bracket) children
    have closed := (keeps.piece (.closing (.bracket bracket))).gap isPadding
    have filled := (Layout.keepsSlashes none children inside closed).gap isPadding
    have opened := filled.piece (.opening (.bracket bracket))
    simp only [Node.pieces, List.cons_append, List.append_assoc, List.nil_append]
    exact opened

theorem Layout.keepsSlashes (left : Option Node) (nodes : List Node)
    (spelled : Stream.Spelled nodes) {text : Bytes} {later : List Piece}
    (keeps : KeepsSlashes text later) :
    KeepsSlashes (Layout.writeBehind left nodes text) (Stream.pieces nodes ++ later) := by
  cases nodes with
  | nil => exact keeps
  | cons node rest =>
    obtain ⟨inNode, inRest⟩ := (Stream.spelled_cons_iff node rest).mp spelled
    have behind := Layout.keepsSlashes (some node) rest inRest keeps
    rw [Layout.writeBehind, Stream.pieces, List.append_assoc]
    exact (node.keepsSlashes inNode behind).gap (Layout.gap_cases left node)

end

/-! What stands next to what. -/

theorem Node.write_begins (node : Node) (spelled : node.Spelled) (text : Bytes) :
    ∃ piece b rest, piece ∈ node.pieces.head? ∧ node.write text = b :: rest ∧
      piece.Begins b := by
  have first : ∃ piece rest, piece ∈ node.pieces.head? ∧ node.write text = piece.text ++ rest := by
    cases node with
    | ident | literal | punct => exact ⟨_, text, rfl, rfl⟩
    | group delimiter children span =>
      obtain ⟨⟨bracket, rfl⟩, -⟩ := (Node.spelled_group_iff _ _ _).mp spelled
      exact ⟨.opening (.bracket bracket), _, rfl, rfl⟩
  obtain ⟨piece, rest, isFirst, written⟩ := first
  obtain ⟨b, tail, isText, begins⟩ := (spelled piece (List.mem_of_mem_head? isFirst)).begins
  refine ⟨piece, b, tail ++ rest, isFirst, ?_, begins⟩
  rw [written, isText, List.cons_append]

theorem Node.write_head (node : Node) (spelled : node.Spelled) (text : Bytes) :
    ∀ b ∈ (node.write text).head?, Rule.isSpace b = false := by
  obtain ⟨piece, first, rest, -, written, begins⟩ := node.write_begins spelled text
  intro b isHead
  rw [written] at isHead
  cases isHead
  exact begins.not_isSpace

namespace Layout

/-- Children are padded only if there are any, so that blanks never meet. -/
theorem head_writeBehind_none (children : Stream) (spelled : Stream.Spelled children) {text : Bytes}
    (noSpace : ∀ b ∈ text.head?, Rule.isSpace b = false) (bracket : Bracket) :
    ∀ b ∈ (writeBehind none children (padding (.bracket bracket) children ++ text)).head?,
      Rule.isSpace b = false := by
  cases children with
  | nil =>
    have noPadding : padding (.bracket bracket) [] = [] := by simp [padding]
    rw [noPadding]
    exact noSpace
  | cons node rest => exact node.write_head ((Stream.spelled_cons_iff _ _).mp spelled).1 _

end Layout

/-- Nodes that need something behind them to end. -/
def Node.isWord : Node → Bool
  | .ident _ _ | .literal _ _ _ => true
  | _ => false

namespace Layout

theorem glued_boundary {node next : Node} (isWord : node.isWord = true) (spelled : next.Spelled)
    (glued : blankBetween node next = false) (text : Bytes) : Piece.Boundary (next.write text) := by
  have behind : blankBehind node next = true := by
    cases node with
    | ident | literal => rfl
    | punct | group => cases isWord
  rw [blankBetween, behind, Bool.true_and] at glued
  cases next with
  | ident | literal =>
    cases node with
    | ident | literal => cases glued
    | punct | group => cases isWord
  | punct char spacing span =>
    have gluedMarks : ∀ mark ∈ Rule.marks, gluesBackward (Int32.ofNat mark.toNat) = true →
        mark ∈ Piece.boundaryBytes := by
      apply Bytes.forall_mem_of_all
      decide
    obtain ⟨mark, membership, rfl⟩ := (Node.spelled_punct_iff _ _ _).mp spelled
    have isText := (Piece.marks_spelled mark membership).1
    have written : (Node.punct (Int32.ofNat mark.toNat) spacing span).write text =
        mark :: text := by
      rw [Node.write, ← List.singleton_append, ← isText]
      rfl
    intro b isHead
    rw [written] at isHead
    cases isHead
    exact gluedMarks mark membership (by simpa [blankBefore] using glued)
  | group delimiter children span =>
    obtain ⟨⟨bracket, rfl⟩, -⟩ := (Node.spelled_group_iff _ _ _).mp spelled
    intro b isHead
    cases isHead
    cases node with
    | literal => cases glued
    | punct | group => cases isWord
    | ident =>
      cases bracket with
      | round | square => decide
      | curly => simp [blankBefore] at glued

/-- What is written behind a word starts with something that ends it. -/
theorem boundary_writeBehind {node : Node} (isWord : node.isWord = true) (rest : List Node)
    (spelled : Stream.Spelled rest) {text : Bytes} (boundary : Piece.Boundary text) :
    Piece.Boundary (writeBehind (some node) rest text) := by
  cases rest with
  | nil => exact boundary
  | cons next rest =>
    rw [writeBehind, gap]
    split
    · intro b isHead
      cases isHead
      decide
    · rename_i glued
      exact glued_boundary isWord ((Stream.spelled_cons_iff _ _).mp spelled).1
        (Bool.eq_false_iff.mpr glued) _

/-- What may stand behind the last node of a stream. -/
def endBytes : Bytes := word [' ', ')', ']', '\x7d']

def Ends (text : Bytes) : Prop := ∀ b ∈ text.head?, b ∈ endBytes

theorem Ends.boundary {text : Bytes} (ends : Ends text) : Piece.Boundary text := by
  have included : ∀ b ∈ endBytes, b ∈ Piece.boundaryBytes := by
    apply Bytes.forall_mem_of_all
    decide
  intro b isHead
  exact included b (ends b isHead)

theorem ends_closer (bracket : Bracket) (children : Stream) (text : Bytes) :
    Ends (padding (.bracket bracket) children ++ bracket.closer :: text) := by
  intro b isHead
  rcases padding_cases (.bracket bracket) children with none | blank
  · rw [none] at isHead
    cases isHead
    cases bracket <;> decide
  · rw [blank] at isHead
    cases isHead
    decide

end Layout

/-! Reading back. -/

mutual

theorem Node.readsAs_iff (node : Node) (spelled : node.Spelled) {text : Bytes} {later : List Piece}
    (boundary : node.isWord = true → Piece.Boundary text) (keeps : KeepsSlashes text later) :
    ReadsAs (node.write text) (node.pieces ++ later) ↔
      node.ApartFrom text ∧ ReadsAs text later := by
  cases node with
  | ident name span =>
    have isSpelled : (Piece.ident name).Spelled := (Node.spelled_ident_iff _ _).mp spelled
    exact ReadsAs.piece_iff isSpelled (fun _ => boundary rfl) keeps
  | literal kind raw span =>
    have isSpelled : (Piece.literal kind raw).Spelled := (Node.spelled_literal_iff _ _ _).mp spelled
    exact ReadsAs.piece_iff isSpelled (fun _ => boundary rfl) keeps
  | punct char spacing span =>
    have isSpelled : (Piece.punct char).Spelled := (Node.spelled_punct_iff _ _ _).mp spelled
    exact ReadsAs.piece_iff isSpelled (fun isWord => nomatch isWord) keeps
  | group delimiter children span =>
    obtain ⟨⟨bracket, rfl⟩, inside⟩ := (Node.spelled_group_iff _ _ _).mp spelled
    have isPadding := Layout.padding_cases (.bracket bracket) children
    have closerHead : ∀ b ∈ (bracket.closer :: text).head?, Rule.isSpace b = false := by
      intro b isHead
      cases isHead
      cases bracket <;> decide
    have childrenHead := Layout.head_writeBehind_none children inside closerHead bracket
    have closed : KeepsSlashes
        (Layout.padding (.bracket bracket) children ++ bracket.closer :: text)
        (.closing (.bracket bracket) :: later) :=
      (keeps.piece (.closing (.bracket bracket))).gap isPadding
    have filled := (Layout.keepsSlashes none children inside closed).gap isPadding
    have boundaryInside := (Layout.ends_closer bracket children text).boundary
    simp only [Node.write, Node.pieces, Node.ApartFrom, List.cons_append, List.append_assoc,
      List.nil_append]
    -- the opener, the padding, the children, the padding and the closer are read off in turn
    rw [ReadsAs.opening_iff bracket filled, ReadsAs.gap_iff isPadding childrenHead,
      Layout.readsAs_iff none children inside boundaryInside closed,
      ReadsAs.gap_iff isPadding closerHead, ReadsAs.closing_iff bracket keeps]

theorem Layout.readsAs_iff (left : Option Node) (nodes : List Node) (spelled : Stream.Spelled nodes)
    {text : Bytes} {later : List Piece} (boundary : Piece.Boundary text)
    (keeps : KeepsSlashes text later) :
    ReadsAs (Layout.writeBehind left nodes text) (Stream.pieces nodes ++ later) ↔
      Stream.ApartFrom nodes text ∧ ReadsAs text later := by
  cases nodes with
  | nil => exact (and_iff_right trivial).symm
  | cons node rest =>
    obtain ⟨inNode, inRest⟩ := (Stream.spelled_cons_iff node rest).mp spelled
    have keepsRest := Layout.keepsSlashes (some node) rest inRest keeps
    have boundaryRest : node.isWord = true →
        Piece.Boundary (Layout.writeBehind (some node) rest text) :=
      fun isWord => Layout.boundary_writeBehind isWord rest inRest boundary
    rw [Layout.writeBehind, Stream.pieces, List.append_assoc, Stream.ApartFrom, and_assoc,
      ReadsAs.gap_iff (Layout.gap_cases left node) (node.write_head inNode _),
      node.readsAs_iff inNode boundaryRest keepsRest,
      Layout.readsAs_iff (some node) rest inRest boundary keeps]

end

/-- A stream whose pieces the scanner knows has a text, and the text is parsed to the same stream
exactly if no piece runs into what is written behind it. -/
theorem Stream.text_parse_iff {stream : Stream} (spelled : Stream.Spelled stream) :
    ∃ text, stream.text = .ok text ∧
      ((∃ back, Stream.parse text = .ok back ∧ Stream.alike back stream = true) ↔
        stream.Apart) := by
  refine ⟨_, Stream.text_eq spelled, ?_⟩
  have keeps : KeepsSlashes [] [] := Nat.le_refl 0
  have boundary : Piece.Boundary [] := fun b impossible => nomatch impossible
  have reading := Layout.readsAs_iff none stream spelled boundary keeps
  rw [List.append_nil, and_iff_left ReadsAs.nil] at reading
  rw [Stream.exists_parse_alike_iff spelled, reading, Stream.Apart]

end Unroll
