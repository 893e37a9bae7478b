import Mathlib.Tactic.Common
import Unroll.Token.Basic
import Unroll.Tree.Equality

set_option autoImplicit false

/-!
# Flattening trees

A stream read from left to right: its leaves, and the two brackets of every group around what the
group holds. The sequence determines the stream up to spans and spacing, so it is the same thing to
compare streams and to compare what they flatten to.
-/

namespace Unroll

/-- What stands at one place of a flattened stream. -/
inductive Piece where
  | opening (delimiter : Delimiter)
  | closing (delimiter : Delimiter)
  | ident (name : Bytes)
  | literal (kind : LiteralKind) (raw : Bytes)
  | punct (char : Int32)
  deriving DecidableEq, Repr

/-- The piece of a token: its kind, for names and literals with the lexeme, for punctuation as a
character. -/
def Token.piece (token : Token) : Piece :=
  match token.kind with
  | .opening bracket => .opening (.bracket bracket)
  | .closing bracket => .closing (.bracket bracket)
  | .ident => .ident token.lexeme
  | .int => .literal .int token.lexeme
  | .float => .literal .float token.lexeme
  | .string => .literal .string token.lexeme
  | .char => .literal .char token.lexeme
  | kind => .punct kind.number.toInt32

mutual

def Node.pieces : Node → List Piece
  | .ident name _ => [.ident name]
  | .literal kind raw _ => [.literal kind raw]
  | .punct char _ _ => [.punct char]
  | .group delimiter children _ =>
    .opening delimiter :: Stream.pieces children ++ [.closing delimiter]

def Stream.pieces : List Node → List Piece
  | [] => []
  | node :: rest => node.pieces ++ Stream.pieces rest

end

@[simp] theorem Stream.pieces_append (first second : List Node) :
    Stream.pieces (first ++ second) = Stream.pieces first ++ Stream.pieces second := by
  induction first with
  | nil => rfl
  | cons node rest inductionHypothesis =>
    simp only [List.cons_append, Stream.pieces, inductionHypothesis, List.append_assoc]

/-- Where a stream may end: at the end of the pieces or in front of a closing bracket. -/
def ClosesNext (pieces : List Piece) : Prop :=
  ∀ piece ∈ pieces.head?, ∃ delimiter, piece = .closing delimiter

theorem closesNext_nil : ClosesNext [] := by
  intro piece membership
  cases membership

theorem closesNext_closing (delimiter : Delimiter) (rest : List Piece) :
    ClosesNext (.closing delimiter :: rest) := by
  intro piece membership
  cases membership
  exact ⟨delimiter, rfl⟩

/-- A node never starts with a closing bracket. -/
theorem Node.not_closesNext (node : Node) (rest : List Piece) :
    ¬ ClosesNext (node.pieces ++ rest) := by
  intro closes
  cases node with
  | ident | literal | punct | group =>
    obtain ⟨delimiter, impossible⟩ := closes _ rfl
    cases impossible

mutual

/-- The pieces of a node tell where it ends, so it can be read off the front. -/
theorem Node.alike_of_pieces_eq (node node' : Node) (rest rest' : List Piece)
    (same : node.pieces ++ rest = node'.pieces ++ rest') :
    node.alike node' = true ∧ rest = rest' := by
  cases node with
  | ident name span =>
    cases node' with
    | ident | literal | punct | group => simp_all [Node.pieces, Node.alike]
  | literal kind raw span =>
    cases node' with
    | ident | literal | punct | group => simp_all [Node.pieces, Node.alike]
  | punct char spacing span =>
    cases node' with
    | ident | literal | punct | group => simp_all [Node.pieces, Node.alike]
  | group delimiter children span =>
    cases node' with
    | ident | literal | punct => simp [Node.pieces] at same
    | group delimiter' children' span' =>
      simp only [Node.pieces, List.cons_append, List.append_assoc, List.cons.injEq,
        Piece.opening.injEq, List.nil_append] at same
      obtain ⟨rfl, inner⟩ := same
      obtain ⟨alike, behind⟩ := Stream.alike_of_pieces_eq children children' _ _
        (closesNext_closing _ _) (closesNext_closing _ _) inner
      rw [List.cons.injEq] at behind
      exact ⟨by simp [Node.alike, alike], behind.2⟩

theorem Stream.alike_of_pieces_eq (stream stream' : List Node) (rest rest' : List Piece)
    (closes : ClosesNext rest) (closes' : ClosesNext rest')
    (same : Stream.pieces stream ++ rest = Stream.pieces stream' ++ rest') :
    Stream.alike stream stream' = true ∧ rest = rest' := by
  cases stream with
  | nil =>
    cases stream' with
    | nil => exact ⟨by simp [Stream.alike], same⟩
    | cons node' nodes' =>
      simp only [Stream.pieces, List.nil_append, List.append_assoc] at same
      rw [same] at closes
      exact absurd closes (node'.not_closesNext _)
  | cons node nodes =>
    cases stream' with
    | nil =>
      simp only [Stream.pieces, List.nil_append, List.append_assoc] at same
      rw [← same] at closes'
      exact absurd closes' (node.not_closesNext _)
    | cons node' nodes' =>
      simp only [Stream.pieces, List.append_assoc] at same
      obtain ⟨alike, behind⟩ := Node.alike_of_pieces_eq node node' _ _ same
      obtain ⟨alikeRest, end_⟩ :=
        Stream.alike_of_pieces_eq nodes nodes' _ _ closes closes' behind
      exact ⟨by simp [Stream.alike, alike, alikeRest], end_⟩

end

mutual

theorem Node.pieces_eq_of_alike (node node' : Node) (alike : node.alike node' = true) :
    node.pieces = node'.pieces := by
  cases node with
  | ident name span =>
    cases node' with
    | ident | literal | punct | group => simp_all [Node.pieces, Node.alike]
  | literal kind raw span =>
    cases node' with
    | ident | literal | punct | group => simp_all [Node.pieces, Node.alike]
  | punct char spacing span =>
    cases node' with
    | ident | literal | punct | group => simp_all [Node.pieces, Node.alike]
  | group delimiter children span =>
    cases node' with
    | ident | literal | punct => simp [Node.alike] at alike
    | group delimiter' children' span' =>
      simp only [Node.alike, Bool.and_eq_true, beq_iff_eq] at alike
      obtain ⟨rfl, inner⟩ := alike
      rw [Node.pieces, Node.pieces, Stream.pieces_eq_of_alike children children' inner]

theorem Stream.pieces_eq_of_alike (stream stream' : List Node)
    (alike : Stream.alike stream stream' = true) :
    Stream.pieces stream = Stream.pieces stream' := by
  cases stream with
  | nil =>
    cases stream' with
    | nil => rfl
    | cons => simp [Stream.alike] at alike
  | cons node nodes =>
    cases stream' with
    | nil => simp [Stream.alike] at alike
    | cons node' nodes' =>
      simp only [Stream.alike, Bool.and_eq_true] at alike
      rw [Stream.pieces, Stream.pieces, Node.pieces_eq_of_alike node node' alike.1,
        Stream.pieces_eq_of_alike nodes nodes' alike.2]

end

/-- Streams are alike if and only if they flatten to the same pieces. -/
theorem Stream.alike_iff_pieces_eq (stream stream' : Stream) :
    Stream.alike stream stream' = true ↔ Stream.pieces stream = Stream.pieces stream' := by
  constructor
  · exact Stream.pieces_eq_of_alike stream stream'
  · intro same
    exact (Stream.alike_of_pieces_eq stream stream' [] [] closesNext_nil closesNext_nil
      (congrArg (· ++ []) same)).1

end Unroll
