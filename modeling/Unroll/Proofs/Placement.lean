import Unroll.Proofs.Levels
import Unroll.Proofs.ScanPartition
import Unroll.Proofs.TextReading

set_option autoImplicit false

/-!
# Where nodes stand in their source

The tokens of a source lie in it one behind the other. A tree that is folded from them inherits
this on every level: a leaf stands at its span as its text, and a group reaches from its opening to
its closing bracket, with its children between the two.
-/

namespace Unroll

namespace Bytes

theorem length_slice (source : Bytes) (start : Nat) {stop : Nat} (within : stop ≤ source.length) :
    (source.slice start stop).length = stop - start := by
  rw [slice, List.length_take, List.length_drop]
  omega

theorem getElem?_of_slice_eq {source : Bytes} {start stop : Nat} {b : UInt8}
    (isSingle : source.slice start stop = [b]) : source[start]? = some b := by
  have first : (source.slice start stop)[0]? = some b := by rw [isSingle]; rfl
  rw [slice, List.getElem?_take, List.getElem?_drop, Option.ite_none_right_eq_some] at first
  exact first.2

end Bytes

/-- Where the second of two spans lies behind the first one, the two cover the bytes from the start
of the first one. -/
theorem Span.extend_behind {span other : Span} (nonempty : span.start < span.stop)
    (behind : span.stop ≤ other.start) (nonempty' : other.start < other.stop) :
    span.extend other = ⟨span.start, other.stop⟩ := by
  have notNull : span.isNull = false := by
    rw [Span.isNull, beq_eq_false_iff_ne]
    rintro rfl
    exact Nat.lt_irrefl 0 nonempty
  have start : min span.start other.start = span.start := by omega
  have stop : max span.stop other.stop = other.stop := by omega
  rw [Span.extend, notNull, start, stop]
  rfl

namespace LiesIn

variable {source : Bytes} {token : Token}

theorem stop_le_length (lies : LiesIn source token) : token.span.stop ≤ source.length := by
  have nonempty := lies.nonempty
  have within := lies.longest.within
  rw [List.length_drop] at within
  dsimp only at within
  omega

/-- The bytes at the span of a token are the text of its piece. -/
theorem slice_eq (lies : LiesIn source token) :
    source.slice token.span.start token.span.stop = token.piece.text := by
  obtain ⟨rule, membership, emits, matched⟩ := lies.longest.takes.exists_mem
  have isText := (Piece.spelled_of_matches membership emits matched token.span).2
  have isLexeme : (source.drop token.span.start).take (token.span.stop - token.span.start) =
      token.lexeme := lies.lexeme.symm
  rw [isLexeme] at isText
  rw [← lies.lexeme]
  exact isText.symm

/-- A token whose piece is written as one byte is that byte of the source. -/
theorem of_single (lies : LiesIn source token) {b : UInt8} (isSingle : token.piece.text = [b]) :
    token.span.stop = token.span.start + 1 ∧ source[token.span.start]? = some b := by
  have isSlice := lies.slice_eq.trans isSingle
  have size := Bytes.length_slice source token.span.start lies.stop_le_length
  rw [isSlice, List.length_singleton] at size
  exact ⟨by omega, Bytes.getElem?_of_slice_eq isSlice⟩

end LiesIn

/-- A node stands in a source where its span says: a leaf with its text, a group with its brackets
around its children. -/
inductive Node.StandsIn (source : Bytes) : Node → Prop
  | leaf {node : Node} (isLeaf : node.IsLeaf) (nonempty : node.span.start < node.span.stop)
      (within : node.span.stop ≤ source.length)
      (text : node.text = .ok (source.slice node.span.start node.span.stop)) :
      StandsIn source node
  | group {bracket : Bracket} {children : Stream} {span : Span}
      (apart : span.start + 1 < span.stop) (opens : source[span.start]? = some bracket.opener)
      (closes : source[span.stop - 1]? = some bracket.closer)
      (inside : ∀ child ∈ children, span.start < child.span.start ∧ child.span.stop < span.stop) :
      StandsIn source (.group (.bracket bracket) children span)

/-- Every node of a stream stands in the source, behind those to its left. -/
structure Stream.StandsIn (source : Bytes) (stream : Stream) : Prop where
  stands : ∀ node ∈ stream, node.StandsIn source
  ascending : stream.Pairwise fun earlier later => earlier.span.stop ≤ later.span.start

namespace Node.StandsIn

variable {source : Bytes} {node : Node}

theorem nonempty (stands : node.StandsIn source) : node.span.start < node.span.stop := by
  cases stands with
  | leaf _ nonempty => exact nonempty
  | group apart => exact Nat.lt_of_succ_lt apart

theorem stop_le_length (stands : node.StandsIn source) : node.span.stop ≤ source.length := by
  cases stands with
  | leaf _ _ within => exact within
  | group apart _ closes =>
    have bound := (List.getElem?_eq_some_iff.mp closes).1
    simp only [Node.span]
    omega

end Node.StandsIn

namespace LeafOf

variable {token : Token} {node : Node}

theorem isLeaf (leaf : LeafOf token node) : node.IsLeaf := by
  cases leaf <;> trivial

theorem span_eq (leaf : LeafOf token node) : node.span = token.span := by
  cases leaf <;> rfl

theorem text_eq (leaf : LeafOf token node) : node.text = .ok token.piece.text := by
  cases leaf <;> simp [Node.text, Node.missingBrackets?, Node.write, Token.piece, Piece.text,
    Kind.number]

theorem standsIn {source : Bytes} (leaf : LeafOf token node) (lies : LiesIn source token) :
    node.StandsIn source := by
  refine .leaf leaf.isLeaf ?_ ?_ ?_
  · rw [leaf.span_eq]
    exact lies.nonempty
  · rw [leaf.span_eq]
    exact lies.stop_le_length
  · rw [leaf.span_eq, lies.slice_eq]
    exact leaf.text_eq

end LeafOf

namespace Stream

namespace StandsIn

variable {source : Bytes}

theorem nil : StandsIn source [] := ⟨List.forall_mem_nil _, .nil⟩

theorem cons {node : Node} {rest : Stream} (inNode : node.StandsIn source)
    (inRest : StandsIn source rest) (behind : ∀ later ∈ rest, node.span.stop ≤ later.span.start) :
    StandsIn source (node :: rest) :=
  ⟨List.forall_mem_cons.mpr ⟨inNode, inRest.stands⟩, .cons behind inRest.ascending⟩

/-- Nodes behind a span reach from its start to the end of the last one. -/
theorem foldl_extend {stream : Stream} (stands : StandsIn source stream) {covered : Span}
    (nonempty : covered.start < covered.stop)
    (behind : ∀ node ∈ stream, covered.stop ≤ node.span.start) {last : Node}
    (isLast : stream.getLast? = some last) :
    stream.foldl (fun covered node => covered.extend node.span) covered =
      ⟨covered.start, last.span.stop⟩ := by
  obtain ⟨inNodes, ascending⟩ := stands
  induction stream generalizing covered with
  | nil => cases isLast
  | cons node rest inductionHypothesis =>
    obtain ⟨inNode, inRest⟩ := List.forall_mem_cons.mp inNodes
    obtain ⟨behindNode, ascendingRest⟩ := List.pairwise_cons.mp ascending
    have extended := Span.extend_behind nonempty (behind node List.mem_cons_self) inNode.nonempty
    rw [List.foldl_cons, extended]
    cases rest with
    | nil =>
      cases isLast
      rfl
    | cons next others =>
      rw [List.getLast?_cons_cons] at isLast
      have reaches : covered.start < node.span.stop := by
        have ordered := behind node List.mem_cons_self
        have inOrder := inNode.nonempty
        omega
      exact inductionHypothesis reaches behindNode isLast inRest ascendingRest

theorem span_eq {stream : Stream} (stands : StandsIn source stream) {first last : Node}
    (isFirst : stream.head? = some first) (isLast : stream.getLast? = some last) :
    stream.span = ⟨first.span.start, last.span.stop⟩ := by
  cases stream with
  | nil => cases isFirst
  | cons node rest =>
    obtain rfl : node = first := Option.some.inj isFirst
    obtain ⟨inNode, inRest⟩ := List.forall_mem_cons.mp stands.stands
    obtain ⟨behindNode, ascendingRest⟩ := List.pairwise_cons.mp stands.ascending
    have covered : Stream.span (node :: rest) =
        rest.foldl (fun covered node => covered.extend node.span) node.span := rfl
    rw [covered]
    cases rest with
    | nil =>
      cases isLast
      rfl
    | cons next others =>
      rw [List.getLast?_cons_cons] at isLast
      exact foldl_extend ⟨inRest, ascendingRest⟩ inNode.nonempty behindNode isLast

end StandsIn

end Stream

/-- Tokens that lie in a source one behind the other. -/
structure LieIn (source : Bytes) (tokens : List Token) : Prop where
  lie : ∀ token ∈ tokens, LiesIn source token
  ascending : tokens.Pairwise fun earlier later => earlier.span.stop ≤ later.span.start

namespace LieIn

variable {source : Bytes} {tokens : List Token}

theorem of_cons {token : Token} (lie : LieIn source (token :: tokens)) :
    LiesIn source token ∧ LieIn source tokens ∧
      ∀ later ∈ tokens, token.span.stop ≤ later.span.start := by
  obtain ⟨inToken, inRest⟩ := List.forall_mem_cons.mp lie.lie
  obtain ⟨behind, ascending⟩ := List.pairwise_cons.mp lie.ascending
  exact ⟨inToken, ⟨inRest, ascending⟩, behind⟩

theorem of_append {more : List Token} (lie : LieIn source (tokens ++ more)) :
    LieIn source tokens ∧ LieIn source more ∧
      ∀ earlier ∈ tokens, ∀ later ∈ more, earlier.span.stop ≤ later.span.start := by
  obtain ⟨inTokens, inMore⟩ := List.forall_mem_append.mp lie.lie
  obtain ⟨ascending, ascendingMore, behind⟩ := List.pairwise_append.mp lie.ascending
  exact ⟨⟨inTokens, ascending⟩, ⟨inMore, ascendingMore⟩, behind⟩

end LieIn

/-- Where the nodes of a stream reach from and to, in terms of the tokens it was folded from. -/
def SpannedBy (tokens : List Token) (nodes : List Node) : Prop :=
  ∀ node ∈ nodes, ∃ first ∈ tokens, ∃ last ∈ tokens,
    node.span = ⟨first.span.start, last.span.stop⟩

namespace SpannedBy

variable {tokens : List Token} {nodes : List Node}

theorem cons {more : List Token} {node : Node} {first last : Token} (isFirst : first ∈ more)
    (isLast : last ∈ more) (reaches : node.span = ⟨first.span.start, last.span.stop⟩)
    (contained : tokens ⊆ more) (spanned : SpannedBy tokens nodes) :
    SpannedBy more (node :: nodes) := by
  intro other membership
  rcases List.mem_cons.mp membership with rfl | membership
  · exact ⟨first, isFirst, last, isLast, reaches⟩
  · obtain ⟨first, isFirst, last, isLast, reaches⟩ := spanned other membership
    exact ⟨first, contained isFirst, last, contained isLast, reaches⟩

theorem start_ge (spanned : SpannedBy tokens nodes) {bound : Nat}
    (behind : ∀ token ∈ tokens, bound ≤ token.span.start) :
    ∀ node ∈ nodes, bound ≤ node.span.start := by
  intro node membership
  obtain ⟨first, isFirst, last, -, reaches⟩ := spanned node membership
  rw [reaches]
  exact behind first isFirst

theorem stop_le (spanned : SpannedBy tokens nodes) {bound : Nat}
    (before : ∀ token ∈ tokens, token.span.stop ≤ bound) :
    ∀ node ∈ nodes, node.span.stop ≤ bound := by
  intro node membership
  obtain ⟨first, -, last, isLast, reaches⟩ := spanned node membership
  rw [reaches]
  exact before last isLast

end SpannedBy

/-- The brackets of a group are those of the tokens around it. -/
theorem Node.StandsIn.of_brackets {source : Bytes} {opening closing : Token} {bracket : Bracket}
    {children : Stream} (opens : opening.kind = .opening bracket)
    (closes : closing.kind = .closing bracket) (inOpening : LiesIn source opening)
    (inClosing : LiesIn source closing) (ordered : opening.span.stop ≤ closing.span.start)
    (behind : ∀ child ∈ children, opening.span.stop ≤ child.span.start)
    (before : ∀ child ∈ children, child.span.stop ≤ closing.span.start) :
    (Node.group (.bracket bracket) children
      ⟨opening.span.start, closing.span.stop⟩).StandsIn source := by
  have isOpening : opening.piece.text = [bracket.opener] := by
    simp [Token.piece, opens, Piece.text]
  have isClosing : closing.piece.text = [bracket.closer] := by
    simp [Token.piece, closes, Piece.text]
  obtain ⟨openingSize, isOpener⟩ := inOpening.of_single isOpening
  obtain ⟨closingSize, isCloser⟩ := inClosing.of_single isClosing
  refine .group ?_ isOpener ?_ ?_
  · dsimp only
    omega
  · rw [closingSize]
    exact isCloser
  · intro child membership
    have behindOpening := behind child membership
    have beforeClosing := before child membership
    dsimp only
    omega

/-- What is folded from tokens stands where they lie, on every level. -/
theorem Folds.standsIn {source : Bytes} {tokens : List Token} {nodes : List Node}
    (folds : Folds tokens nodes) (lie : LieIn source tokens) :
    SpannedBy tokens nodes ∧ ∀ level, Stream.Level nodes level → level.StandsIn source := by
  induction folds with
  | nil =>
    refine ⟨List.forall_mem_nil _, ?_⟩
    intro level isLevel
    rw [isLevel.of_nil]
    exact .nil
  | @leaf token node tokens nodes isLeaf _ inductionHypothesis =>
    obtain ⟨inToken, inRest, behind⟩ := lie.of_cons
    obtain ⟨spanned, inLevels⟩ := inductionHypothesis inRest
    have reaches : node.span = ⟨token.span.start, token.span.stop⟩ := isLeaf.span_eq
    refine ⟨.cons List.mem_cons_self List.mem_cons_self reaches (List.subset_cons_self _ _) spanned,
      ?_⟩
    intro level isLevel
    rcases isLevel.of_cons with rfl | ⟨delimiter, children, span, rfl, -⟩ | below
    · refine .cons (isLeaf.standsIn inToken) (inLevels nodes (.top nodes)) ?_
      rw [reaches]
      exact spanned.start_ge behind
    · cases isLeaf
    · exact inLevels level below
  | @group opening closing bracket inner children tokens nodes opens closes _ _ inside outside =>
    rw [List.cons_append] at lie ⊢
    obtain ⟨inOpening, lie, behindOpening⟩ := lie.of_cons
    obtain ⟨inInner, lie, beforeClosing⟩ := lie.of_append
    obtain ⟨inClosing, inRest, behindClosing⟩ := lie.of_cons
    obtain ⟨innerSpanned, innerLevels⟩ := inside inInner
    obtain ⟨spanned, inLevels⟩ := outside inRest
    have ordered : opening.span.stop ≤ closing.span.start := behindOpening closing (by simp)
    rw [Span.extend_behind inOpening.nonempty ordered inClosing.nonempty]
    have stands : (Node.group (.bracket bracket) children
        ⟨opening.span.start, closing.span.stop⟩).StandsIn source := by
      refine .of_brackets opens closes inOpening inClosing ordered ?_ ?_
      · exact innerSpanned.start_ge fun token membership =>
          behindOpening token (by simp [membership])
      · exact innerSpanned.stop_le fun token membership =>
          beforeClosing token membership closing List.mem_cons_self
    have contained : tokens ⊆ opening :: (inner ++ closing :: tokens) := by
      intro token membership
      simp [membership]
    refine ⟨.cons List.mem_cons_self (by simp) rfl contained spanned, ?_⟩
    intro level isLevel
    rcases isLevel.of_cons with rfl | ⟨_, _, _, isGroup, below⟩ | below
    · exact .cons stands (inLevels nodes (.top nodes)) (spanned.start_ge behindClosing)
    · cases isGroup
      exact innerLevels level below
    · exact inLevels level below

/-- On every level of a parsed source each node stands where its span says. -/
theorem Stream.standsIn_of_parse {source : Bytes} {stream : Stream}
    (parsed : Stream.parse source = .ok stream) {level : Stream} (isLevel : stream.Level level) :
    level.StandsIn source := by
  obtain ⟨tokens, stop, scanned, folds⟩ := Stream.exists_scans_of_parse parsed
  have isSource : source = source.drop 0 := rfl
  obtain ⟨partition, -⟩ := scanned.partition isSource (Nat.zero_le _)
  exact (folds.standsIn ⟨partition.liesIn, partition.ascending⟩).2 level isLevel

/-- On every level of a parsed source the nodes stand where their spans say, one behind the other,
and the span of the level reaches from its first node to its last one. -/
theorem parsed_nodes_stand_in_source (source : Bytes) (stream : Stream)
    (parsed : Stream.parse source = .ok stream) (level : Stream) (isLevel : stream.Level level) :
    (∀ node ∈ level, node.StandsIn source) ∧
      level.Pairwise (fun earlier later => earlier.span.stop ≤ later.span.start) ∧
      ∀ first last, level.head? = some first → level.getLast? = some last →
        level.span = ⟨first.span.start, last.span.stop⟩ := by
  have stands := Stream.standsIn_of_parse parsed isLevel
  refine ⟨stands.stands, stands.ascending, ?_⟩
  intro first last isFirst isLast
  exact stands.span_eq isFirst isLast

/-- A name and a group, inside a group that starts with the source. -/
def bracketedArrow : Bytes := word ['(', 'a', ' ', '[', '-', '>', ']', ')']

def bracketedArrowLevel : Stream :=
  [.ident (word ['a']) ⟨1, 2⟩,
    .group .square
      [.punct (charCode '-') .joint ⟨4, 5⟩, .punct (charCode '>') .alone ⟨5, 6⟩] ⟨3, 7⟩]

theorem bracketedArrow_stands :
    Stream.parse bracketedArrow = .ok [.group .round bracketedArrowLevel ⟨0, 8⟩] ∧
      Stream.Level [.group .round bracketedArrowLevel ⟨0, 8⟩] bracketedArrowLevel ∧
      (∀ node ∈ bracketedArrowLevel, node.StandsIn bracketedArrow) ∧
      bracketedArrowLevel.span = ⟨1, 7⟩ := by
  have parsed : Stream.parse bracketedArrow = .ok [.group .round bracketedArrowLevel ⟨0, 8⟩] := by
    with_unfolding_all rfl
  have isLevel : Stream.Level [.group .round bracketedArrowLevel ⟨0, 8⟩] bracketedArrowLevel :=
    .inside List.mem_cons_self (.top _)
  obtain ⟨stand, -, spans⟩ := parsed_nodes_stand_in_source _ _ parsed _ isLevel
  exact ⟨parsed, isLevel, stand, spans _ _ rfl rfl⟩

end Unroll
