import Unroll.Proofs.LayoutReading

set_option autoImplicit false

/-!
# Streams that survive being written

A condition on neighbours alone, without a look at the text, under which a written stream is read
back: the leaves are spelled as the scanner spells them, and no siblings stand side by side that
would make a comment, a float or a character literal together.
-/

namespace Unroll

open Pattern

namespace Node

def isName : Node → Bool
  | .ident _ _ => true
  | _ => false

def isNumber : Node → Bool
  | .literal .int _ _ | .literal .float _ _ => true
  | _ => false

/-- The siblings behind a node do not go on where it ends: a quote stands in front of a name, a
joint slash in front of neither a slash nor a star, and an integer in front of no dot and number. -/
def Clears : Node → List Node → Prop
  | .punct char spacing _, rest =>
    (char = charCode '\'' → ∃ next ∈ rest.head?, next.isName = true) ∧
      (char = charCode '/' → spacing = .joint → ∀ next ∈ rest.head?,
        next.isPunct (charCode '/') = false ∧ next.isPunct (charCode '*') = false)
  | .literal .int _ _, rest => ∀ dot ∈ rest.head?, dot.isPunct (charCode '.') = true →
      ∀ number ∈ rest.tail.head?, number.isNumber = false
  | _, _ => True

end Node

mutual

def Node.Printable : Node → Prop
  | .ident name _ => Matches Rule.name name
  | .literal kind raw _ => Piece.SpellsLiteral kind raw
  | .punct char _ _ => Piece.IsMark char
  | .group delimiter children _ =>
    (∃ bracket, delimiter = .bracket bracket) ∧ Stream.Printable children

def Stream.Printable : List Node → Prop
  | [] => True
  | node :: rest => node.Printable ∧ node.Clears rest ∧ Stream.Printable rest

end

instance (kind : LiteralKind) (raw : Bytes) : Decidable (Piece.SpellsLiteral kind raw) :=
  match kind with
  | .int => inferInstanceAs (Decidable (∃ pattern ∈ Rule.integers, Matches pattern raw))
  | .float => inferInstanceAs (Decidable (Matches Rule.floatLiteral raw))
  | .string => inferInstanceAs (Decidable (Matches Rule.stringLiteral raw))
  | .char => inferInstanceAs (Decidable (Matches Rule.charLiteral raw))
  | .unknown _ => .isFalse id

instance (char : Int32) : Decidable (Piece.IsMark char) :=
  inferInstanceAs (Decidable (∃ mark ∈ Rule.marks, char = Int32.ofNat mark.toNat))

instance (delimiter : Delimiter) : Decidable (∃ bracket, delimiter = .bracket bracket) :=
  match delimiter with
  | .bracket bracket => .isTrue ⟨bracket, rfl⟩
  | .unknown _ => .isFalse nofun

instance (node : Node) (rest : List Node) : Decidable (node.Clears rest) :=
  match node with
  | .punct _ _ _ | .literal .int _ _ => by
    dsimp only [Node.Clears]
    infer_instance
  | .ident _ _ | .group _ _ _ | .literal .float _ _ | .literal .string _ _ | .literal .char _ _
  | .literal (.unknown _) _ _ => .isTrue trivial

mutual

def Node.decidePrintable : (node : Node) → Decidable node.Printable
  | .ident name _ => inferInstanceAs (Decidable (Matches Rule.name name))
  | .literal kind raw _ => inferInstanceAs (Decidable (Piece.SpellsLiteral kind raw))
  | .punct char _ _ => inferInstanceAs (Decidable (Piece.IsMark char))
  | .group delimiter children _ =>
    have := Stream.decidePrintable children
    inferInstanceAs (Decidable
      ((∃ bracket, delimiter = .bracket bracket) ∧ Stream.Printable children))

def Stream.decidePrintable : (stream : List Node) → Decidable (Stream.Printable stream)
  | [] => .isTrue trivial
  | node :: rest =>
    have := node.decidePrintable
    have := Stream.decidePrintable rest
    inferInstanceAs (Decidable (node.Printable ∧ node.Clears rest ∧ Stream.Printable rest))

end

instance (stream : Stream) : Decidable (Stream.Printable stream) := Stream.decidePrintable stream

mutual

theorem Node.Printable.spelled (node : Node) (printable : node.Printable) : node.Spelled := by
  cases node with
  | ident name span => exact (Node.spelled_ident_iff _ _).mpr printable
  | literal kind raw span => exact (Node.spelled_literal_iff _ _ _).mpr printable
  | punct char spacing span => exact (Node.spelled_punct_iff _ _ _).mpr printable
  | group delimiter children span =>
    obtain ⟨isBracket, inside⟩ := printable
    exact (Node.spelled_group_iff _ _ _).mpr ⟨isBracket, Stream.Printable.spelled children inside⟩

theorem Stream.Printable.spelled (stream : List Node) (printable : Stream.Printable stream) :
    Stream.Spelled stream := by
  cases stream with
  | nil =>
    intro piece membership
    cases membership
  | cons node rest =>
    obtain ⟨inNode, -, inRest⟩ := printable
    exact (Stream.spelled_cons_iff _ _).mpr
      ⟨Node.Printable.spelled node inNode, Stream.Printable.spelled rest inRest⟩

end

/-! What a first byte tells about a node. -/

theorem Node.isPunct_of_write {node : Node} (spelled : node.Spelled) {mark : UInt8}
    (isMark : mark ∈ Rule.marks) (notQuote : mark ≠ byte '\'') {text rest : Bytes}
    (written : node.write text = mark :: rest) :
    node.isPunct (Int32.ofNat mark.toNat) = true := by
  obtain ⟨piece, b, tail, isFirst, begun, begins⟩ := node.write_begins spelled text
  obtain ⟨rfl, -⟩ := List.cons.inj (begun.symm.trans written)
  have apart := Rule.single_apart b (List.mem_append_left _ isMark)
  have noBracket : ∀ mark ∈ Rule.marks, mark ∉ Rule.brackets := by
    apply Bytes.forall_mem_of_all
    decide
  cases begins with
  | ident starts => simp [apart.1] at starts
  | int digit | float digit => simp [apart.2.1] at digit
  | string => exact absurd rfl apart.2.2.2
  | char => exact absurd rfl notQuote
  | opening => exact absurd ((Piece.mem_brackets_iff _).mpr ⟨_, .inl rfl⟩) (noBracket _ isMark)
  | closing => exact absurd ((Piece.mem_brackets_iff _).mpr ⟨_, .inr rfl⟩) (noBracket _ isMark)
  | punct _ =>
    cases node with
    | ident | literal | group => cases isFirst
    | punct char spacing span =>
      cases isFirst
      simp [Node.isPunct]

theorem Node.isNumber_of_write {node : Node} (spelled : node.Spelled) {digit : UInt8}
    (isDigit : Rule.isDigit digit = true) {text rest : Bytes}
    (written : node.write text = digit :: rest) : node.isNumber = true := by
  obtain ⟨piece, b, tail, isFirst, begun, begins⟩ := node.write_begins spelled text
  obtain ⟨rfl, -⟩ := List.cons.inj (begun.symm.trans written)
  have apart := Rule.isDigit_apart isDigit
  cases begins with
  | ident starts => simp [apart.1] at starts
  | int | float =>
    cases node with
    | literal =>
      cases isFirst
      rfl
    | ident | punct | group => cases isFirst
  | string => exact absurd rfl apart.2.2.1
  | char => exact absurd rfl apart.2.2.2.1
  | punct isMark =>
    simp [(Rule.single_apart b (List.mem_append_left _ isMark)).2.1] at isDigit
  | @opening bracket | @closing bracket =>
    cases bracket <;> exact absurd isDigit (by decide)

/-- What is written behind a node without a gap, and goes on, is its next sibling. -/
theorem Layout.writeBehind_eq_cons {left : Node} {rest : List Node} {text more : Bytes} {b : UInt8}
    (ends : Layout.Ends text) (goesOn : b ∉ Layout.endBytes)
    (written : Layout.writeBehind (some left) rest text = b :: more) :
    ∃ next others, rest = next :: others ∧ Layout.blankBetween left next = false ∧
      next.write (Layout.writeBehind (some next) others text) = b :: more := by
  cases rest with
  | nil =>
    rw [Layout.writeBehind] at written
    rw [written] at ends
    exact absurd (ends b rfl) goesOn
  | cons next others =>
    refine ⟨next, others, rfl, ?_⟩
    rw [Layout.writeBehind, Layout.gap] at written
    split at written
    · obtain ⟨rfl, -⟩ := List.cons.inj written
      exact absurd (by decide) goesOn
    · rename_i glued
      exact ⟨Bool.eq_false_iff.mpr glued, written⟩

/-! The three ways to run into a sibling. -/

theorem Node.Clears.not_opensComment {spacing : Spacing} {span : Span} {rest : List Node}
    (clears : (Node.punct (charCode '/') spacing span).Clears rest)
    (spelled : Stream.Spelled rest) {text : Bytes} (ends : Layout.Ends text) :
    ¬ Rule.OpensComment
      (Layout.writeBehind (some (.punct (charCode '/') spacing span)) rest text) := by
  intro opens
  have starts : ∃ mark more, (mark = byte '/' ∨ mark = byte '*') ∧
      Layout.writeBehind (some (.punct (charCode '/') spacing span)) rest text = mark :: more := by
    obtain ⟨more, written | ⟨written, -⟩⟩ := opens
    · exact ⟨byte '/', more, .inl rfl, written⟩
    · exact ⟨byte '*', more, .inr rfl, written⟩
  obtain ⟨mark, more, isOne, written⟩ := starts
  have checked : mark ∈ Rule.marks ∧ mark ≠ byte '\'' ∧ mark ∉ Layout.endBytes ∧
      Layout.gluesBackward (Int32.ofNat mark.toNat) = false := by
    rcases isOne with rfl | rfl
    · decide
    · decide
  obtain ⟨isMark, notQuote, goesOn, notGlued⟩ := checked
  obtain ⟨next, others, rfl, glued, inNext⟩ := Layout.writeBehind_eq_cons ends goesOn written
  have inSpelled := ((Stream.spelled_cons_iff _ _).mp spelled).1
  have isNext := Node.isPunct_of_write inSpelled isMark notQuote inNext
  cases spacing with
  | alone =>
    cases next with
    | ident | literal | group => cases isNext
    | punct char spacing' span' =>
      rw [Node.isPunct, beq_iff_eq] at isNext
      have separated : Layout.blankBetween (.punct (charCode '/') .alone span)
          (.punct char spacing' span') = true := by
        simp only [Layout.blankBetween, Layout.blankBehind, Layout.blankBefore, isNext, notGlued]
        decide
      rw [separated] at glued
      cases glued
  | joint =>
    obtain ⟨noSlash, noStar⟩ := clears.2 rfl rfl next rfl
    rcases isOne with rfl | rfl
    · exact absurd isNext (Bool.eq_false_iff.mp noSlash)
    · exact absurd isNext (Bool.eq_false_iff.mp noStar)

theorem Node.Clears.not_opensFloat {raw : Bytes} {span : Span} {rest : List Node}
    (clears : (Node.literal .int raw span).Clears rest) (spelled : Stream.Spelled rest)
    {text : Bytes} (ends : Layout.Ends text) :
    ¬ Piece.OpensFloat raw
      (Layout.writeBehind (some (.literal .int raw span)) rest text) := by
  rintro ⟨-, digit, more, isDigit, written⟩
  obtain ⟨dot, others, rfl, -, inDot⟩ := Layout.writeBehind_eq_cons ends (by decide) written
  obtain ⟨dotSpelled, othersSpelled⟩ := (Stream.spelled_cons_iff _ _).mp spelled
  have isDot : dot.isPunct (charCode '.') = true :=
    Node.isPunct_of_write dotSpelled (by decide) (by decide) inDot
  cases dot with
  | ident | literal | group => cases isDot
  | punct char spacing span' =>
    have isChar := isDot
    rw [Node.isPunct, beq_iff_eq] at isChar
    subst isChar
    have behindDot : Layout.writeBehind (some (.punct (charCode '.') spacing span')) others text =
        digit :: more := (List.cons.inj inDot).2
    have goesOn : digit ∉ Layout.endBytes := by
      intro isEnd
      have checked : ∀ b ∈ Layout.endBytes, Rule.isDigit b = false := by
        apply Bytes.forall_mem_of_all
        decide
      rw [checked digit isEnd] at isDigit
      cases isDigit
    obtain ⟨number, others', rfl, -, inNumber⟩ :=
      Layout.writeBehind_eq_cons ends goesOn behindDot
    have numberSpelled := ((Stream.spelled_cons_iff _ _).mp othersSpelled).1
    have isNumber := Node.isNumber_of_write numberSpelled isDigit inNumber
    exact absurd isNumber (Bool.eq_false_iff.mp (clears _ rfl isDot number rfl))

theorem Node.Clears.not_opensChar {spacing : Spacing} {span : Span} {rest : List Node}
    (clears : (Node.punct (charCode '\'') spacing span).Clears rest)
    (spelled : Stream.Spelled rest) {text : Bytes} (ends : Layout.Ends text) :
    ¬ Piece.OpensChar
      (Layout.writeBehind (some (.punct (charCode '\'') spacing span)) rest text) := by
  rintro ⟨lexeme, isStart, matched⟩
  obtain ⟨next, isNext, isName⟩ := clears.1 rfl
  cases rest with
  | nil => cases isNext
  | cons next others =>
    cases isNext
    cases next with
    | literal | punct | group => cases isName
    | ident name span' =>
      obtain ⟨nextSpelled, othersSpelled⟩ := (Stream.spelled_cons_iff _ _).mp spelled
      have inName := (Node.spelled_ident_iff _ _).mp nextSpelled
      have boundary : Piece.Boundary
          (Layout.writeBehind (some (.ident name span')) others text) :=
        Layout.boundary_writeBehind rfl others othersSpelled ends.boundary
      have written : Layout.writeBehind (some (.punct (charCode '\'') spacing span))
          (.ident name span' :: others) text =
            name ++ Layout.writeBehind (some (.ident name span')) others text := by
        cases spacing <;> rfl
      rw [written] at isStart
      obtain ⟨b, more, starts, continues, rfl⟩ := (Rule.name_iff name).mp inName
      obtain ⟨c, tail, rfl⟩ := Rule.onlySeq_shape rfl matched
      obtain ⟨rfl, isTail⟩ := List.cons_prefix_cons.mp (List.cons_prefix_cons.mp isStart).2
      rw [Rule.charLiteral_of_startsName starts matched] at isTail
      cases more with
      | nil => exact (Piece.boundary_apart boundary isTail).2.2.2 rfl
      | cons second more =>
        have isQuote := (List.cons_prefix_cons.mp isTail).1
        have continued := continues second (by simp)
        rw [← isQuote] at continued
        exact absurd continued (by decide)

mutual

theorem Node.Printable.apartFrom (node : Node) (printable : node.Printable) (rest : List Node)
    (clears : node.Clears rest) (spelled : Stream.Spelled rest) {text : Bytes}
    (ends : Layout.Ends text) :
    node.ApartFrom (Layout.writeBehind (some node) rest text) := by
  cases node with
  | ident name span => trivial
  | literal kind raw span =>
    cases kind with
    | int => exact clears.not_opensFloat spelled ends
    | float | string | char | unknown => trivial
  | punct char spacing span =>
    constructor
    · rintro rfl
      exact clears.not_opensComment spelled ends
    · rintro rfl
      exact clears.not_opensChar spelled ends
  | group delimiter children span =>
    obtain ⟨⟨bracket, rfl⟩, inside⟩ := printable
    exact Stream.Printable.apartFrom children inside (Layout.ends_closer bracket children _)

theorem Stream.Printable.apartFrom (stream : List Node) (printable : Stream.Printable stream)
    {text : Bytes} (ends : Layout.Ends text) : Stream.ApartFrom stream text := by
  cases stream with
  | nil => trivial
  | cons node rest =>
    obtain ⟨inNode, clears, inRest⟩ := printable
    have spelled := Stream.Printable.spelled rest inRest
    exact ⟨Node.Printable.apartFrom node inNode rest clears spelled ends,
      Stream.Printable.apartFrom rest inRest ends⟩

end

/-- A printable stream has a text, and the text is parsed to the same stream. -/
theorem printable_text_parses (stream : Stream) (printable : Stream.Printable stream) :
    ∃ text back, stream.text = .ok text ∧ Stream.parse text = .ok back ∧
      Stream.alike back stream = true := by
  have ends : Layout.Ends [] := fun b impossible => nomatch impossible
  have apart : stream.Apart := Stream.Printable.apartFrom stream printable ends
  have spelled := Stream.Printable.spelled stream printable
  obtain ⟨text, written, reading⟩ := Stream.text_parse_iff spelled
  obtain ⟨back, parsed, alike⟩ := reading.mpr apart
  exact ⟨text, back, written, parsed, alike⟩

/-- A label, and a block in which dots stand between integers and a slash in front of a star. -/
def labelledBlock : Stream :=
  [.punct (charCode '\'') .joint Span.null, .ident (word ['a']) Span.null,
    .punct (charCode ':') .alone Span.null,
    .group .curly [.ident (word ['f']) Span.null,
      .group .round [.literal .int (word ['1']) Span.null, .punct (charCode '.') .joint Span.null,
        .punct (charCode '.') .alone Span.null, .literal .int (word ['2']) Span.null] Span.null,
      .punct (charCode '/') .alone Span.null, .punct (charCode '*') .joint Span.null,
      .literal .string (word ['"', '*', '/', '"']) Span.null] Span.null]

theorem labelledBlock_text_parses :
    Stream.Printable labelledBlock ∧ ∃ text back, labelledBlock.text = .ok text ∧
      Stream.parse text = .ok back ∧ Stream.alike back labelledBlock = true := by
  have printable : Stream.Printable labelledBlock := by decide
  exact ⟨printable, printable_text_parses labelledBlock printable⟩

end Unroll
