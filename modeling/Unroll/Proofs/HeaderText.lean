import Unroll.Proofs.LoopGrammar
import Unroll.Proofs.NumeralReading

set_option autoImplicit false

/-!
# The text of a header

The text of a header is read back as the header. Names and numbers end where the blanks and dots
around them begin, and the first number is not taken for a float, since two dots stand behind it.
The dots and the equals sign touch each other in the text, so the tree has them joint.
-/

namespace Unroll

open Pattern

/-! A source without brackets. -/

namespace Assembly

theorem run_leaves {tokens : List Token} (running : ∀ token ∈ tokens, token.kind ≠ .eof)
    (leaves : ∀ token ∈ tokens, token.kind.isDelimiter = false) (pulled : Nat) (nodes : List Node)
    (events : List Event) :
    run pulled none [] nodes (tokens.map .token ++ events) =
      run (pulled + tokens.length) none []
        (tokens.foldl (fun before token => addLeaf token before) nodes) events := by
  induction tokens generalizing pulled nodes with
  | nil => rfl
  | cons token tokens inductionHypothesis =>
    obtain ⟨notEnd, running⟩ := List.forall_mem_cons.mp running
    obtain ⟨notBracket, leaves⟩ := List.forall_mem_cons.mp leaves
    have step : run pulled none [] nodes (.token token :: (tokens.map .token ++ events)) =
        run (pulled + 1) none [] (addLeaf token nodes) (tokens.map .token ++ events) := by
      cases kind : token.kind with
      | eof => exact absurd kind notEnd
      | opening | closing => simp [kind, Kind.isDelimiter] at notBracket
      | ident | int | float | string | char | mark => simp only [run, kind]
    rw [List.map_cons, List.cons_append, step, inductionHypothesis running leaves,
      List.foldl_cons, List.length_cons, Nat.add_assoc, Nat.add_comm 1]

end Assembly

theorem Stream.parse_of_scans {source : Bytes} {tokens : List Token} {stop : Nat}
    (scanned : Scans 0 source tokens stop [])
    (leaves : ∀ token ∈ tokens, token.kind.isDelimiter = false) :
    Stream.parse source =
      .ok (tokens.foldl (fun before token => Assembly.addLeaf token before) []).reverse := by
  rw [Stream.parse, Assembly.ofEvents, Scanner.ofSource, scanned.events_append,
    Scanner.events_of_halted source (.inl rfl), Assembly.run_leaves scanned.kind_ne_eof leaves]
  rfl

/-- The digits of a value are read as an integer, unless a dot and another digit follow. -/
theorem Scans.decimal (value : UInt64) {behind : Bytes} (boundary : Piece.Boundary behind)
    (noFloat : ¬ Piece.OpensFloat (Bytes.decimal value.toNat) behind) (offset : Nat) :
    Scans offset (Bytes.decimal value.toNat ++ behind)
      [⟨.int, Bytes.decimal value.toNat, ⟨offset, offset + (Bytes.decimal value.toNat).length⟩⟩]
      (offset + (Bytes.decimal value.toNat).length) behind := by
  obtain ⟨pattern, isInteger, matched⟩ :=
    (Node.spelled_literal_iff _ _ _).mp (Node.spelled_ofValue value Span.null)
  exact .integer isInteger matched boundary noFloat offset

namespace Header

/-- The token of a punctuation character at an offset. -/
def markAt (character : Char) (offset : Nat) : Token :=
  ⟨.ofByte (byte character), [byte character], ⟨offset, offset + 1⟩⟩

/-- No rule reads more than the character itself where a dot or an equals sign stands. -/
theorem longestMatch?_mark {character : Char} (isMark : character = '.' ∨ character = '=')
    (behind : Bytes) :
    longestMatch? Rule.all (byte character :: behind) =
      some ⟨1, .emit (.ofByte (byte character))⟩ := by
  rcases isMark with rfl | rfl <;> cases behind <;> rfl

theorem addLeaf_mark {character : Char} (isMark : character = '.' ∨ character = '=')
    (offset : Nat) (before : List Node) :
    Assembly.addLeaf (markAt character offset) before =
      .punct (charCode character) .alone ⟨offset, offset + 1⟩ :: Assembly.join offset before := by
  rcases isMark with rfl | rfl <;> rfl

/-- The characters of a range operator. -/
def operatorText : Bool → Bytes
  | false => word ['.', '.']
  | true => word ['.', '.', '=']

def operatorTokens (offset : Nat) : Bool → List Token
  | false => [markAt '.' offset, markAt '.' (offset + 1)]
  | true => [markAt '.' offset, markAt '.' (offset + 1), markAt '=' (offset + 2)]

theorem scans_operator (inclusive : Bool) (behind : Bytes) (offset : Nat) :
    Scans offset (operatorText inclusive ++ behind) (operatorTokens offset inclusive)
      (offset + (operatorText inclusive).length) behind := by
  have dot := @longestMatch?_mark '.' (.inl rfl)
  have equals := @longestMatch?_mark '=' (.inr rfl)
  cases inclusive with
  | false => exact .emit (dot _) (.emit (dot _) .stay)
  | true => exact .emit (dot _) (.emit (dot _) (.emit (equals _) .stay))

theorem text_eq (header : Header) :
    header.text = header.variableName ++ Bytes.blank :: (keyword ++ Bytes.blank ::
      (Bytes.decimal header.range.start.toNat ++ (operatorText header.range.inclusive ++
        Bytes.decimal header.range.stop.toNat))) := by
  have keywordText : utf8 " in " = Bytes.blank :: (keyword ++ [Bytes.blank]) := by
    with_unfolding_all rfl
  have dots : utf8 ".." = word ['.', '.'] := by with_unfolding_all rfl
  have equals : utf8 "=" = word ['='] := by with_unfolding_all rfl
  rw [text, keywordText, dots, equals]
  cases header.range.inclusive with
  | false => simp [operatorText]
  | true => simp [operatorText, word]

/-- Every range operator begins with two dots. -/
theorem exists_operatorText_eq (inclusive : Bool) :
    ∃ rest, operatorText inclusive = byte '.' :: byte '.' :: rest := by
  cases inclusive with
  | false => exact ⟨[], rfl⟩
  | true => exact ⟨[byte '='], rfl⟩

theorem boundary_operator (inclusive : Bool) (behind : Bytes) :
    Piece.Boundary (operatorText inclusive ++ behind) := by
  obtain ⟨rest, isOperator⟩ := exists_operatorText_eq inclusive
  rw [isOperator]
  exact Piece.boundary_cons (by decide) _

/-- A number in front of a range operator does not go on as a float. -/
theorem not_opensFloat_operator (raw : Bytes) (inclusive : Bool) (behind : Bytes) :
    ¬ Piece.OpensFloat raw (operatorText inclusive ++ behind) := by
  obtain ⟨rest, isOperator⟩ := exists_operatorText_eq inclusive
  rw [isOperator]
  rintro ⟨-, digit, others, isDigit, isBehind⟩
  rw [← (List.cons.inj (List.cons.inj isBehind).2).1] at isDigit
  exact absurd isDigit (by decide)

theorem scans_range (range : Range) (offset : Nat) :
    ∃ first operator last stop,
      Scans offset (Bytes.decimal range.start.toNat ++ (operatorText range.inclusive ++
          Bytes.decimal range.stop.toNat))
        (⟨.int, Bytes.decimal range.start.toNat, first⟩ ::
          (operatorTokens operator range.inclusive ++
            [⟨.int, Bytes.decimal range.stop.toNat, last⟩])) stop [] := by
  have start := Scans.decimal range.start
    (boundary_operator range.inclusive (Bytes.decimal range.stop.toNat))
    (not_opensFloat_operator _ _ _) offset
  have operator := scans_operator range.inclusive (Bytes.decimal range.stop.toNat)
    (offset + (Bytes.decimal range.start.toNat).length)
  have last := Scans.decimal range.stop Piece.boundary_nil (Piece.not_opensFloat_nil _)
    (offset + (Bytes.decimal range.start.toNat).length + (operatorText range.inclusive).length)
  rw [List.append_nil] at last
  exact ⟨_, _, _, _, start.append (operator.append last)⟩

/-- The text of a header is scanned without its blanks. -/
theorem scans_text (header : Header) (isName : Matches Rule.name header.variableName) :
    ∃ keywordSpan first operator last stop,
      Scans 0 header.text
        (⟨.ident, header.variableName, ⟨0, header.variableName.length⟩⟩ ::
          ⟨.ident, keyword, keywordSpan⟩ ::
          ⟨.int, Bytes.decimal header.range.start.toNat, first⟩ ::
          (operatorTokens operator header.range.inclusive ++
            [⟨.int, Bytes.decimal header.range.stop.toNat, last⟩])) stop [] := by
  have isKeyword : Matches Rule.name keyword := by decide
  have blankEnds (behind : Bytes) : Piece.Boundary (Bytes.blank :: behind) :=
    Piece.boundary_cons (by decide) behind
  have letterNext (behind : Bytes) : ∀ b ∈ (keyword ++ behind).head?, Rule.isSpace b = false := by
    intro b isFirst
    rw [← Option.some.inj isFirst]
    decide
  have digitNext (behind : Bytes) :
      ∀ b ∈ (Bytes.decimal header.range.start.toNat ++ behind).head?, Rule.isSpace b = false := by
    intro b isFirst
    rw [List.head?_append_of_ne_nil _ (Bytes.decimal_ne_nil _)] at isFirst
    have isDigit := Bytes.isDigit_decimal _ b (List.mem_of_mem_head? isFirst)
    exact (Rule.isDigit_apart isDigit).2.1
  have name (behind : Bytes) := Scans.name isName (blankEnds behind) 0
  simp only [Nat.zero_add] at name
  obtain ⟨first, operator, last, stop, inRange⟩ :=
    scans_range header.range (header.variableName.length + 1 + keyword.length + 1)
  have behindName := (Scans.blank (letterNext _) header.variableName.length).append
    ((Scans.name isKeyword (blankEnds _) _).append ((Scans.blank (digitNext _) _).append inRange))
  rw [text_eq]
  exact ⟨_, first, operator, last, stop, (name _).append behindName⟩

theorem not_isDelimiter_operator (offset : Nat) (inclusive : Bool) :
    ∀ token ∈ operatorTokens offset inclusive, token.kind.isDelimiter = false := by
  cases inclusive with
  | false =>
    intro token membership
    rcases List.mem_pair.mp membership with rfl | rfl <;> rfl
  | true =>
    intro token membership
    simp only [operatorTokens, List.mem_cons, List.not_mem_nil, or_false] at membership
    rcases membership with rfl | rfl | rfl <;> rfl

/-- Behind a literal, characters that touch each other make a range operator. -/
theorem addLeaf_operator (offset : Nat) (inclusive : Bool) (kind : LiteralKind) (raw : Bytes)
    (span : Span) (before : List Node) :
    ∃ operator, Operator operator inclusive ∧
      (operatorTokens offset inclusive).foldl (fun before token => Assembly.addLeaf token before)
          (.literal kind raw span :: before) =
        operator.reverse ++ .literal kind raw span :: before := by
  have dot := @addLeaf_mark '.' (.inl rfl)
  have equals := @addLeaf_mark '=' (.inr rfl)
  cases inclusive with
  | false =>
    refine ⟨_, .exclusive ⟨offset, offset + 1⟩ ⟨offset + 1, offset + 2⟩ .alone, ?_⟩
    simp [operatorTokens, dot, Assembly.join]
  | true =>
    refine ⟨_, .inclusive ⟨offset, offset + 1⟩ ⟨offset + 1, offset + 2⟩ ⟨offset + 2, offset + 3⟩
      .alone, ?_⟩
    simp [operatorTokens, dot, equals, Assembly.join]

end Header

/-- The text of a header whose variable is a name is parsed, and the nodes are read as the header,
whatever follows them. Only the place of the variable is that in the text. -/
theorem header_text_reads_back (header : Header) (isName : Matches Rule.name header.variableName) :
    ∃ nodes, Stream.parse header.text = .ok nodes ∧
      ∀ atEnd, Header.ofNodes nodes atEnd =
        .ok { header with variableSpan := ⟨0, header.variableName.length⟩ } := by
  obtain ⟨keywordSpan, first, place, last, stop, scanned⟩ := header.scans_text isName
  obtain ⟨operator, isOperator, folded⟩ := Header.addLeaf_operator place header.range.inclusive
    .int (Bytes.decimal header.range.start.toNat) first
    [.ident Header.keyword keywordSpan,
      .ident header.variableName ⟨0, header.variableName.length⟩]
  have written : Header.Written
      (.ident header.variableName ⟨0, header.variableName.length⟩ ::
        .ident Header.keyword keywordSpan :: .ofValue header.range.start first ::
        (operator ++ [.ofValue header.range.stop last]))
      { header with variableSpan := ⟨0, header.variableName.length⟩ } :=
    ⟨_, _, .literal first (Numeral.read_decimal _), .literal last (Numeral.read_decimal _),
      .nodes keywordSpan isOperator⟩
  refine ⟨_, ?_, fun atEnd => Header.ofNodes_of_written atEnd written⟩
  have leaves := Header.not_isDelimiter_operator place header.range.inclusive
  have parsed := Stream.parse_of_scans scanned
    (List.forall_mem_cons.mpr ⟨rfl, List.forall_mem_cons.mpr ⟨rfl, List.forall_mem_cons.mpr
      ⟨rfl, List.forall_mem_append.mpr ⟨leaves, List.forall_mem_singleton.mpr rfl⟩⟩⟩⟩)
  simp only [List.foldl_cons, List.foldl_append, Assembly.addLeaf, List.foldl_nil] at parsed folded
  rw [parsed, folded]
  simp [Node.ofValue]

/-- A header whose variable is called as its keyword, over all numbers of 64 bits. -/
def keywordHeader : Header := ⟨Header.keyword, Span.null, 0, 0xffffffffffffffff, true⟩

theorem keywordHeader_text_reads_back :
    keywordHeader.text = word "in in 0..=18446744073709551615".toList ∧
      Matches Rule.name keywordHeader.variableName ∧
      ∃ nodes, Stream.parse keywordHeader.text = .ok nodes ∧
        ∀ atEnd, Header.ofNodes nodes atEnd =
          .ok { keywordHeader with variableSpan := ⟨0, 2⟩ } := by
  have isName : Matches Rule.name keywordHeader.variableName := by decide
  exact ⟨by with_unfolding_all rfl, isName, header_text_reads_back keywordHeader isName⟩

end Unroll
