import Unroll.Proofs.PieceReading
import Unroll.Proofs.TreeAssembly

set_option autoImplicit false

/-!
# Reading a text as pieces

`ReadsAs` is scanning to the end of a text with the spans left out. A source is parsed to a stream
exactly if it reads as the pieces of that stream.
-/

namespace Unroll

open Pattern

/-- The scanner reads the text to its end, as these pieces. -/
inductive ReadsAs : Bytes → List Piece → Prop where
  | nil : ReadsAs [] []
  | skip {text size pieces} : longestMatch? Rule.all text = some ⟨size, .skip⟩ →
      ReadsAs (text.drop size) pieces → ReadsAs text pieces
  | emit {text size kind pieces} : longestMatch? Rule.all text = some ⟨size, .emit kind⟩ →
      ReadsAs (text.drop size) pieces →
      ReadsAs text (Token.piece ⟨kind, text.take size, Span.null⟩ :: pieces)

theorem Scans.readsAs {offset stop : Nat} {text rest : Bytes} {tokens : List Token}
    (scanned : Scans offset text tokens stop rest) {pieces : List Piece}
    (behind : ReadsAs rest pieces) : ReadsAs text (tokens.map Token.piece ++ pieces) := by
  induction scanned with
  | stay => exact behind
  | skip matched _ inductionHypothesis => exact .skip matched (inductionHypothesis behind)
  | emit matched _ inductionHypothesis => exact .emit matched (inductionHypothesis behind)

namespace ReadsAs

/-- What is scanned from the front of a text comes first in what the text reads as. -/
theorem behind_scans {offset stop : Nat} {text rest : Bytes} {tokens : List Token}
    (scanned : Scans offset text tokens stop rest) {pieces : List Piece}
    (reading : ReadsAs text pieces) :
    ∃ later, pieces = tokens.map Token.piece ++ later ∧ ReadsAs rest later := by
  induction scanned generalizing pieces with
  | stay => exact ⟨pieces, rfl, reading⟩
  | skip matched _ inductionHypothesis =>
    cases reading with
    | nil => simp [longestMatch?] at matched
    | skip matched' behind =>
      cases matched.symm.trans matched'
      exact inductionHypothesis behind
    | emit matched' behind => cases matched.symm.trans matched'
  | emit matched _ inductionHypothesis =>
    cases reading with
    | nil => simp [longestMatch?] at matched
    | skip matched' behind => cases matched.symm.trans matched'
    | emit matched' behind =>
      cases matched.symm.trans matched'
      obtain ⟨later, rfl, inRest⟩ := inductionHypothesis behind
      exact ⟨later, rfl, inRest⟩

theorem of_halted {rest : Bytes} (halted : Scanner.Halted rest) {pieces : List Piece}
    (reading : ReadsAs rest pieces) : rest = [] ∧ pieces = [] := by
  have unmatched : longestMatch? Rule.all rest = none := by
    rcases halted with rfl | unmatched
    · rfl
    · exact unmatched
  cases reading with
  | nil => exact ⟨rfl, rfl⟩
  | skip matched _ => cases unmatched.symm.trans matched
  | emit matched _ => cases unmatched.symm.trans matched

/-- A text that reads to its end does so in one way, which is the scanner's. -/
theorem eq_of_scans {offset stop : Nat} {text rest : Bytes} {tokens : List Token}
    (scanned : Scans offset text tokens stop rest) (halted : Scanner.Halted rest)
    {pieces : List Piece} (reading : ReadsAs text pieces) :
    rest = [] ∧ pieces = tokens.map Token.piece := by
  obtain ⟨later, rfl, inRest⟩ := behind_scans scanned reading
  obtain ⟨rfl, rfl⟩ := inRest.of_halted halted
  exact ⟨rfl, List.append_nil _⟩

theorem spelled {text : Bytes} {pieces : List Piece} (reading : ReadsAs text pieces) :
    ∀ piece ∈ pieces, piece.Spelled := by
  obtain ⟨tokens, stop, rest, scanned, halted, -⟩ := Scanner.events_eq (.ofSource text) rfl
  obtain ⟨-, rfl⟩ := reading.eq_of_scans scanned halted
  exact List.forall_mem_map.mpr scanned.spelled

end ReadsAs

/-! Piece by piece. -/

def slashes (pieces : List Piece) : Nat := (pieces.flatMap Piece.text).count (byte '/')

@[simp] theorem slashes_cons (piece : Piece) (pieces : List Piece) :
    slashes (piece :: pieces) = piece.text.count (byte '/') + slashes pieces := by
  simp [slashes]

/-- The pieces hold every slash of the text, so no comment can be cut out of it. -/
def KeepsSlashes (text : Bytes) (pieces : List Piece) : Prop :=
  text.count (byte '/') ≤ slashes pieces

namespace KeepsSlashes

theorem piece {text : Bytes} {later : List Piece} (keeps : KeepsSlashes text later)
    (piece : Piece) : KeepsSlashes (piece.text ++ text) (piece :: later) := by
  rw [KeepsSlashes, List.count_append, slashes_cons]
  exact Nat.add_le_add_left keeps _

theorem gap {gap text : Bytes} {later : List Piece} (isGap : gap = [] ∨ gap = [Bytes.blank])
    (keeps : KeepsSlashes text later) : KeepsSlashes (gap ++ text) later := by
  have noSlash : gap.count (byte '/') = 0 := by
    rcases isGap with rfl | rfl
    · rfl
    · rfl
  rw [KeepsSlashes, List.count_append, noSlash, Nat.zero_add]
  exact keeps

end KeepsSlashes

namespace ReadsAs

theorem slashes_le {text : Bytes} {pieces : List Piece} (reading : ReadsAs text pieces) :
    slashes pieces ≤ text.count (byte '/') := by
  induction reading with
  | nil => exact Nat.le_refl 0
  | @skip text size pieces _ _ inductionHypothesis =>
    exact Nat.le_trans inductionHypothesis ((List.drop_sublist size text).count_le _)
  | @emit text size kind pieces matched _ inductionHypothesis =>
    obtain ⟨rule, membership, emits, inRule⟩ :=
      (longestMatch?_eq_some_iff.mp matched).takes.exists_mem
    have isLexeme := (Piece.spelled_of_matches membership emits inRule Span.null).2
    have split : text.count (byte '/') =
        (text.take size).count (byte '/') + (text.drop size).count (byte '/') := by
      rw [← List.count_append, List.take_append_drop]
    rw [slashes_cons, isLexeme, split]
    exact Nat.add_le_add_left inductionHypothesis _

/-- A text that starts with anything but white space and is skipped at first loses a slash. -/
theorem count_drop_lt_of_skip {b : UInt8} {rest : Bytes} {size : Nat}
    (noSpace : Rule.isSpace b = false)
    (matched : longestMatch? Rule.all (b :: rest) = some ⟨size, .skip⟩) :
    ((b :: rest).drop size).count (byte '/') < (b :: rest).count (byte '/') := by
  have longest := longestMatch?_eq_some_iff.mp matched
  obtain ⟨rule, membership, skips, inRule⟩ := longest.takes.exists_mem
  cases size with
  | zero => exact absurd longest.positive (Nat.lt_irrefl 0)
  | succ size =>
    have competes : Rule.Competes rule b (rest.take size) := Rule.competes membership inRule
    have isSlash : b = byte '/' := by
      generalize rest.take size = tail at competes
      cases competes with
      | lineComment | blockComment => rfl
      | whiteSpace space => simp [noSpace] at space
      | string | char | name | integer | float | single => cases skips
    rw [isSlash, List.drop_succ_cons, List.count_cons_self]
    exact Nat.lt_succ_of_le ((List.drop_sublist size rest).count_le _)

/-- A text that starts with a piece reads as that piece exactly if the piece is apart from the
rest. -/
theorem piece_iff {piece : Piece} {behind : Bytes} {later : List Piece} (spelled : piece.Spelled)
    (boundary : piece.isWord = true → Piece.Boundary behind)
    (keeps : KeepsSlashes behind later) :
    ReadsAs (piece.text ++ behind) (piece :: later) ↔
      piece.Apart behind ∧ ReadsAs behind later := by
  rw [← Piece.reads_iff spelled boundary]
  constructor
  · intro reading
    generalize whole : piece.text ++ behind = text at reading
    cases reading with
    | @skip text size pieces matched rest =>
      -- only a comment could be skipped here, and with it a slash that the pieces still hold
      obtain ⟨b, tail, isText, begins⟩ := spelled.begins
      have starts : text = b :: (tail ++ behind) := by rw [← whole, isText, List.cons_append]
      rw [starts] at matched
      have lost := count_drop_lt_of_skip begins.not_isSpace matched
      rw [← starts] at lost
      have kept := keeps.piece piece
      rw [whole] at kept
      exact absurd (Nat.le_trans kept rest.slashes_le) (Nat.not_le_of_lt lost)
    | @emit text size kind pieces matched rest =>
      have longest := longestMatch?_eq_some_iff.mp matched
      obtain ⟨rule, membership, emits, inRule⟩ := longest.takes.exists_mem
      have isLexeme := (Piece.spelled_of_matches membership emits inRule Span.null).2
      have isRest : text.drop size = behind := by
        have split := (List.take_append_drop size text).trans whole.symm
        rw [isLexeme] at split
        exact List.append_cancel_left split
      have isSize : (text.take size).length = size := List.length_take_of_le longest.within
      refine ⟨⟨kind, ?_, ?_⟩, isRest ▸ rest⟩
      · rw [whole, isLexeme, isSize]
        exact matched
      · rw [isLexeme]
  · rintro ⟨⟨kind, matched, isPiece⟩, reading⟩
    have step := @emit _ _ _ later matched (by rwa [List.drop_left])
    rwa [List.take_left, isPiece] at step

/-- A blank in front of anything but white space is skipped. -/
theorem blank_iff {text : Bytes} (noSpace : ∀ b ∈ text.head?, Rule.isSpace b = false)
    (pieces : List Piece) : ReadsAs (Bytes.blank :: text) pieces ↔ ReadsAs text pieces := by
  have matched := longestMatch?_blank noSpace
  constructor
  · intro reading
    cases reading with
    | skip matched' rest =>
      cases matched.symm.trans matched'
      exact rest
    | emit matched' rest => cases matched.symm.trans matched'
  · exact fun reading => .skip matched reading

theorem gap_iff {gap text : Bytes} (isGap : gap = [] ∨ gap = [Bytes.blank])
    (noSpace : ∀ b ∈ text.head?, Rule.isSpace b = false) (pieces : List Piece) :
    ReadsAs (gap ++ text) pieces ↔ ReadsAs text pieces := by
  rcases isGap with rfl | rfl
  · exact Iff.rfl
  · exact blank_iff noSpace pieces

theorem opening_iff (bracket : Bracket) {text : Bytes} {later : List Piece}
    (keeps : KeepsSlashes text later) :
    ReadsAs (bracket.opener :: text) (.opening (.bracket bracket) :: later) ↔
      ReadsAs text later := by
  have isSpelled : (Piece.opening (.bracket bracket)).Spelled := ⟨bracket, rfl⟩
  exact (piece_iff isSpelled (fun isWord => nomatch isWord) keeps).trans (and_iff_right trivial)

theorem closing_iff (bracket : Bracket) {text : Bytes} {later : List Piece}
    (keeps : KeepsSlashes text later) :
    ReadsAs (bracket.closer :: text) (.closing (.bracket bracket) :: later) ↔
      ReadsAs text later := by
  have isSpelled : (Piece.closing (.bracket bracket)).Spelled := ⟨bracket, rfl⟩
  exact (piece_iff isSpelled (fun isWord => nomatch isWord) keeps).trans (and_iff_right trivial)

end ReadsAs

/-! Brackets. -/

/-- The kind of a bracket, for a piece that is one. -/
def Piece.bracketKind? : Piece → Option Kind
  | .opening (.bracket bracket) => some (.opening bracket)
  | .closing (.bracket bracket) => some (.closing bracket)
  | _ => none

theorem delimiters_eq (tokens : List Token) :
    delimiters tokens = (tokens.map Token.piece).filterMap Piece.bracketKind? := by
  induction tokens with
  | nil => rfl
  | cons token tokens inductionHypothesis =>
    rw [List.map_cons, List.filterMap_cons, ← inductionHypothesis]
    obtain ⟨kind, lexeme, span⟩ := token
    cases kind with
    | opening | closing => exact delimiters_cons_of_isDelimiter rfl tokens
    | eof | ident | int | float | string | char | mark =>
      exact delimiters_cons_of_not_isDelimiter rfl tokens

/-- Every piece is one that the scanner could have read. -/
def Stream.Spelled (stream : Stream) : Prop := ∀ piece ∈ Stream.pieces stream, piece.Spelled

def Node.Spelled (node : Node) : Prop := ∀ piece ∈ node.pieces, piece.Spelled

theorem Stream.spelled_cons_iff (node : Node) (rest : Stream) :
    Stream.Spelled (node :: rest) ↔ node.Spelled ∧ Stream.Spelled rest := by
  simp only [Stream.Spelled, Node.Spelled, Stream.pieces, List.forall_mem_append]

theorem Node.spelled_ident_iff (name : Bytes) (span : Span) :
    (Node.ident name span).Spelled ↔ Matches Rule.name name := by
  simp only [Node.Spelled, Node.pieces, List.forall_mem_singleton, Piece.Spelled]

theorem Node.spelled_literal_iff (kind : LiteralKind) (raw : Bytes) (span : Span) :
    (Node.literal kind raw span).Spelled ↔ Piece.SpellsLiteral kind raw := by
  simp only [Node.Spelled, Node.pieces, List.forall_mem_singleton, Piece.Spelled]

theorem Node.spelled_punct_iff (char : Int32) (spacing : Spacing) (span : Span) :
    (Node.punct char spacing span).Spelled ↔ Piece.IsMark char := by
  simp only [Node.Spelled, Node.pieces, List.forall_mem_singleton, Piece.Spelled]

/-- The brackets of a group are known, and its children are spelled. -/
theorem Node.spelled_group_iff (delimiter : Delimiter) (children : Stream) (span : Span) :
    (Node.group delimiter children span).Spelled ↔
      (∃ bracket, delimiter = .bracket bracket) ∧ Stream.Spelled children := by
  simp only [Node.Spelled, Stream.Spelled, Node.pieces, List.cons_append, List.forall_mem_cons,
    List.forall_mem_append, List.not_mem_nil, IsEmpty.forall_iff, implies_true, and_true,
    Piece.Spelled]
  constructor
  · rintro ⟨isBracket, inside, -⟩
    exact ⟨isBracket, inside⟩
  · rintro ⟨isBracket, inside⟩
    exact ⟨isBracket, inside, isBracket⟩

mutual

theorem Node.wellNested_pieces (node : Node) (spelled : node.Spelled) :
    WellNested (node.pieces.filterMap Piece.bracketKind?) := by
  cases node with
  | ident | literal | punct => exact .nil
  | group delimiter children span =>
    obtain ⟨⟨bracket, rfl⟩, inside⟩ := (Node.spelled_group_iff _ _ _).mp spelled
    have nested := Stream.wellNested_pieces children inside
    simp only [Node.pieces, List.cons_append, List.filterMap_cons, List.filterMap_append,
      Piece.bracketKind?, List.filterMap_nil]
    exact .wrap nested .nil

theorem Stream.wellNested_pieces (stream : List Node) (spelled : Stream.Spelled stream) :
    WellNested ((Stream.pieces stream).filterMap Piece.bracketKind?) := by
  cases stream with
  | nil => exact .nil
  | cons node rest =>
    obtain ⟨inNode, inRest⟩ := (Stream.spelled_cons_iff node rest).mp spelled
    rw [Stream.pieces, List.filterMap_append]
    exact (node.wellNested_pieces inNode).append (Stream.wellNested_pieces rest inRest)

end

/-! Parsing. -/

/-- Whether a fault is reported in front of the first end. -/
def reports : List Event → Bool
  | [] => false
  | .report _ :: _ => true
  | .token token :: events => token.kind != .eof && reports events

theorem reports_append {tokens : List Token} (running : ∀ token ∈ tokens, token.kind ≠ .eof)
    (events : List Event) : reports (tokens.map .token ++ events) = reports events := by
  induction tokens with
  | nil => rfl
  | cons token tokens inductionHypothesis =>
    obtain ⟨first, others⟩ := List.forall_mem_cons.mp running
    simp [reports, first, inductionHypothesis others]

theorem Assembly.run_ne_ok (events : List Event) {pulled : Nat} {reported : Option Fault}
    {stack : List OpenGroup} {nodes : List Node} {stream : Stream}
    (faulty : (reported.isSome || reports events) = true) :
    (run pulled reported stack nodes events).result ≠ .ok stream := by
  induction events generalizing pulled reported stack nodes with
  | nil =>
    cases reported with
    | none => cases faulty
    | some fault => simp [run, finish]
  | cons event events inductionHypothesis =>
    cases event with
    | report fault => exact inductionHypothesis (by simp)
    | token token =>
      by_cases isEnd : token.kind = .eof
      · cases reported with
        | none => simp [reports, isEnd] at faulty
        | some fault => simp [run_end isEnd, finish]
      · rcases run_token isEnd stack nodes with ⟨problem, -, refused⟩ | ⟨stack', nodes', -, read⟩
        · simp [refused]
        · rw [read]
          exact inductionHypothesis (by simpa [reports, isEnd] using faulty)

namespace Stream

theorem untilEnd_ending {tokens : List Token} (running : ∀ token ∈ tokens, token.kind ≠ .eof) :
    untilEnd (tokens ++ [Token.ending]) = tokens := by
  rw [untilEnd, List.takeWhile_append_of_pos (by simpa using running)]
  simp [Token.ending]

/-- A source that is parsed is scanned to its end, and its tokens fold into the stream. -/
theorem exists_scans_of_parse {source : Bytes} {stream : Stream}
    (parsed : Stream.parse source = .ok stream) :
    ∃ tokens stop, Scans 0 source tokens stop [] ∧ Folds tokens stream := by
  obtain ⟨tokens, stop, rest, scanned, -, events⟩ :=
    Scanner.events_eq (Scanner.ofSource source) rfl
  have running := scanned.kind_ne_eof
  rw [Stream.parse, events] at parsed
  cases rest with
  | nil =>
    have asTokens : tokens.map Event.token ++ Scanner.eventsOf (Token.ending, none) =
        (tokens ++ [Token.ending]).map .token := by simp [Scanner.eventsOf]
    rw [Scanner.lastAnswer, asTokens] at parsed
    have folds := Assembly.folds_of_ofEvents parsed
    rw [untilEnd_ending running] at folds
    exact ⟨tokens, stop, scanned, folds⟩
  | cons b rest =>
    refine absurd parsed (Assembly.run_ne_ok _ ?_)
    rw [reports_append running, Scanner.lastAnswer_of_ne_nil _ _ (by simp)]
    rfl

theorem readsAs_of_parse {source : Bytes} {stream : Stream}
    (parsed : Stream.parse source = .ok stream) : ReadsAs source (Stream.pieces stream) := by
  obtain ⟨tokens, stop, scanned, folds⟩ := exists_scans_of_parse parsed
  have reading := scanned.readsAs .nil
  rw [List.append_nil, ← folds.pieces_eq] at reading
  exact reading

theorem exists_parse_of_readsAs {source : Bytes} {stream : Stream} (spelled : Spelled stream)
    (reading : ReadsAs source (Stream.pieces stream)) :
    ∃ back, Stream.parse source = .ok back ∧ Stream.pieces back = Stream.pieces stream := by
  obtain ⟨tokens, stop, rest, scanned, halted, events⟩ :=
    Scanner.events_eq (Scanner.ofSource source) rfl
  have running := scanned.kind_ne_eof
  obtain ⟨rfl, pieces⟩ := reading.eq_of_scans scanned halted
  have asTokens : (Scanner.ofSource source).events = (tokens ++ [Token.ending]).map .token := by
    rw [events, Scanner.lastAnswer]
    simp [Scanner.eventsOf]
  have nested : WellNested (delimiters (untilEnd (tokens ++ [Token.ending]))) := by
    rw [untilEnd_ending running, delimiters_eq, ← pieces]
    exact wellNested_pieces stream spelled
  obtain ⟨back, parsed⟩ := Assembly.exists_ofEvents_of_wellNested nested
  have folds := Assembly.folds_of_ofEvents parsed
  rw [untilEnd_ending running] at folds
  refine ⟨back, ?_, by rw [folds.pieces_eq, pieces]⟩
  rw [Stream.parse, asTokens]
  exact parsed

/-- A text parses to a stream, up to spans and spacing, exactly if it reads as its pieces. -/
theorem exists_parse_alike_iff {source : Bytes} {stream : Stream} (spelled : Spelled stream) :
    (∃ back, Stream.parse source = .ok back ∧ Stream.alike back stream = true) ↔
      ReadsAs source (Stream.pieces stream) := by
  constructor
  · rintro ⟨back, parsed, alike⟩
    rw [← (Stream.alike_iff_pieces_eq back stream).mp alike]
    exact readsAs_of_parse parsed
  · intro reading
    obtain ⟨back, parsed, pieces⟩ := exists_parse_of_readsAs spelled reading
    exact ⟨back, parsed, (Stream.alike_iff_pieces_eq back stream).mpr pieces⟩

end Stream

end Unroll
