import Unroll.Proofs.Erasure
import Unroll.Proofs.ExpansionReading
import Unroll.Tree.Fingerprint

set_option autoImplicit false

/-!
# Reading descriptions

A description leaves out spans, spacing and the kinds of literals, and texts stand in it as they
are, with the quotes and brackets they hold. Streams that are alike have the same description. The
converse holds for everything the scanner can read: a name or a number holds no quote, and a string
or a character literal shows itself where it ends, so a description can be read from left to right.
The text of a literal also shows its kind.
-/

namespace Unroll

open Pattern

/-- The class of a node, as a description names it. -/
inductive NodeClass where
  | ident
  | literal
  | punct
  | group (delimiter : Delimiter)
  deriving DecidableEq, Repr

namespace NodeClass

def name : NodeClass → Bytes
  | ident => utf8 "ident"
  | literal => utf8 "lit"
  | punct => utf8 "punct"
  | group delimiter => delimiter.name

/-- The classes of nodes that the scanner can read. -/
def known : List NodeClass := [ident, literal, punct, group .round, group .curly, group .square]

theorem group_mem_known (bracket : Bracket) : group (.bracket bracket) ∈ known := by
  cases bracket with
  | round | curly | square => decide

theorem quote_not_mem_name : ∀ nodeClass ∈ known, byte '"' ∉ nodeClass.name := by decide +kernel

theorem eq_of_name_eq : ∀ first ∈ known, ∀ second ∈ known, first.name = second.name →
    first = second := by decide +kernel

end NodeClass

namespace Node

def nodeClass : Node → NodeClass
  | .ident _ _ => .ident
  | .literal _ _ _ => .literal
  | .punct _ _ _ => .punct
  | .group delimiter _ _ => .group delimiter

/-- The nodes inside a group. -/
def inside : Node → Stream
  | .group _ children _ => children
  | _ => []

/-- The text of a node itself; the text of a group is all inside. -/
def ownText : Node → Bytes
  | .ident name _ => name
  | .literal _ raw _ => raw
  | .punct char _ _ => Utf8.encode char.toInt
  | .group _ _ _ => []

theorem sizeOf_inside_le (node : Node) : sizeOf node.inside ≤ sizeOf node := by
  cases node with
  | ident | literal | punct =>
    simp only [inside, List.nil.sizeOf_spec, Node.ident.sizeOf_spec, Node.literal.sizeOf_spec,
      Node.punct.sizeOf_spec]
    omega
  | group delimiter children span =>
    rw [inside, Node.group.sizeOf_spec]
    omega

theorem describe_eq (node : Node) (behind : Bytes) :
    node.describe behind = utf8 "\x7bKids:[" ++
      Stream.describe node.inside (describedAs node.nodeClass.name node.ownText behind) := by
  cases node with
  | ident | literal | punct | group => rfl

theorem Spelled.nodeClass_mem_known {node : Node} (spelled : node.Spelled) :
    node.nodeClass ∈ NodeClass.known := by
  cases node with
  | ident | literal | punct => simp [nodeClass, NodeClass.known]
  | group delimiter children span =>
    obtain ⟨⟨bracket, rfl⟩, -⟩ := (Node.spelled_group_iff _ _ _).mp spelled
    exact NodeClass.group_mem_known bracket

theorem Spelled.inside {node : Node} (spelled : node.Spelled) : Stream.Spelled node.inside := by
  cases node with
  | ident | literal | punct =>
    intro piece membership
    cases membership
  | group delimiter children span => exact ((Node.spelled_group_iff _ _ _).mp spelled).2

end Node

/-! The text of a leaf ends in front of the quote behind it. -/

theorem Bytes.eq_of_quoted {text text' rest rest' : Bytes} (noQuote : byte '"' ∉ text)
    (noQuote' : byte '"' ∉ text')
    (same : text ++ byte '"' :: rest = text' ++ byte '"' :: rest') :
    text = text' ∧ rest = rest' := by
  induction text generalizing text' with
  | nil =>
    cases text' with
    | nil => exact ⟨rfl, (List.cons.inj same).2⟩
    | cons b' tail' =>
      exact absurd (List.cons.inj same).1 (List.ne_of_not_mem_cons noQuote')
  | cons b tail inductionHypothesis =>
    cases text' with
    | nil => exact absurd (List.cons.inj same).1.symm (List.ne_of_not_mem_cons noQuote)
    | cons b' tail' =>
      obtain ⟨rfl, sameTail⟩ := List.cons.inj same
      obtain ⟨rfl, sameRest⟩ := inductionHypothesis (List.not_mem_of_not_mem_cons noQuote)
        (List.not_mem_of_not_mem_cons noQuote') sameTail
      exact ⟨rfl, sameRest⟩

theorem Rule.quote_not_mem_of_continuesName {text : Bytes}
    (continues : ∀ b ∈ text, continuesName b = true) : byte '"' ∉ text := by
  intro membership
  have impossible := continues _ membership
  revert impossible
  decide

theorem Rule.quote_not_mem_floatLiteral {text : Bytes} (matched : Matches floatLiteral text) :
    byte '"' ∉ text := by
  intro membership
  have impossible := floatLiteral_bytes matched _ membership
  revert impossible
  decide

theorem Rule.not_floatLiteral_of_integer {pattern : Pattern} (isInteger : pattern ∈ integers)
    {text : Bytes} (matched : Matches pattern text) : ¬ Matches floatLiteral text := by
  intro isFloat
  have dots := floatLiteral_count_dot isFloat
  rw [List.count_eq_zero.mpr (dot_not_mem_integer isInteger matched)] at dots
  cases dots

namespace Piece

theorem SpellsLiteral.quote_not_mem {kind : LiteralKind} {raw : Bytes}
    (spelled : SpellsLiteral kind raw) (isNumber : kind = .int ∨ kind = .float) :
    byte '"' ∉ raw := by
  rcases isNumber with rfl | rfl
  · obtain ⟨pattern, isInteger, matched⟩ := spelled
    exact Rule.quote_not_mem_of_continuesName (Rule.integer_continuesName isInteger matched)
  · exact Rule.quote_not_mem_floatLiteral spelled

/-- The first byte of a literal shows if it is a number, a string or a character. -/
theorem SpellsLiteral.kinds_of_append_eq {kind kind' : LiteralKind} {raw raw' rest rest' : Bytes}
    (spelled : SpellsLiteral kind raw) (spelled' : SpellsLiteral kind' raw')
    (same : raw ++ rest = raw' ++ rest') :
    kind = .string ∧ kind' = .string ∨ kind = .char ∧ kind' = .char ∨
      (kind = .int ∨ kind = .float) ∧ (kind' = .int ∨ kind' = .float) := by
  have inPiece : (Piece.literal kind raw).Spelled := spelled
  have inPiece' : (Piece.literal kind' raw').Spelled := spelled'
  obtain ⟨b, tail, isText, begins⟩ := inPiece.begins
  obtain ⟨b', tail', isText', begins'⟩ := inPiece'.begins
  have sameByte : b = b' := by
    rw [show raw = b :: tail from isText, show raw' = b' :: tail' from isText'] at same
    exact (List.cons.inj same).1
  cases begins with
  | int digit | float digit =>
    cases begins' with
    | int | float => simp
    | string => exact absurd sameByte (Rule.isDigit_apart digit).2.2.1
    | char => exact absurd sameByte (Rule.isDigit_apart digit).2.2.2.1
  | string =>
    cases begins' with
    | int digit | float digit => exact absurd sameByte.symm (Rule.isDigit_apart digit).2.2.1
    | string => exact .inl ⟨rfl, rfl⟩
    | char => exact absurd sameByte (by decide)
  | char =>
    cases begins' with
    | int digit | float digit => exact absurd sameByte.symm (Rule.isDigit_apart digit).2.2.2.1
    | string => exact absurd sameByte (by decide)
    | char => exact .inr (.inl ⟨rfl, rfl⟩)

theorem SpellsLiteral.kind_eq_of_number {kind kind' : LiteralKind} {raw : Bytes}
    (spelled : SpellsLiteral kind raw) (spelled' : SpellsLiteral kind' raw)
    (isNumber : kind = .int ∨ kind = .float) (isNumber' : kind' = .int ∨ kind' = .float) :
    kind = kind' := by
  rcases isNumber with rfl | rfl
  · obtain ⟨pattern, isInteger, matched⟩ := spelled
    rcases isNumber' with rfl | rfl
    · rfl
    · exact absurd spelled' (Rule.not_floatLiteral_of_integer isInteger matched)
  · rcases isNumber' with rfl | rfl
    · obtain ⟨pattern, isInteger, matched⟩ := spelled'
      exact absurd spelled (Rule.not_floatLiteral_of_integer isInteger matched)
    · rfl

/-- A literal in front of a quote is read in one way only, although it may hold quotes itself. -/
theorem SpellsLiteral.eq_of_quoted {kind kind' : LiteralKind} {raw raw' rest rest' : Bytes}
    (spelled : SpellsLiteral kind raw) (spelled' : SpellsLiteral kind' raw')
    (same : raw ++ byte '"' :: rest = raw' ++ byte '"' :: rest') :
    kind = kind' ∧ raw = raw' ∧ rest = rest' := by
  rcases spelled.kinds_of_append_eq spelled' same with ⟨rfl, rfl⟩ | ⟨rfl, rfl⟩ | ⟨isNumber, isNumber'⟩
  · obtain rfl := Rule.stringLiteral_prefixFree.eq_of_append_eq spelled spelled' same
    exact ⟨rfl, rfl, (List.cons.inj (List.append_cancel_left same)).2⟩
  · obtain rfl := Rule.charLiteral_prefixFree.eq_of_append_eq spelled spelled' same
    exact ⟨rfl, rfl, (List.cons.inj (List.append_cancel_left same)).2⟩
  · have noQuote := spelled.quote_not_mem isNumber
    have noQuote' := spelled'.quote_not_mem isNumber'
    obtain ⟨rfl, sameRest⟩ := Bytes.eq_of_quoted noQuote noQuote' same
    exact ⟨spelled.kind_eq_of_number spelled' isNumber isNumber', rfl, sameRest⟩

end Piece

/-- Nodes of one class with the same text in front of a quote are alike if what they hold is. -/
theorem Node.alike_of_quoted {node node' : Node} (spelled : node.Spelled)
    (spelled' : node'.Spelled) (sameClass : node.nodeClass = node'.nodeClass)
    (alikeInside : Stream.alike node.inside node'.inside = true) {rest rest' : Bytes}
    (same : node.ownText ++ byte '"' :: rest = node'.ownText ++ byte '"' :: rest') :
    node.alike node' = true ∧ rest = rest' := by
  cases node with
  | ident name span =>
    cases node' with
    | literal | punct | group => cases sameClass
    | ident name' span' =>
      have noQuote := Rule.quote_not_mem_of_continuesName
        (Rule.name_continuesName ((Node.spelled_ident_iff _ _).mp spelled))
      have noQuote' := Rule.quote_not_mem_of_continuesName
        (Rule.name_continuesName ((Node.spelled_ident_iff _ _).mp spelled'))
      obtain ⟨rfl, sameRest⟩ := Bytes.eq_of_quoted noQuote noQuote' same
      exact ⟨by simp [Node.alike], sameRest⟩
  | literal kind raw span =>
    cases node' with
    | ident | punct | group => cases sameClass
    | literal kind' raw' span' =>
      have inLiteral := (Node.spelled_literal_iff _ _ _).mp spelled
      have inLiteral' := (Node.spelled_literal_iff _ _ _).mp spelled'
      obtain ⟨rfl, rfl, sameRest⟩ := inLiteral.eq_of_quoted inLiteral' same
      exact ⟨by simp [Node.alike], sameRest⟩
  | punct char spacing span =>
    cases node' with
    | ident | literal | group => cases sameClass
    | punct char' spacing' span' =>
      obtain ⟨mark, isMark, rfl⟩ := (Node.spelled_punct_iff _ _ _).mp spelled
      obtain ⟨mark', isMark', rfl⟩ := (Node.spelled_punct_iff _ _ _).mp spelled'
      have isText : Utf8.encode _ = [mark] := (Piece.marks_spelled mark isMark).1
      have isText' : Utf8.encode _ = [mark'] := (Piece.marks_spelled mark' isMark').1
      rw [Node.ownText, Node.ownText, isText, isText'] at same
      obtain ⟨rfl, sameRest⟩ := List.cons.inj same
      exact ⟨by simp [Node.alike], (List.cons.inj sameRest).2⟩
  | group delimiter children span =>
    cases node' with
    | ident | literal | punct => cases sameClass
    | group delimiter' children' span' =>
      cases sameClass
      have alikeChildren : Stream.alike children children' = true := alikeInside
      exact ⟨by simp [Node.alike, alikeChildren], (List.cons.inj same).2⟩

/-! Records of a description. -/

theorem textField_eq : utf8 "\",Text:\"" = byte '"' :: word [',', 'T', 'e', 'x', 't', ':', '"'] := by
  with_unfolding_all rfl

theorem recordEnd_eq : utf8 "\"\x7d" = [byte '"', byte '\x7d'] := by with_unfolding_all rfl

/-- A list of records ends here. -/
def ListEnds (text : Bytes) : Prop := text.head? = some (byte ']')

theorem listEnds_describedAs (kind text behind : Bytes) : ListEnds (describedAs kind text behind) := by
  with_unfolding_all rfl

theorem Node.not_listEnds_describe (node : Node) (behind : Bytes) :
    ¬ ListEnds (node.describe behind) := by
  have opens : (node.describe behind).head? = some (byte '\x7b') := by
    rw [Node.describe_eq]
    with_unfolding_all rfl
  rw [ListEnds, opens]
  decide

/-- What a record says of the class comes back, and what follows is the text in front of a quote. -/
theorem NodeClass.eq_of_describedAs_eq {first second : NodeClass} (isKnown : first ∈ known)
    (isKnown' : second ∈ known) {text text' behind behind' : Bytes}
    (same : describedAs first.name text behind = describedAs second.name text' behind') :
    first = second ∧
      text ++ byte '"' :: byte '\x7d' :: behind = text' ++ byte '"' :: byte '\x7d' :: behind' := by
  simp only [describedAs, textField_eq, recordEnd_eq, List.append_assoc, List.cons_append,
    List.nil_append, List.append_cancel_left_eq] at same
  have noQuote := quote_not_mem_name first isKnown
  have noQuote' := quote_not_mem_name second isKnown'
  obtain ⟨sameName, sameText⟩ := Bytes.eq_of_quoted noQuote noQuote' same
  exact ⟨eq_of_name_eq first isKnown second isKnown' sameName, List.append_cancel_left sameText⟩

namespace Stream

/-- What stands behind the first of several descriptions. -/
def describeOthers : List Node → Bytes → Bytes
  | [], behind => behind
  | next :: rest, behind => Bytes.comma :: describe (next :: rest) behind

theorem describe_cons (node : Node) (rest : List Node) (behind : Bytes) :
    describe (node :: rest) behind = node.describe (describeOthers rest behind) := by
  cases rest with
  | nil | cons => rfl

theorem describe_eq_of_describeOthers_eq {rest rest' : List Node} {behind behind' : Bytes}
    (ends : ListEnds behind) (ends' : ListEnds behind')
    (same : describeOthers rest behind = describeOthers rest' behind') :
    describe rest behind = describe rest' behind' := by
  have noComma : ∀ text, ¬ ListEnds (Bytes.comma :: text) := by
    intro text impossible
    exact absurd (Option.some.inj impossible) (by decide)
  cases rest with
  | nil =>
    cases rest' with
    | nil => exact same
    | cons =>
      rw [show behind = _ from same] at ends
      exact absurd ends (noComma _)
  | cons =>
    cases rest' with
    | nil =>
      rw [show behind' = _ from same.symm] at ends'
      exact absurd ends' (noComma _)
    | cons => exact (List.cons.inj same).2

/-- Descriptions of spelled streams in front of the end of a list are read in one way only. -/
theorem alike_of_describe_eq (stream stream' : List Node) (spelled : Spelled stream)
    (spelled' : Spelled stream') {behind behind' : Bytes} (ends : ListEnds behind)
    (ends' : ListEnds behind') (same : describe stream behind = describe stream' behind') :
    alike stream stream' = true ∧ behind = behind' := by
  cases stream with
  | nil =>
    cases stream' with
    | nil => exact ⟨rfl, same⟩
    | cons node' rest' =>
      rw [show behind = _ from same, describe_cons] at ends
      exact absurd ends (node'.not_listEnds_describe _)
  | cons node rest =>
    cases stream' with
    | nil =>
      rw [show behind' = _ from same.symm, describe_cons] at ends'
      exact absurd ends' (node.not_listEnds_describe _)
    | cons node' rest' =>
      obtain ⟨inNode, inRest⟩ := (spelled_cons_iff _ _).mp spelled
      obtain ⟨inNode', inRest'⟩ := (spelled_cons_iff _ _).mp spelled'
      rw [describe_cons, describe_cons, Node.describe_eq, Node.describe_eq] at same
      -- What stands inside the first nodes is read first, then the class and the text of the nodes.
      obtain ⟨alikeInside, sameRecord⟩ := alike_of_describe_eq node.inside node'.inside
        inNode.inside inNode'.inside (listEnds_describedAs _ _ _) (listEnds_describedAs _ _ _)
        (List.append_cancel_left same)
      obtain ⟨sameClass, sameText⟩ := NodeClass.eq_of_describedAs_eq inNode.nodeClass_mem_known
        inNode'.nodeClass_mem_known sameRecord
      obtain ⟨alikeNode, sameEnd⟩ :=
        Node.alike_of_quoted inNode inNode' sameClass alikeInside sameText
      have sameOthers := describe_eq_of_describeOthers_eq ends ends' (List.cons.inj sameEnd).2
      obtain ⟨alikeRest, sameBehind⟩ :=
        alike_of_describe_eq rest rest' inRest inRest' ends ends' sameOthers
      exact ⟨by rw [alike, alikeNode, alikeRest]; rfl, sameBehind⟩
termination_by sizeOf stream
decreasing_by
  · subst_vars
    have := node.sizeOf_inside_le
    rw [List.cons.sizeOf_spec]
    omega
  · subst_vars
    rw [List.cons.sizeOf_spec]
    omega

end Stream

/-! A description does not look at spans and spacing. -/

mutual

theorem Node.describe_erased (node : Node) (behind : Bytes) :
    node.erased.describe behind = node.describe behind := by
  cases node with
  | ident | literal | punct => rfl
  | group delimiter children span =>
    rw [Node.erased, Node.describe, Stream.describe_erased children, Node.describe]

theorem Stream.describe_erased (stream : List Node) (behind : Bytes) :
    Stream.describe (Stream.erased stream) behind = Stream.describe stream behind := by
  cases stream with
  | nil => rfl
  | cons node rest =>
    have sameOthers : Stream.describeOthers (Stream.erased rest) behind =
        Stream.describeOthers rest behind := by
      cases rest with
      | nil => rfl
      | cons next others =>
        have inRest := Stream.describe_erased (next :: others) behind
        exact congrArg (Bytes.comma :: ·) inRest
    rw [Stream.erased, Stream.describe_cons, Node.describe_erased node, sameOthers,
      Stream.describe_cons]

end

/-- A stream that some source is parsed to, or that such a stream is expanded to. -/
inductive Stream.Obtained : Stream → Prop
  | parsed {source : Bytes} {stream : Stream} (parsed : Stream.parse source = .ok stream) :
      Obtained stream
  | expanded {style : Style} {stream out : Stream} (obtained : Obtained stream)
      (expanded : stream.expand style = .ok out) : Obtained out

theorem Stream.Obtained.spelled {stream : Stream} (obtained : stream.Obtained) :
    Stream.Spelled stream := by
  induction obtained with
  | parsed parsed => exact Stream.spelled_of_parse parsed
  | expanded _ expanded inductionHypothesis =>
    exact Stream.spelled_expand inductionHypothesis expanded

/-- Streams that are alike have one description, and streams that were parsed or expanded are alike
if they have one description. -/
theorem description_determines_stream :
    (∀ stream stream' : Stream, Stream.alike stream stream' = true →
      stream.description = stream'.description) ∧
    ∀ stream stream' : Stream, stream.Obtained → stream'.Obtained →
      stream.description = stream'.description → Stream.alike stream stream' = true := by
  constructor
  · intro stream stream' alike
    have sameErased := (Stream.alike_iff_erased_eq stream stream').mp alike
    rw [Stream.description, Stream.description, ← Stream.describe_erased stream, sameErased,
      Stream.describe_erased]
  · intro stream stream' obtained obtained' same
    have ends : ListEnds (utf8 "]\x7d") := by with_unfolding_all rfl
    exact (Stream.alike_of_describe_eq stream stream' obtained.spelled obtained'.spelled ends ends
      (List.append_cancel_left same)).1

/-- A character and a string that look like parts of a description, and a number. -/
def quotedSource : Bytes :=
  word ['\'', '"', '\'', '"', '\\', '"', '\x7d', ',', '\x7b', '"', '5']

def quotedStream : Stream :=
  [.literal .char (word ['\'', '"', '\'']) ⟨0, 3⟩,
    .literal .string (word ['"', '\\', '"', '\x7d', ',', '\x7b', '"']) ⟨3, 10⟩,
    .literal .int (word ['5']) ⟨10, 11⟩]

/-- A loop that writes the same. -/
def quotedLoop : Bytes :=
  word ['N', ' ', 'i', 'n', ' ', '5', '.', '.', '6', ' ', '\x7b'] ++
    word ['\'', '"', '\'', ' ', '"', '\\', '"', '\x7d', ',', '\x7b', '"', ' ', 'N', '\x7d']

def quotedLoopStream : Stream :=
  [.ident (word ['N']) ⟨0, 1⟩, .ident (word ['i', 'n']) ⟨2, 4⟩, .literal .int (word ['5']) ⟨5, 6⟩,
    .punct (charCode '.') .joint ⟨6, 7⟩, .punct (charCode '.') .alone ⟨7, 8⟩,
    .literal .int (word ['6']) ⟨8, 9⟩,
    .group .curly [.literal .char (word ['\'', '"', '\'']) ⟨11, 14⟩,
      .literal .string (word ['"', '\\', '"', '\x7d', ',', '\x7b', '"']) ⟨15, 22⟩,
      .ident (word ['N']) ⟨23, 24⟩] ⟨10, 25⟩]

def quotedExpansion : Stream :=
  [.literal .char (word ['\'', '"', '\'']) ⟨11, 14⟩,
    .literal .string (word ['"', '\\', '"', '\x7d', ',', '\x7b', '"']) ⟨15, 22⟩,
    .literal .int (word ['5']) ⟨23, 24⟩]

theorem quotedExpansion_determined :
    Stream.parse quotedSource = .ok quotedStream ∧
      Stream.parse quotedLoop = .ok quotedLoopStream ∧
      quotedLoopStream.expand {} = .ok quotedExpansion ∧
      quotedStream.description = quotedExpansion.description ∧
      Stream.alike quotedStream quotedExpansion = true := by
  have parsed : Stream.parse quotedSource = .ok quotedStream := by with_unfolding_all rfl
  have parsedLoop : Stream.parse quotedLoop = .ok quotedLoopStream := by with_unfolding_all rfl
  have expanded : quotedLoopStream.expand {} = .ok quotedExpansion := by with_unfolding_all rfl
  have same : quotedStream.description = quotedExpansion.description := by with_unfolding_all rfl
  exact ⟨parsed, parsedLoop, expanded, same, description_determines_stream.2 _ _ (.parsed parsed)
    (.expanded (.parsed parsedLoop) expanded) same⟩

/-- Streams of other origin need not be told apart. -/
example : Stream.description [.literal .int (word ['1']) ⟨0, 1⟩] =
    Stream.description [.literal .float (word ['1']) ⟨0, 1⟩] := rfl

end Unroll
