import Unroll.Loop.Expansion
import Unroll.Proofs.Levels

set_option autoImplicit false

/-!
# The grammar of loops

A loop is a header and a body in braces, with nothing behind it. The grammar is stated on its own,
and expansion accepts exactly what it derives. A stream that it does not derive is refused with a
code that tells three cases apart: there is no body, a bound of the range has no value, or anything
else.
-/

namespace Unroll

/-- What holds of a result: one condition on the value, another one on the fault. -/
def Outcome {α : Type} (result : Except Fault α) (accepted : α → Prop) (refused : Fault → Prop) :
    Prop :=
  match result with
  | .ok value => accepted value
  | .error fault => refused fault

theorem Outcome.bind {α β : Type} {result : Except Fault α} {next : α → Except Fault β}
    {accepted : α → Prop} {accepted' : β → Prop} {refused refused' : Fault → Prop}
    (outcome : Outcome result accepted refused)
    (goesOn : ∀ value, accepted value → Outcome (next value) accepted' refused')
    (gives : ∀ fault, refused fault → refused' fault) :
    Outcome (result >>= next) accepted' refused' := by
  cases result with
  | ok value => exact goesOn value outcome
  | error fault => exact gives fault outcome

namespace Node

/-- An integer literal with a value of 64 bits. -/
inductive Denotes : Node → UInt64 → Prop
  | literal {raw : Bytes} {value : UInt64} (span : Span) (read : Numeral.read raw = .ok value) :
      Denotes (.literal .int raw span) value

/-- An integer literal without a value of 64 bits. -/
inductive Valueless : Node → Prop
  | literal {raw : Bytes} {reason : NumeralError} (span : Span)
      (read : Numeral.read raw = .error reason) : Valueless (.literal .int raw span)

end Node

namespace Header

/-- The nodes of a range operator, and whether the last value belongs to the range. Dots touch each
other, and an equals sign touches the second one. -/
inductive Operator : List Node → Bool → Prop
  | exclusive (first second : Span) (spacing : Spacing) :
      Operator [.punct (charCode '.') .joint first, .punct (charCode '.') spacing second] false
  | inclusive (first second third : Span) (spacing : Spacing) :
      Operator [.punct (charCode '.') .joint first, .punct (charCode '.') .joint second,
        .punct (charCode '=') spacing third] true

/-- The nodes of a header with the given variable, bounds and form of the range. -/
inductive Spells (name : Bytes) (span : Span) (first : Node) (inclusive : Bool) (last : Node) :
    List Node → Prop
  | nodes (keywordSpan : Span) {operator : List Node} (isOperator : Operator operator inclusive) :
      Spells name span first inclusive last
        (.ident name span :: .ident keyword keywordSpan :: first :: (operator ++ [last]))

/-- The header that a list of nodes says. -/
def Written (nodes : List Node) (header : Header) : Prop :=
  ∃ first last, first.Denotes header.range.start ∧ last.Denotes header.range.stop ∧
    Spells header.variableName header.variableSpan first header.range.inclusive last nodes

/-- Up to a bound without a value the nodes are those of a header. -/
inductive Unreadable : List Node → Prop
  | first {name : Bytes} {span keywordSpan : Span} {bound : Node} {rest : List Node}
      (valueless : bound.Valueless) :
      Unreadable (.ident name span :: .ident keyword keywordSpan :: bound :: rest)
  | last {name : Bytes} {span keywordSpan : Span} {first : Node} {value : UInt64}
      {operator : List Node} {inclusive : Bool} {bound : Node} {rest : List Node}
      (denotes : first.Denotes value) (isOperator : Operator operator inclusive)
      (valueless : bound.Valueless) :
      Unreadable (.ident name span :: .ident keyword keywordSpan :: first ::
        (operator ++ bound :: rest))

/-! What each reader takes, and how it refuses. -/

variable (atEnd : Span) (nodes : List Node)

theorem unexpected_eq (what : Expectation) :
    unexpected what atEnd nodes =
      .diagnosed ((nodes.head?.map Node.span).getD atEnd) (.expected what nodes.head?) := by
  cases nodes with
  | nil => rfl
  | cons node rest => rfl

theorem code_unexpected (what : Expectation) :
    (unexpected what atEnd nodes).code = .headerSyntax := by
  rw [unexpected_eq]
  rfl

theorem readVariable_outcome :
    Outcome (readVariable atEnd nodes)
      (fun ((name, span), rest) => nodes = .ident name span :: rest)
      (fun fault => fault = unexpected .identifier atEnd nodes ∧
        ∀ name span, .ident name span ∉ nodes.head?) := by
  unfold readVariable
  split
  · rfl
  · rename_i noIdent
    refine ⟨rfl, fun name span isFirst => ?_⟩
    obtain ⟨rest, isAll⟩ := List.head?_eq_some_iff.mp isFirst
    exact noIdent name span rest isAll

theorem readKeyword_outcome :
    Outcome (readKeyword atEnd nodes) (fun rest => ∃ span, nodes = .ident keyword span :: rest)
      (fun fault => fault = unexpected .keywordIn atEnd nodes ∧
        ∀ span, .ident keyword span ∉ nodes.head?) := by
  unfold readKeyword
  split
  · rename_i node rest
    split
    · rename_i isKeyword
      cases node with
      | ident name span =>
        rw [Node.isIdent, beq_iff_eq] at isKeyword
        exact ⟨span, by rw [isKeyword]⟩
      | literal | punct | group => cases isKeyword
    · rename_i notKeyword
      refine ⟨rfl, fun span isFirst => notKeyword ?_⟩
      rw [List.head?_cons, Option.mem_some_iff] at isFirst
      rw [isFirst]
      exact beq_self_eq_true keyword
  · exact ⟨rfl, fun span isFirst => absurd isFirst (Option.not_mem_none _)⟩

theorem readInteger_outcome :
    Outcome (readInteger atEnd nodes)
      (fun (value, rest) => ∃ bound, bound.Denotes value ∧ nodes = bound :: rest)
      (fun fault =>
        (fault = unexpected .integer atEnd nodes ∧
          ∀ raw span, .literal .int raw span ∉ nodes.head?) ∨
        ∃ bound rest raw reason, bound.Valueless ∧ nodes = bound :: rest ∧
          fault = .diagnosed bound.span (.unreadableNumeral raw reason)) := by
  unfold readInteger
  split
  · rename_i raw span rest
    split
    · rename_i value read
      exact ⟨_, .literal span read, rfl⟩
    · rename_i reason read
      exact .inr ⟨_, rest, raw, reason, .literal span read, rfl, rfl⟩
  · rename_i noLiteral
    refine .inl ⟨rfl, fun raw span isFirst => ?_⟩
    obtain ⟨rest, isAll⟩ := List.head?_eq_some_iff.mp isFirst
    exact noLiteral raw span rest isAll

/-- An operator takes an equals sign that touches its second dot. -/
def Greedy (operator rest : List Node) : Prop :=
  ∀ first second, operator = [.punct (charCode '.') .joint first,
    .punct (charCode '.') .joint second] → ∀ spacing span,
    .punct (charCode '=') spacing span ∉ rest.head?

/-- The second dot is followed by an equals sign that touches it, or it ends the operator. -/
theorem readInclusive_operator (first second : Span) (spacing : Spacing) :
    ∃ operator, Operator operator (readInclusive spacing nodes).1 ∧
      Greedy operator (readInclusive spacing nodes).2 ∧
      .punct (charCode '.') .joint first :: .punct (charCode '.') spacing second :: nodes =
        operator ++ (readInclusive spacing nodes).2 := by
  unfold readInclusive
  split
  · rename_i node rest
    split
    · rename_i isEquals
      obtain ⟨spacing', third, rfl⟩ := Node.eq_punct_of_isPunct isEquals
      refine ⟨_, .inclusive first second third spacing', ?_, rfl⟩
      intro _ _ isShort
      cases isShort
    · rename_i notEquals
      refine ⟨_, .exclusive first second .joint, ?_, rfl⟩
      intro _ _ _ spacing' span isFirst
      cases isFirst
      exact notEquals (beq_self_eq_true _)
  · rename_i notFollowed
    refine ⟨_, .exclusive first second spacing, ?_, rfl⟩
    intro _ _ isJoint spacing' span isFirst
    obtain ⟨rest, isAll⟩ := List.head?_eq_some_iff.mp isFirst
    cases isJoint
    exact notFollowed _ rest rfl isAll

theorem readOperator_outcome :
    Outcome (readOperator atEnd nodes)
      (fun (inclusive, rest) => ∃ operator, Operator operator inclusive ∧ Greedy operator rest ∧
        nodes = operator ++ rest)
      (fun fault =>
        (fault = unexpected .rangeOperator atEnd nodes ∧
          ∀ spacing span, .punct (charCode '.') spacing span ∉ nodes.head?) ∨
        ∃ spacing span rest, nodes = .punct (charCode '.') spacing span :: rest ∧
          (spacing = .joint → ∀ spacing' span', .punct (charCode '.') spacing' span' ∉ rest.head?) ∧
          fault = .diagnosed span .loneDot) := by
  unfold readOperator
  split
  · rename_i char spacing first rest
    split
    · rename_i isDot
      subst isDot
      split
      · rename_i second spacing' span behind
        split
        · rename_i isDot
          subst isDot
          exact readInclusive_operator behind first span spacing'
        · rename_i notDot
          refine .inr ⟨.joint, first, _, rfl, fun _ spacing'' span' isFirst => notDot ?_, rfl⟩
          cases isFirst
          rfl
      · rename_i noDots
        refine .inr ⟨spacing, first, rest, rfl, fun isJoint spacing' span' isFirst => ?_, rfl⟩
        obtain ⟨behind, isRest⟩ := List.head?_eq_some_iff.mp isFirst
        exact noDots _ spacing' span' behind isJoint isRest
    · rename_i notDot
      refine .inl ⟨rfl, fun spacing' span' isFirst => notDot ?_⟩
      cases isFirst
      rfl
  · rename_i noPunct
    refine .inl ⟨rfl, fun spacing span isFirst => ?_⟩
    obtain ⟨rest, isAll⟩ := List.head?_eq_some_iff.mp isFirst
    exact noPunct _ spacing span rest isAll

theorem ofNodes_outcome :
    Outcome (ofNodes nodes atEnd) (Written nodes)
      (fun fault => fault.code = .headerSyntax ∨
        fault.code = .rangeConversion ∧ Unreadable nodes) := by
  have isSyntax : ∀ {fault what rest}, fault = unexpected what atEnd rest →
      fault.code = .headerSyntax := by
    intro fault what rest isUnexpected
    rw [isUnexpected]
    exact code_unexpected atEnd rest what
  unfold ofNodes
  apply (readVariable_outcome atEnd nodes).bind _ (fun _ refused => .inl (isSyntax refused.1))
  rintro ⟨⟨name, span⟩, rest⟩ rfl
  apply (readKeyword_outcome atEnd rest).bind _ (fun _ refused => .inl (isSyntax refused.1))
  rintro rest ⟨keywordSpan, rfl⟩
  apply (readInteger_outcome atEnd rest).bind
  · rintro ⟨start, rest⟩ ⟨first, denotesStart, rfl⟩
    apply (readOperator_outcome atEnd rest).bind
    · rintro ⟨inclusive, rest⟩ ⟨operator, isOperator, -, rfl⟩
      apply (readInteger_outcome atEnd rest).bind
      · rintro ⟨stop, rest⟩ ⟨last, denotesStop, rfl⟩
        cases rest with
        | nil => exact ⟨first, last, denotesStart, denotesStop, .nodes keywordSpan isOperator⟩
        | cons node others => exact .inl rfl
      · rintro fault (⟨isUnexpected, -⟩ | ⟨bound, others, raw, reason, valueless, rfl, rfl⟩)
        · exact .inl (isSyntax isUnexpected)
        · exact .inr ⟨rfl, .last denotesStart isOperator valueless⟩
    · rintro fault (⟨isUnexpected, -⟩ | ⟨spacing, dot, behind, -, -, rfl⟩)
      · exact .inl (isSyntax isUnexpected)
      · exact .inl rfl
  · rintro fault (⟨isUnexpected, -⟩ | ⟨bound, others, raw, reason, valueless, rfl, rfl⟩)
    · exact .inl (isSyntax isUnexpected)
    · exact .inr ⟨rfl, .first valueless⟩

variable {nodes}

theorem readOperator_append {operator : List Node} {inclusive : Bool}
    (isOperator : Operator operator inclusive) (kind : LiteralKind) (raw : Bytes) (span : Span)
    (rest : List Node) :
    readOperator atEnd (operator ++ .literal kind raw span :: rest) =
      .ok (inclusive, .literal kind raw span :: rest) := by
  cases isOperator with
  | exclusive first second spacing => cases spacing <;> rfl
  | inclusive first second third spacing => rfl

theorem readKeyword_cons (span : Span) (rest : List Node) :
    readKeyword atEnd (.ident keyword span :: rest) = .ok rest := by
  simp [readKeyword, Node.isIdent]

theorem ofNodes_of_written {header : Header} (written : Written nodes header) :
    ofNodes nodes atEnd = .ok header := by
  obtain ⟨_, _, ⟨span, readStart⟩, ⟨span', readStop⟩, ⟨keywordSpan, isOperator⟩⟩ := written
  simp only [ofNodes, readVariable, readKeyword_cons, readInteger, readStart, readStop,
    readOperator_append atEnd isOperator, bind, Except.bind, pure, Except.pure]

theorem ofNodes_of_unreadable (unreadable : Unreadable nodes) :
    ∃ fault, ofNodes nodes atEnd = .error fault ∧ fault.code = .rangeConversion := by
  cases unreadable with
  | first valueless =>
    obtain ⟨span, noValue⟩ := valueless
    simp only [ofNodes, readVariable, readKeyword_cons, readInteger, noValue, bind, Except.bind]
    exact ⟨_, rfl, rfl⟩
  | last denotes isOperator valueless =>
    obtain ⟨span, readStart⟩ := denotes
    obtain ⟨span', noValue⟩ := valueless
    simp only [ofNodes, readVariable, readKeyword_cons, readInteger, readStart, noValue,
      readOperator_append atEnd isOperator, bind, Except.bind]
    exact ⟨_, rfl, rfl⟩

end Header

namespace Stream

/-- No node of the stream itself is a group in braces. -/
def Bodiless (stream : Stream) : Prop := ∀ body span, .group .curly body span ∉ stream

theorem Bodiless.childrenOf?_eq_none {stream : Stream} (bodiless : stream.Bodiless) {node : Node}
    (membership : node ∈ stream) : node.childrenOf? .curly = none := by
  cases node with
  | ident | literal | punct => rfl
  | group delimiter children span =>
    rw [Node.childrenOf?, if_neg]
    rintro rfl
    exact bodiless children span membership

/-- A stream has no body, or a first one. -/
theorem bodiless_or_exists (stream : Stream) :
    stream.Bodiless ∨ ∃ front body span rest, Bodiless front ∧
      stream = front ++ .group .curly body span :: rest := by
  induction stream with
  | nil => exact .inl fun _ _ => List.not_mem_nil
  | cons node rest inductionHypothesis =>
    by_cases isBody : ∃ body span, node = .group .curly body span
    · obtain ⟨body, span, rfl⟩ := isBody
      exact .inr ⟨[], body, span, rest, fun _ _ => List.not_mem_nil, rfl⟩
    · have cons : ∀ nodes, Bodiless nodes → Bodiless (node :: nodes) := by
        intro nodes bodiless body span membership
        rcases List.mem_cons.mp membership with isNode | membership
        · exact isBody ⟨body, span, isNode.symm⟩
        · exact bodiless body span membership
      rcases inductionHypothesis with bodiless | ⟨front, body, span, others, bodiless, rfl⟩
      · exact .inl (cons rest bodiless)
      · exact .inr ⟨node :: front, body, span, others, cons front bodiless, rfl⟩

end Stream

namespace Loop

theorem splitBehind_append (all before : List Node) {front : List Node}
    (bodiless : Stream.Bodiless front) (rest : List Node) :
    splitBehind all before (front ++ rest) = splitBehind all (front.reverse ++ before) rest := by
  induction front generalizing before with
  | nil => rfl
  | cons node front inductionHypothesis =>
    have noBody := bodiless.childrenOf?_eq_none List.mem_cons_self
    have inFront : Stream.Bodiless front :=
      fun body span membership => bodiless body span (List.mem_cons_of_mem node membership)
    rw [List.cons_append, splitBehind, noBody]
    simp only [inductionHypothesis _ inFront, List.reverse_cons, List.append_assoc,
      List.cons_append, List.nil_append]

theorem ofStream_of_bodiless {stream : Stream} (bodiless : stream.Bodiless) :
    ofStream stream = .error (.diagnosed stream.span .missingBody) := by
  have split := splitBehind_append stream [] bodiless []
  rw [List.append_nil] at split
  exact split

theorem ofStream_append {front : List Node} (bodiless : Stream.Bodiless front) (body : Stream)
    (span : Span) : ofStream (front ++ [.group .curly body span]) = .ok ⟨front, body, span⟩ := by
  rw [ofStream, splitBehind_append _ _ bodiless, splitBehind]
  simp [Node.childrenOf?, Node.span]

theorem ofStream_append_cons {front : List Node} (bodiless : Stream.Bodiless front) (body : Stream)
    (span : Span) (extra : Node) (rest : List Node) :
    ofStream (front ++ .group .curly body span :: extra :: rest) =
      .error (.diagnosed extra.span (.afterBody extra)) := by
  rw [ofStream, splitBehind_append _ _ bodiless, splitBehind]
  simp [Node.childrenOf?]

/-- The header and the body of the loop that a stream says. -/
def Written (header : Header) (body : Stream) (stream : Stream) : Prop :=
  ∃ nodes span, Header.Written nodes header ∧ stream = nodes ++ [.group .curly body span]

/-- The first body ends the stream, and in front of it a bound has no value. -/
def Unreadable (stream : Stream) : Prop :=
  ∃ nodes body span, Stream.Bodiless nodes ∧ Header.Unreadable nodes ∧
    stream = nodes ++ [.group .curly body span]

end Loop

theorem Header.Operator.bodiless {operator : List Node} {inclusive : Bool}
    (isOperator : Operator operator inclusive) : Stream.Bodiless operator := by
  intro body span membership
  cases isOperator <;> simp at membership

theorem Header.Written.bodiless {nodes : List Node} {header : Header}
    (written : Header.Written nodes header) : Stream.Bodiless nodes := by
  obtain ⟨_, _, ⟨span, -⟩, ⟨span', -⟩, ⟨keywordSpan, isOperator⟩⟩ := written
  intro body span membership
  simp [isOperator.bodiless body span] at membership

namespace Stream

/-- What a loop makes of its body. -/
def unrolled (style : Style) (header : Header) (body : Stream) : Stream :=
  let filled := Stream.fill style header body
  if filled.found then filled.stream else Stream.copies style.paste header body

variable (style : Style)

theorem expand_append {nodes : List Node} (bodiless : Bodiless nodes) (body : Stream)
    (span : Span) :
    expand style (nodes ++ [.group .curly body span]) =
      (Header.ofNodes nodes span).map fun header => unrolled style header body := by
  unfold expand
  rw [Loop.ofStream_append bodiless]
  cases read : Header.ofNodes nodes span <;>
    simp only [bind, Except.bind, pure, Except.pure, read, Except.map, unrolled]

theorem expand_of_written {header : Header} {body stream : Stream}
    (written : Loop.Written header body stream) :
    expand style stream = .ok (unrolled style header body) := by
  obtain ⟨nodes, span, isHeader, rfl⟩ := written
  rw [expand_append style isHeader.bodiless, Header.ofNodes_of_written span isHeader]
  rfl

theorem expand_of_unreadable {stream : Stream} (unreadable : Loop.Unreadable stream) :
    ∃ fault, expand style stream = .error fault ∧ fault.code = .rangeConversion := by
  obtain ⟨nodes, body, span, bodiless, isHeader, rfl⟩ := unreadable
  obtain ⟨fault, refused, isConversion⟩ := Header.ofNodes_of_unreadable span isHeader
  rw [expand_append style bodiless, refused]
  exact ⟨fault, rfl, isConversion⟩

theorem expand_of_bodiless {stream : Stream} (bodiless : stream.Bodiless) :
    expand style stream = .error (.diagnosed stream.span .missingBody) := by
  unfold expand
  rw [Loop.ofStream_of_bodiless bodiless]
  rfl

theorem expand_outcome (stream : Stream) :
    Outcome (expand style stream)
      (fun out => ∃ header body, Loop.Written header body stream ∧ out = unrolled style header body)
      (fun fault => fault.code = .missingBody ∧ stream.Bodiless ∨
        fault.code = .rangeConversion ∧ Loop.Unreadable stream ∨ fault.code = .headerSyntax) := by
  rcases stream.bodiless_or_exists with bodiless | ⟨nodes, body, span, rest, bodiless, rfl⟩
  · rw [expand_of_bodiless style bodiless]
    exact .inl ⟨rfl, bodiless⟩
  · cases rest with
    | nil =>
      have outcome := Header.ofNodes_outcome span nodes
      rw [expand_append style bodiless]
      cases read : Header.ofNodes nodes span with
      | ok header =>
        rw [read] at outcome
        exact ⟨header, body, ⟨nodes, span, outcome, rfl⟩, rfl⟩
      | error fault =>
        rw [read] at outcome
        rcases outcome with isSyntax | ⟨isConversion, unreadable⟩
        · exact .inr (.inr isSyntax)
        · exact .inr (.inl ⟨isConversion, nodes, body, span, bodiless, unreadable, rfl⟩)
    | cons extra others =>
      unfold expand
      rw [Loop.ofStream_append_cons bodiless]
      exact .inr (.inr rfl)

end Stream

/-- Expansion accepts exactly the loops of the grammar and runs them over the range they say. The
code of a refusal tells a missing body and a bound without a value from everything else. -/
theorem expansion_follows_grammar (style : Style) (stream : Stream) :
    (∀ out, stream.expand style = .ok out ↔
      ∃ header body, Loop.Written header body stream ∧ out = Stream.unrolled style header body) ∧
    ∀ fault, stream.expand style = .error fault →
      (fault.code = .missingBody ↔ stream.Bodiless) ∧
      (fault.code = .rangeConversion ↔ Loop.Unreadable stream) ∧
      (fault.code = .headerSyntax ↔ ¬ stream.Bodiless ∧ ¬ Loop.Unreadable stream) := by
  have outcome := Stream.expand_outcome style stream
  refine ⟨fun out => ⟨?_, ?_⟩, fun fault refused => ?_⟩
  · intro expanded
    rwa [expanded] at outcome
  · rintro ⟨header, body, written, rfl⟩
    exact Stream.expand_of_written style written
  · have missing : stream.Bodiless → fault.code = .missingBody := by
      intro bodiless
      rw [Stream.expand_of_bodiless style bodiless] at refused
      cases refused
      rfl
    have conversion : Loop.Unreadable stream → fault.code = .rangeConversion := by
      intro unreadable
      obtain ⟨own, refusedAs, isConversion⟩ := Stream.expand_of_unreadable style unreadable
      cases refused.symm.trans refusedAs
      exact isConversion
    rw [refused] at outcome
    rcases outcome with ⟨code, bodiless⟩ | ⟨code, unreadable⟩ | code
    · grind
    · grind
    · grind

/-- A loop whose last bound is a base without digits. -/
def digitlessLoop : Stream :=
  [.ident (word ['N']) ⟨0, 1⟩, .ident (word ['i', 'n']) ⟨2, 4⟩, .literal .int (word ['0']) ⟨5, 6⟩,
    .punct (charCode '.') .joint ⟨6, 7⟩, .punct (charCode '.') .alone ⟨7, 8⟩,
    .literal .int (word ['0', 'x', '_']) ⟨8, 11⟩, .group .curly [] ⟨12, 14⟩]

theorem digitlessLoop_unreadable :
    ∃ fault, digitlessLoop.expand {} = .error fault ∧ fault.code = .rangeConversion ∧
      Loop.Unreadable digitlessLoop ∧ ¬ digitlessLoop.Bodiless := by
  have refused : digitlessLoop.expand {} = .error (.diagnosed ⟨8, 11⟩
      (.unreadableNumeral (word ['0', 'x', '_']) (.malformed (word ['0', 'x'])))) := by
    with_unfolding_all rfl
  obtain ⟨missing, conversion, -⟩ := (expansion_follows_grammar {} digitlessLoop).2 _ refused
  refine ⟨_, refused, rfl, conversion.mp rfl, fun bodiless => ?_⟩
  cases missing.mpr bodiless

end Unroll
