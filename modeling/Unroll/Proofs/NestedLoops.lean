import Unroll.Proofs.Invocations
import Unroll.Proofs.NumeralReading
import Unroll.Proofs.RepeatedSections
import Unroll.Proofs.SubstitutedStreams

set_option autoImplicit false

/-!
# Nested loops

A loop whose body invokes another loop runs as a double loop, also if the inner range depends on the
outer variable. Each copy of the outer body is an invocation again: its header is still one, with
the value where the outer variable was a bound, and its body holds neither marks nor sections that
were not there before.
-/

namespace Unroll

/-- The nodes of an invocation with its arguments in parentheses. -/
inductive Invocation.Written (name : Bytes) (arguments : Stream) : List Node → Prop
  | nodes (span : Span) (spacing : Spacing) (markSpan groupSpan : Span) :
      Written name arguments [.ident name span, .punct (charCode '!') spacing markSpan,
        .group .round arguments groupSpan]

/-- A bound of an inner range, and its value for each value of the outer variable: it is a number,
or the outer variable itself. -/
inductive Node.BoundUnder (outer : Bytes) : Node → (UInt64 → UInt64) → Prop
  | number {node : Node} {value : UInt64} (denotes : node.Denotes value) :
      BoundUnder outer node fun _ => value
  | outer (span : Span) : BoundUnder outer (.ident outer span) id

/-- The invocation of a loop around the invocation of another one and a semicolon. -/
inductive NestedLoops (name : Bytes) (outer : Header) (inner : Bytes)
    (firstAt lastAt : UInt64 → UInt64) (inclusive : Bool) (body : Stream) : Stream → Prop
  | nodes {first last : Node} {innerSpan bodySpan : Span}
      {innerHeader innerCall arguments outerCall : List Node}
      (spacing : Spacing) (semicolonSpan : Span)
      (isFirst : first.BoundUnder outer.variableName firstAt)
      (isLast : last.BoundUnder outer.variableName lastAt)
      (spells : Header.Spells inner innerSpan first inclusive last innerHeader)
      (invokesInner : Invocation.Written name (innerHeader ++ [.group .curly body bodySpan])
        innerCall)
      (isLoop : Loop.Written outer (innerCall ++ [.punct (charCode ';') spacing semicolonSpan])
        arguments)
      (invokesOuter : Invocation.Written name arguments outerCall) :
      NestedLoops name outer inner firstAt lastAt inclusive body outerCall

/-! What substitution does to the invocation of the inner loop. -/

section Copies

variable {paste : Int32}

theorem Node.BoundUnder.not_pastes {outer : Bytes} {node : Node} {valueAt : UInt64 → UInt64}
    (bound : node.BoundUnder outer valueAt) (rest : List Node) :
    ¬ Stream.Pastes paste (node :: rest) := by
  cases bound with
  | number denotes =>
    cases denotes
    exact id
  | outer => exact id

theorem Node.BoundUnder.substitute {outer : Bytes} {node : Node} {valueAt : UInt64 → UInt64}
    (bound : node.BoundUnder outer valueAt) (paste : Int32) (value : UInt64) :
    ∃ copy : Node, copy.Denotes (valueAt value) ∧ ∀ rest, ¬ Stream.Pastes paste rest →
      Stream.substitute paste ⟨outer, value⟩ (node :: rest) =
        copy :: Stream.substitute paste ⟨outer, value⟩ rest := by
  cases bound with
  | number denotes =>
    obtain ⟨span, read⟩ := denotes
    exact ⟨_, .literal span read, fun rest ended => rfl⟩
  | outer span =>
    refine ⟨.ofValue value span, .literal span (Numeral.read_decimal value), fun rest ended => ?_⟩
    rw [Stream.substitute_ident ended]
    simp [Chain.node, Chain.head]

theorem Header.Operator.substitute {operator : List Node} {inclusive : Bool}
    (isOperator : Operator operator inclusive) (binding : Binding) (rest : List Node) :
    Stream.substitute paste binding (operator ++ rest) =
      operator ++ Stream.substitute paste binding rest := by
  cases isOperator <;> rfl

theorem Header.Operator.not_pastes {operator : List Node} {inclusive : Bool}
    (isOperator : Operator operator inclusive) (rest : List Node) :
    ¬ Stream.Pastes paste (operator ++ rest) := by
  cases isOperator <;> exact id

/-- The header of the inner loop is copied to a header that says the range for the value. -/
theorem Header.Spells.substitute {outer inner : Bytes} {span : Span} {first last : Node}
    {firstAt lastAt : UInt64 → UInt64} {inclusive : Bool} {nodes : List Node}
    (spells : Spells inner span first inclusive last nodes)
    (isFirst : first.BoundUnder outer firstAt) (isLast : last.BoundUnder outer lastAt)
    (distinct : inner ≠ outer) (notKeyword : keyword ≠ outer) (value : UInt64) (body : Stream)
    (bodySpan : Span) :
    ∃ copy, Written copy ⟨inner, span, firstAt value, lastAt value, inclusive⟩ ∧
      Stream.substitute paste ⟨outer, value⟩ (nodes ++ [.group .curly body bodySpan]) =
        copy ++ [.group .curly (Stream.substitute paste ⟨outer, value⟩ body) bodySpan] := by
  obtain ⟨keywordSpan, isOperator⟩ := spells
  rename_i operator
  obtain ⟨firstCopy, denotesFirst, firstCopied⟩ := isFirst.substitute paste value
  obtain ⟨lastCopy, denotesLast, lastCopied⟩ := isLast.substitute paste value
  refine ⟨_, ⟨firstCopy, lastCopy, denotesFirst, denotesLast, .nodes keywordSpan isOperator⟩, ?_⟩
  simp only [List.cons_append, List.append_assoc, List.nil_append]
  rw [Stream.substitute_ident id, Stream.substitute_ident (isFirst.not_pastes _),
    Chain.node_head_of_ne distinct, Chain.node_head_of_ne notKeyword,
    firstCopied _ (isOperator.not_pastes _), isOperator.substitute, lastCopied _ id]
  rfl

theorem Invocation.Written.substitute {name : Bytes} {arguments call : List Node}
    (written : Written name arguments call) {outer : Bytes} (distinct : name ≠ outer)
    (value : UInt64) (spacing : Spacing) (span : Span) :
    ∃ copy, Written name (Stream.substitute paste ⟨outer, value⟩ arguments) copy ∧
      Stream.substitute paste ⟨outer, value⟩ (call ++ [.punct (charCode ';') spacing span]) =
        copy ++ [.punct (charCode ';') spacing span] := by
  obtain ⟨nameSpan, markSpacing, markSpan, groupSpan⟩ := written
  refine ⟨_, .nodes nameSpan markSpacing markSpan groupSpan, ?_⟩
  simp only [List.cons_append, List.nil_append]
  rw [Stream.substitute_ident id, Chain.node_head_of_ne distinct]
  rfl

end Copies

/-! Sections and invocations in a loop and its copies. -/

section Sections

variable {outer : Bytes} {nodes : List Node} {body : Stream}

theorem Node.BoundUnder.isLeaf {node : Node} {valueAt : UInt64 → UInt64}
    (bound : node.BoundUnder outer valueAt) : node.IsLeaf := by
  cases bound with
  | number denotes =>
    cases denotes
    trivial
  | outer => trivial

theorem Node.BoundUnder.isPunct_eq_false {node : Node} {valueAt : UInt64 → UInt64}
    (bound : node.BoundUnder outer valueAt) (char : Int32) : node.isPunct char = false := by
  cases bound with
  | number denotes =>
    cases denotes
    rfl
  | outer => rfl

theorem Node.isPunct_of_ne {char other : Int32} (ne : char ≠ other) (spacing : Spacing)
    (span : Span) : (Node.punct char spacing span).isPunct other = false :=
  beq_eq_false_iff_ne.mpr ne

theorem Header.Operator.holds_section_append {operator : List Node} {inclusive : Bool}
    (isOperator : Operator operator inclusive) (rest : List Node) :
    Stream.Holds (IsSection (charCode '#') (charCode '*')) (operator ++ rest) ↔
      Stream.Holds (IsSection (charCode '#') (charCode '*')) rest := by
  have noDot : charCode '.' ≠ charCode '#' := by decide
  have noEquals : charCode '=' ≠ charCode '#' := by decide
  cases isOperator <;>
    simp [Stream.holds_section_cons, Node.isPunct_of_ne noDot, Node.isPunct_of_ne noEquals]

/-- A header adds no section to a body. -/
theorem Header.Spells.holds_section_iff {inner : Bytes} {span bodySpan : Span} {first last : Node}
    {firstAt lastAt : UInt64 → UInt64} {inclusive : Bool}
    (spells : Spells inner span first inclusive last nodes)
    (isFirst : first.BoundUnder outer firstAt) (isLast : last.BoundUnder outer lastAt) :
    Stream.Holds (IsSection (charCode '#') (charCode '*'))
        (nodes ++ [.group .curly body bodySpan]) ↔
      body.Holds (IsSection (charCode '#') (charCode '*')) := by
  obtain ⟨keywordSpan, isOperator⟩ := spells
  simp only [List.cons_append, List.append_assoc, List.nil_append]
  rw [Stream.holds_section_cons rfl, Stream.holds_section_cons rfl,
    Stream.holds_section_cons (isFirst.isPunct_eq_false _), isOperator.holds_section_append,
    Stream.holds_section_cons (isLast.isPunct_eq_false _), Stream.holds_section_cons rfl]
  simp [isFirst.isLeaf.not_holds, isLast.isLeaf.not_holds, Stream.holds_nil_iff, IsSection]

theorem Invocation.Written.holds_section_iff {name : Bytes} {arguments call : List Node}
    (written : Written name arguments call) (spacing : Spacing) (span : Span) :
    Stream.Holds (IsSection (charCode '#') (charCode '*'))
        (call ++ [.punct (charCode ';') spacing span]) ↔
      Stream.Holds (IsSection (charCode '#') (charCode '*')) arguments := by
  have noMark : charCode '!' ≠ charCode '#' := by decide
  have noSemicolon : charCode ';' ≠ charCode '#' := by decide
  obtain ⟨nameSpan, markSpacing, markSpan, groupSpan⟩ := written
  simp only [List.cons_append, List.nil_append]
  rw [Stream.holds_section_cons rfl, Stream.holds_section_cons (Node.isPunct_of_ne noMark _ _),
    Stream.holds_section_cons rfl, Stream.holds_section_cons (Node.isPunct_of_ne noSemicolon _ _)]
  simp [Stream.holds_nil_iff, IsSection]

theorem Stream.not_holds_invocation_copies {paste : Int32}
    (noMark : ¬ body.Holds (IsPunct (charCode '!'))) (table : Generators) (header : Header) :
    ¬ (Stream.copies paste header body).Holds (IsInvocation table) := by
  intro holds
  obtain ⟨value, -, inCopy⟩ := holds.mark_of_invocation.exists_of_flatMap
  exact noMark inCopy.punct_of_substitute

end Sections

/-! Splicing the invocations, from the inside to the outside. -/

namespace Invocation.Written

variable {table : Generators} {replace : Invocation → Except Fault Stream} {name : Bytes}
  {generator : Generator} {arguments call : List Node} {output : Stream}

theorem spliceWith_whole (written : Written name arguments call)
    (registered : table.get? name = some generator)
    (replaced : ∀ span, replace ⟨generator, .round, arguments, span⟩ = .ok output) :
    Stream.spliceWith table replace call = .ok output := by
  obtain ⟨nameSpan, spacing, markSpan, groupSpan⟩ := written
  have found := ofNodes?_eq_some registered nameSpan spacing markSpan .round arguments groupSpan
  rw [Stream.spliceWith_invocation found, replaced]
  exact congrArg Except.ok (List.append_nil output)

theorem spliceWith_semicolon (written : Written name arguments call)
    (registered : table.get? name = some generator)
    (replaced : ∀ span, replace ⟨generator, .round, arguments, span⟩ = .ok output)
    (semicolonSpacing : Spacing) (semicolonSpan : Span) (rest : List Node) :
    Stream.spliceWith table replace
        (call ++ [.punct (charCode ';') semicolonSpacing semicolonSpan] ++ rest) =
      (Stream.spliceWith table replace rest).map (output ++ ·) := by
  obtain ⟨nameSpan, spacing, markSpan, groupSpan⟩ := written
  have found := ofNodes?_eq_some registered nameSpan spacing markSpan .round arguments groupSpan
  simp only [List.cons_append, List.nil_append]
  rw [Stream.spliceWith_invocation found, replaced]
  simp only [behind, ownsSemicolon, Node.isPunct, beq_self_eq_true]
  rfl

end Invocation.Written

/-- A loop over a body without marks and sections leaves nothing to splice. -/
theorem Loop.Written.spliceLevels {header : Header} {body arguments : Stream}
    (written : Loop.Written header body arguments)
    (noMark : ¬ body.Holds (IsPunct (charCode '!')))
    (noSection : ¬ body.Holds (IsSection (charCode '#') (charCode '*')))
    (table : Generators) (limit : Int) (levels : Nat) :
    (do
      let generated ← Stream.expand {} arguments
      Stream.spliceLevels table limit levels generated) =
      .ok (Stream.copies (charCode '~') header body) := by
  have expanded := Stream.expand_of_written {} written
  rw [Stream.unrolled_of_not_holds noSection] at expanded
  rw [expanded]
  exact Stream.spliceLevels_of_not_holds (Stream.not_holds_invocation_copies noMark table header)
    limit levels

/-- A copy of the inner invocation is spliced to the copies of the inner body, whatever follows. -/
theorem Invocation.Written.spliceWith_copy {table : Generators} {name outer inner : Bytes}
    {first last : Node} {firstAt lastAt : UInt64 → UInt64} {inclusive : Bool}
    {innerSpan bodySpan : Span} {header call : List Node} {body : Stream}
    (registered : table.get? name = some (Stream.expand {}))
    (notInner : outer ≠ inner) (notName : outer ≠ name) (notKeyword : outer ≠ Header.keyword)
    (noMark : ¬ body.Holds (IsPunct (charCode '!')))
    (noSection : ¬ body.Holds (IsSection (charCode '#') (charCode '*')))
    (isFirst : first.BoundUnder outer firstAt) (isLast : last.BoundUnder outer lastAt)
    (spells : Header.Spells inner innerSpan first inclusive last header)
    (written : Written name (header ++ [.group .curly body bodySpan]) call)
    (spacing : Spacing) (semicolonSpan : Span) (limit : Int) (levels : Nat) (value : UInt64)
    (rest : List Node) :
    let replace : Invocation → Except Fault Stream := fun invocation => do
      let generated ← invocation.generator invocation.arguments
      Stream.spliceLevels table limit levels generated
    Stream.spliceWith table replace
        (Stream.substitute (charCode '~') ⟨outer, value⟩
          (call ++ [.punct (charCode ';') spacing semicolonSpan]) ++ rest) =
      (Stream.spliceWith table replace rest).map (Stream.copies (charCode '~')
        ⟨inner, innerSpan, firstAt value, lastAt value, inclusive⟩
        (Stream.substitute (charCode '~') ⟨outer, value⟩ body) ++ ·) := by
  intro replace
  obtain ⟨copy, isHeader, headerCopied⟩ :=
    spells.substitute isFirst isLast notInner.symm notKeyword.symm value body bodySpan
  obtain ⟨callCopy, invokes, callCopied⟩ :=
    written.substitute notName.symm value spacing semicolonSpan
  rw [callCopied]
  apply invokes.spliceWith_semicolon registered
  intro span
  have isLoop : Loop.Written _ _ _ := ⟨copy, bodySpan, isHeader, headerCopied⟩
  exact isLoop.spliceLevels (mt Stream.Holds.punct_of_substitute noMark)
    (mt Stream.Holds.section_of_substitute noSection) table limit levels

/-- Splicing a loop around the invocation of another one gives the copies of the inner body for each
value of the outer range and then each value that the inner range has under it. -/
theorem nested_loops_splice (table : Generators) (name : Bytes) (limit : Int) (outer : Header)
    (inner : Bytes) (firstAt lastAt : UInt64 → UInt64) (inclusive : Bool) (body stream : Stream)
    (registered : table.get? name = some (Stream.expand {})) (deepEnough : 2 ≤ limit)
    (notInner : outer.variableName ≠ inner) (notName : outer.variableName ≠ name)
    (notKeyword : outer.variableName ≠ Header.keyword)
    (noMark : ¬ body.Holds (IsPunct (charCode '!')))
    (noSection : ¬ body.Holds (IsSection (charCode '#') (charCode '*')))
    (nested : NestedLoops name outer inner firstAt lastAt inclusive body stream) :
    ∃ values, outer.range.Enumerates values ∧ ∃ innerValues : UInt64 → List UInt64,
      (∀ value ∈ values,
        Range.Enumerates ⟨firstAt value, lastAt value, inclusive⟩ (innerValues value)) ∧
      stream.splice table limit = .ok (values.flatMap fun value =>
        (innerValues value).flatMap fun innerValue =>
          Stream.substitute (charCode '~') ⟨inner, innerValue⟩
            (Stream.substitute (charCode '~') ⟨outer.variableName, value⟩ body)) := by
  obtain ⟨spacing, semicolonSpan, isFirst, isLast, spells, invokesInner, isLoop, invokesOuter⟩ :=
    nested
  refine ⟨outer.range.values, outer.range.enumerates_values,
    fun value => Range.values ⟨firstAt value, lastAt value, inclusive⟩,
    fun value _ => Range.enumerates_values _, ?_⟩
  obtain ⟨levels, isLimit⟩ : ∃ levels, limit.toNat = levels + 2 := ⟨limit.toNat - 2, by omega⟩
  have noOuterSection := mt (invokesInner.holds_section_iff spacing semicolonSpan).mp
    (mt (spells.holds_section_iff isFirst isLast).mp noSection)
  have expanded := Stream.expand_of_written {} isLoop
  rw [Stream.unrolled_of_not_holds noOuterSection] at expanded
  -- The first level makes the copies of the outer body, the second one splices each of them.
  rw [Stream.splice, isLimit, Stream.spliceLevels]
  apply invokesOuter.spliceWith_whole registered
  intro span
  simp only [expanded]
  apply Stream.spliceWith_flatMap
  intro value membership rest
  exact invokesInner.spliceWith_copy registered notInner notName notKeyword noMark noSection isFirst
    isLast spells spacing semicolonSpan limit levels value rest

def triangularBody : Stream :=
  [.ident (word ['x']) ⟨35, 36⟩, .punct (charCode '~') .alone ⟨36, 37⟩,
    .ident (word ['I']) ⟨37, 38⟩, .ident (word ['J']) ⟨39, 40⟩]

/-- A loop over `I` around a loop over `J` that starts at `I`. -/
def triangularLoops : Stream :=
  [.ident (word ['s', 'e', 'q']) ⟨0, 3⟩, .punct (charCode '!') .alone ⟨3, 4⟩,
    .group .round
      [.ident (word ['I']) ⟨5, 6⟩, .ident (word ['i', 'n']) ⟨7, 9⟩,
        .literal .int (word ['0']) ⟨10, 11⟩, .punct (charCode '.') .joint ⟨11, 12⟩,
        .punct (charCode '.') .alone ⟨12, 13⟩, .literal .int (word ['3']) ⟨13, 14⟩,
        .group .curly
          [.ident (word ['s', 'e', 'q']) ⟨17, 20⟩, .punct (charCode '!') .alone ⟨20, 21⟩,
            .group .round
              [.ident (word ['J']) ⟨22, 23⟩, .ident (word ['i', 'n']) ⟨24, 26⟩,
                .ident (word ['I']) ⟨27, 28⟩, .punct (charCode '.') .joint ⟨28, 29⟩,
                .punct (charCode '.') .joint ⟨29, 30⟩, .punct (charCode '=') .alone ⟨30, 31⟩,
                .literal .int (word ['2']) ⟨31, 32⟩, .group .curly triangularBody ⟨33, 42⟩]
              ⟨21, 43⟩,
            .punct (charCode ';') .alone ⟨43, 44⟩] ⟨15, 46⟩] ⟨4, 47⟩]

theorem triangularLoops_splice :
    ∃ values, Range.Enumerates ⟨0, 3, false⟩ values ∧ ∃ innerValues : UInt64 → List UInt64,
      (∀ value ∈ values, Range.Enumerates ⟨value, 2, true⟩ (innerValues value)) ∧
      triangularLoops.splice [(word ['s', 'e', 'q'], Stream.expand {})] 2 =
        .ok (values.flatMap fun value => (innerValues value).flatMap fun innerValue =>
          Stream.substitute (charCode '~') ⟨word ['J'], innerValue⟩
            (Stream.substitute (charCode '~') ⟨word ['I'], value⟩ triangularBody)) := by
  have zero : (Node.literal .int (word ['0']) ⟨10, 11⟩).Denotes 0 := .literal _ rfl
  have three : (Node.literal .int (word ['3']) ⟨13, 14⟩).Denotes 3 := .literal _ rfl
  have two : (Node.literal .int (word ['2']) ⟨31, 32⟩).Denotes 2 := .literal _ rfl
  have nested : NestedLoops (word ['s', 'e', 'q']) ⟨word ['I'], ⟨5, 6⟩, 0, 3, false⟩ (word ['J']) id
      (fun _ => 2) true triangularBody triangularLoops :=
    .nodes .alone ⟨43, 44⟩ (.outer ⟨27, 28⟩) (.number two)
      (.nodes ⟨24, 26⟩ (.inclusive ⟨28, 29⟩ ⟨29, 30⟩ ⟨30, 31⟩ .alone))
      (.nodes ⟨17, 20⟩ .alone ⟨20, 21⟩ ⟨21, 43⟩)
      ⟨_, ⟨15, 46⟩, ⟨_, _, zero, three, .nodes ⟨7, 9⟩ (.exclusive ⟨11, 12⟩ ⟨12, 13⟩ .alone)⟩, rfl⟩
      (.nodes ⟨0, 3⟩ .alone ⟨3, 4⟩ ⟨4, 47⟩)
  have registered : Generators.get? [(word ['s', 'e', 'q'], Stream.expand {})]
      (word ['s', 'e', 'q']) = some (Stream.expand {}) := rfl
  exact nested_loops_splice _ _ 2 _ _ _ _ _ _ _ registered (by decide) (by decide) (by decide)
    (by decide) (by decide) (by decide) nested

end Unroll
