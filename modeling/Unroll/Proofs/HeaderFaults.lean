import Mathlib.Order.Bounds.Defs
import Unroll.Proofs.LoopGrammar

set_option autoImplicit false

/-!
# Where headers fail

A header is read in stages, and each stage says which nodes may come next. From every stage a header
can be finished, so the nodes that have been taken are always the start of some header, and with the
first node that is not taken no header goes on. There the fault lies, or at the end if the nodes run
out. The one exception is a dot that no second dot follows: it is the start of an operator, but the
fault lies at the dot itself.
-/

namespace Unroll

namespace Header

/-- What a header needs next. Behind two dots that touch it may be an equals sign. -/
inductive Stage
  | name
  | keyword
  | first
  | operator
  | secondDot
  | equals
  | last
  | finished
  deriving DecidableEq

/-- A node that a header goes on with. -/
inductive Step : Stage → Node → Stage → Prop
  | name (name : Bytes) (span : Span) : Step .name (.ident name span) .keyword
  | keyword (span : Span) : Step .keyword (.ident keyword span) .first
  | first {bound : Node} {value : UInt64} (denotes : bound.Denotes value) :
      Step .first bound .operator
  | dot (span : Span) : Step .operator (.punct (charCode '.') .joint span) .secondDot
  | touching (span : Span) : Step .secondDot (.punct (charCode '.') .joint span) .equals
  | apart (span : Span) : Step .secondDot (.punct (charCode '.') .alone span) .last
  | equals (spacing : Spacing) (span : Span) :
      Step .equals (.punct (charCode '=') spacing span) .last
  | exclusive {bound : Node} {value : UInt64} (denotes : bound.Denotes value) :
      Step .equals bound .finished
  | last {bound : Node} {value : UInt64} (denotes : bound.Denotes value) :
      Step .last bound .finished

theorem Step.unique {stage next next' : Stage} {node : Node} (step : Step stage node next)
    (step' : Step stage node next') : next' = next := by
  cases step with
  | name | keyword | first | dot | touching | apart | last =>
    cases step'
    rfl
  | equals =>
    cases step' with
    | equals => rfl
    | exclusive denotes => cases denotes
  | exclusive denotes =>
    cases step' with
    | equals => cases denotes
    | exclusive => rfl

/-- Nodes that lead from one stage to another. -/
inductive Reads : Stage → List Node → Stage → Prop
  | stay (stage : Stage) : Reads stage [] stage
  | step {stage next reached : Stage} {node : Node} {rest : List Node}
      (first : Step stage node next) (later : Reads next rest reached) :
      Reads stage (node :: rest) reached

namespace Reads

theorem append {stage middle reached : Stage} {front rest : List Node}
    (first : Reads stage front middle) (second : Reads middle rest reached) :
    Reads stage (front ++ rest) reached := by
  induction first with
  | stay => exact second
  | step taken _ inductionHypothesis => exact .step taken (inductionHypothesis second)

theorem unique {stage reached reached' : Stage} {nodes : List Node}
    (reads : Reads stage nodes reached) (reads' : Reads stage nodes reached') :
    reached' = reached := by
  induction reads with
  | stay =>
    cases reads'
    rfl
  | step taken _ inductionHypothesis =>
    cases reads' with
    | step taken' later' =>
      rw [taken.unique taken'] at later'
      exact inductionHypothesis later'

theorem of_append {stage reached : Stage} {front rest : List Node}
    (reads : Reads stage (front ++ rest) reached) :
    ∃ middle, Reads stage front middle ∧ Reads middle rest reached := by
  induction front generalizing stage with
  | nil => exact ⟨stage, .stay stage, reads⟩
  | cons node front inductionHypothesis =>
    cases reads with
    | step taken later =>
      obtain ⟨middle, inFront, inRest⟩ := inductionHypothesis later
      exact ⟨middle, .step taken inFront, inRest⟩

end Reads

/-- The literal of the smallest number. -/
def zero : Node := .literal .int (word ['0']) Span.null

theorem denotes_zero : zero.Denotes 0 := .literal _ (by decide)

/-- From every stage a header can be finished. -/
theorem Stage.exists_completion (stage : Stage) : ∃ more, Reads stage more .finished := by
  have fromLast : Reads .last [zero] .finished := .step (.last denotes_zero) (.stay _)
  have fromSecond := Reads.step (.apart Span.null) fromLast
  have fromOperator := Reads.step (.dot Span.null) fromSecond
  have fromFirst := Reads.step (.first denotes_zero) fromOperator
  have fromKeyword := Reads.step (.keyword Span.null) fromFirst
  cases stage with
  | name => exact ⟨_, .step (.name (word ['N']) Span.null) fromKeyword⟩
  | keyword => exact ⟨_, fromKeyword⟩
  | first => exact ⟨_, fromFirst⟩
  | operator => exact ⟨_, fromOperator⟩
  | secondDot => exact ⟨_, fromSecond⟩
  | equals => exact ⟨_, .step (.exclusive denotes_zero) (.stay _)⟩
  | last => exact ⟨_, fromLast⟩
  | finished => exact ⟨[], .stay _⟩

namespace Stage

/-- No node is left although the header is not finished, or the next node is not taken. -/
def Stuck (stage : Stage) (rest : List Node) : Prop :=
  (rest = [] → stage ≠ .finished) ∧ ∀ node ∈ rest.head?, ∀ next, ¬ Step stage node next

/-- The stages that need a bound of the range. -/
def WantsBound : Stage → Prop
  | .first | .equals | .last => True
  | _ => False

/-- A bound is needed, and there is a literal that has no value. -/
def Unconverted (stage : Stage) (rest : List Node) : Prop :=
  stage.WantsBound ∧ ∃ bound ∈ rest.head?, bound.Valueless

/-- Where the fault lies: at the next node or at the end, but for a second dot at the first one. -/
def place (atEnd : Span) (front rest : List Node) : Stage → Span
  | .secondDot => (front.getLast?.map Node.span).getD atEnd
  | _ => (rest.head?.map Node.span).getD atEnd

theorem Stuck.not_reads {stage : Stage} {rest : List Node} (stuck : stage.Stuck rest) :
    ¬ Reads stage rest .finished := by
  intro reads
  cases reads with
  | stay => exact stuck.1 rfl rfl
  | step taken => exact stuck.2 _ rfl _ taken

end Stage

/-- Behind these nodes the header is stuck at this stage, with this fault. -/
structure Halts (atEnd : Span) (front : List Node) (stage : Stage) (rest : List Node)
    (fault : Fault) : Prop where
  reads : Reads .name front stage
  stuck : stage.Stuck rest
  diagnosed : ∃ problem, fault = .diagnosed (stage.place atEnd front rest) problem ∧
    (problem.code = .rangeConversion ∧ stage.Unconverted rest ∨
      problem.code = .headerSyntax ∧ ¬ stage.Unconverted rest)

section Halting

variable {atEnd : Span} {front rest : List Node} {stage : Stage} {fault : Fault}

theorem Stage.place_eq_or_mem (stage : Stage) (atEnd : Span) (front rest : List Node) :
    stage.place atEnd front rest = atEnd ∨
      ∃ node ∈ front ++ rest, stage.place atEnd front rest = node.span := by
  have ofOption : ∀ {found : Option Node}, (∀ node ∈ found, node ∈ front ++ rest) →
      (found.map Node.span).getD atEnd = atEnd ∨
        ∃ node ∈ front ++ rest, (found.map Node.span).getD atEnd = node.span := by
    intro found inNodes
    cases found with
    | none => exact .inl rfl
    | some node => exact .inr ⟨node, inNodes node rfl, rfl⟩
  cases stage with
  | secondDot =>
    exact ofOption fun node isLast => List.mem_append_left rest (List.mem_of_getLast? isLast)
  | name | keyword | first | operator | equals | last | finished =>
    exact ofOption fun node isFirst => List.mem_append_right front (List.mem_of_head? isFirst)

theorem Stage.place_of_ne (notSecond : stage ≠ .secondDot) (front rest : List Node) :
    stage.place atEnd front rest = (rest.head?.map Node.span).getD atEnd := by
  cases stage with
  | secondDot => exact absurd rfl notSecond
  | name | keyword | first | operator | equals | last | finished => rfl

theorem Halts.of_unexpected {what : Expectation} (reads : Reads .name front stage)
    (stuck : stage.Stuck rest) (notSecond : stage ≠ .secondDot)
    (converted : ¬ stage.Unconverted rest) :
    Halts atEnd front stage rest (unexpected what atEnd rest) := by
  refine ⟨reads, stuck, .expected what rest.head?, ?_, .inr ⟨rfl, converted⟩⟩
  rw [unexpected_eq, Stage.place_of_ne notSecond]

theorem not_step_of_valueless {bound : Node} (valueless : bound.Valueless) (next : Stage) :
    ¬ Step stage bound next := by
  obtain ⟨span, noValue⟩ := valueless
  intro step
  cases step with
  | first denotes | exclusive denotes | last denotes =>
    obtain ⟨_, hasValue⟩ := denotes
    cases noValue.symm.trans hasValue

/-- How a bound is refused where one is needed. -/
theorem Halts.of_bound (reads : Reads .name front stage) (wants : stage.WantsBound)
    (noEquals : stage = .equals → ∀ spacing span,
      .punct (charCode '=') spacing span ∉ rest.head?)
    (refused : (fault = unexpected .integer atEnd rest ∧
        ∀ raw span, .literal .int raw span ∉ rest.head?) ∨
      ∃ bound others raw reason, bound.Valueless ∧ rest = bound :: others ∧
        fault = .diagnosed bound.span (.unreadableNumeral raw reason)) :
    Halts atEnd front stage rest fault := by
  have notSecond : stage ≠ .secondDot := by
    intro isSecond
    rw [isSecond] at wants
    exact wants
  have notFinished : stage ≠ .finished := by
    intro isFinished
    rw [isFinished] at wants
    exact wants
  rcases refused with ⟨rfl, noLiteral⟩ | ⟨bound, others, raw, reason, valueless, rfl, rfl⟩
  · refine .of_unexpected reads ⟨fun _ => notFinished, ?_⟩ notSecond ?_
    · intro node isFirst next step
      cases step with
      | name | keyword | dot | touching | apart => exact wants
      | equals spacing span => exact noEquals rfl spacing span isFirst
      | first denotes | exclusive denotes | last denotes =>
        obtain ⟨span, -⟩ := denotes
        exact noLiteral _ span isFirst
    · rintro ⟨-, bound, isFirst, valueless⟩
      obtain ⟨span, -⟩ := valueless
      exact noLiteral _ span isFirst
  · refine ⟨reads, ⟨fun _ => notFinished, ?_⟩, .unreadableNumeral raw reason, ?_,
      .inl ⟨rfl, wants, bound, rfl, valueless⟩⟩
    · intro node isFirst next
      cases isFirst
      exact not_step_of_valueless valueless next
    · rw [Stage.place_of_ne notSecond]
      rfl

/-- How an operator is refused where one is needed. -/
theorem exists_halts_of_operator (reads : Reads .name front .operator)
    (refused : (fault = unexpected .rangeOperator atEnd rest ∧
        ∀ spacing span, .punct (charCode '.') spacing span ∉ rest.head?) ∨
      ∃ spacing span others, rest = .punct (charCode '.') spacing span :: others ∧
        (spacing = .joint → ∀ spacing' span',
          .punct (charCode '.') spacing' span' ∉ others.head?) ∧
        fault = .diagnosed span .loneDot) :
    ∃ front' stage rest', front ++ rest = front' ++ rest' ∧
      Halts atEnd front' stage rest' fault := by
  rcases refused with ⟨rfl, noDot⟩ | ⟨spacing, span, others, rfl, noSecond, rfl⟩
  · refine ⟨front, .operator, rest, rfl, .of_unexpected reads ⟨by simp, ?_⟩ (by simp) (·.1)⟩
    intro node isFirst next step
    cases step with
    | dot span => exact noDot .joint span isFirst
  · cases spacing with
    | alone =>
      refine ⟨front, .operator, _, rfl, reads, ⟨by simp, ?_⟩, .loneDot, rfl, .inr ⟨rfl, (·.1)⟩⟩
      intro node isFirst next step
      cases isFirst
      cases step
    | joint =>
      -- A header may go on with this dot, so it is stuck one node later than its fault says.
      refine ⟨front ++ [.punct (charCode '.') .joint span], .secondDot, others, by simp,
        reads.append (.step (.dot span) (.stay _)), ⟨by simp, ?_⟩, .loneDot,
        by simp [Stage.place, Node.span], .inr ⟨rfl, (·.1)⟩⟩
      intro node isFirst next step
      cases step with
      | touching span' => exact noSecond rfl .joint span' isFirst
      | apart span' => exact noSecond rfl .alone span' isFirst

end Halting

/-- An operator leads to a stage that needs the last bound. -/
theorem Operator.exists_reads {operator rest : List Node} {inclusive : Bool}
    (isOperator : Operator operator inclusive) (greedy : Greedy operator rest) :
    ∃ stage, Reads .operator operator stage ∧ stage.WantsBound ∧
      (∀ {bound : Node} {value : UInt64}, bound.Denotes value → Step stage bound .finished) ∧
      (stage = .equals → ∀ spacing span, .punct (charCode '=') spacing span ∉ rest.head?) := by
  cases isOperator with
  | exclusive first second spacing =>
    cases spacing with
    | alone =>
      have reads := Reads.step (.dot first) (.step (.apart second) (.stay _))
      exact ⟨.last, reads, trivial, .last, by simp⟩
    | joint =>
      have reads := Reads.step (.dot first) (.step (.touching second) (.stay _))
      exact ⟨.equals, reads, trivial, .exclusive, fun _ => greedy first second rfl⟩
  | inclusive first second third spacing =>
    have reads := Reads.step (.dot first) (.step (.touching second)
      (.step (.equals spacing third) (.stay _)))
    exact ⟨.last, reads, trivial, .last, by simp⟩

/-- A list of nodes is read to the end of a header, or up to a stage at which it is stuck. -/
theorem ofNodes_halts (nodes : List Node) (atEnd : Span) :
    Outcome (ofNodes nodes atEnd) (fun _ => Reads .name nodes .finished)
      (fun fault => ∃ front stage rest, nodes = front ++ rest ∧
        Halts atEnd front stage rest fault) := by
  unfold ofNodes
  apply (readVariable_outcome atEnd nodes).bind
  · rintro ⟨⟨name, span⟩, rest⟩ rfl
    have readName : Reads .name [.ident name span] .keyword := .step (.name name span) (.stay _)
    apply (readKeyword_outcome atEnd rest).bind
    · rintro rest ⟨keywordSpan, rfl⟩
      have readKeyword := readName.append (.step (.keyword keywordSpan) (.stay _))
      apply (readInteger_outcome atEnd rest).bind
      · rintro ⟨start, rest⟩ ⟨first, denotesStart, rfl⟩
        have readFirst := readKeyword.append (.step (.first denotesStart) (.stay _))
        apply (readOperator_outcome atEnd rest).bind
        · rintro ⟨inclusive, rest⟩ ⟨operator, isOperator, greedy, rfl⟩
          obtain ⟨stage, inOperator, wants, finishes, noEquals⟩ := isOperator.exists_reads greedy
          have readOperator := readFirst.append inOperator
          apply (readInteger_outcome atEnd rest).bind
          · rintro ⟨stop, rest⟩ ⟨last, denotesStop, rfl⟩
            have readLast := readOperator.append (.step (finishes denotesStop) (.stay _))
            cases rest with
            | nil => exact readLast
            | cons node others =>
              refine ⟨_, .finished, node :: others, by simp, readLast, ⟨by simp, ?_⟩,
                .afterRange node, rfl, .inr ⟨rfl, (·.1)⟩⟩
              intro own _ next step
              cases step
          · intro fault refused
            exact ⟨_, stage, rest, by simp, .of_bound readOperator wants noEquals refused⟩
        · intro fault refused
          obtain ⟨front, stage, behind, isAll, halts⟩ := exists_halts_of_operator readFirst refused
          exact ⟨front, stage, behind, by simpa using isAll, halts⟩
      · intro fault refused
        exact ⟨_, .first, rest, by simp, .of_bound readKeyword trivial (by simp) refused⟩
    · rintro fault ⟨rfl, noKeyword⟩
      refine ⟨_, .keyword, rest, by simp, .of_unexpected readName ⟨by simp, ?_⟩ (by simp) (·.1)⟩
      intro node isFirst next step
      cases step with
      | keyword keywordSpan => exact noKeyword keywordSpan isFirst
  · rintro fault ⟨rfl, noIdent⟩
    refine ⟨[], .name, nodes, rfl, .of_unexpected (.stay _) ⟨by simp, ?_⟩ (by simp) (·.1)⟩
    intro node isFirst next step
    cases step with
    | name name span => exact noIdent name span isFirst

/-- The nodes are the start of an accepted header. -/
def Viable (nodes : List Node) : Prop :=
  ∃ more atEnd header, ofNodes (nodes ++ more) atEnd = .ok header

theorem viable_iff (nodes : List Node) : Viable nodes ↔ ∃ stage, Reads .name nodes stage := by
  constructor
  · rintro ⟨more, atEnd, header, accepted⟩
    have outcome := ofNodes_halts (nodes ++ more) atEnd
    rw [accepted] at outcome
    obtain ⟨stage, reads, -⟩ := Reads.of_append outcome
    exact ⟨stage, reads⟩
  · rintro ⟨stage, reads⟩
    obtain ⟨more, completes⟩ := stage.exists_completion
    have readAll := reads.append completes
    have outcome := ofNodes_halts (nodes ++ more) Span.null
    cases accepted : ofNodes (nodes ++ more) Span.null with
    | ok header => exact ⟨more, Span.null, header, accepted⟩
    | error fault =>
      -- A reading that gets stuck does not get to the end.
      rw [accepted] at outcome
      obtain ⟨front, stuckAt, rest, isAll, halts⟩ := outcome
      rw [isAll] at readAll
      obtain ⟨middle, inFront, inRest⟩ := readAll.of_append
      rw [halts.reads.unique inFront] at inRest
      exact absurd inRest halts.stuck.not_reads

/-- The nodes that are read before the header is stuck are its longest start that can go on. -/
theorem Halts.isGreatest {atEnd : Span} {front rest : List Node} {stage : Stage} {fault : Fault}
    (halts : Halts atEnd front stage rest fault) :
    IsGreatest {number | number ≤ (front ++ rest).length ∧ Viable ((front ++ rest).take number)}
      front.length := by
  constructor
  · refine ⟨by simp, ?_⟩
    rw [List.take_left]
    exact (viable_iff front).mpr ⟨stage, halts.reads⟩
  · rintro number ⟨within, viable⟩
    apply Nat.le_of_not_lt
    intro longer
    -- A longer start would take the node at which the header is stuck.
    obtain ⟨extra, rfl⟩ := Nat.exists_eq_add_of_lt longer
    obtain ⟨reached, reads⟩ := (viable_iff _).mp viable
    rw [Nat.add_assoc, List.take_length_add_append] at reads
    obtain ⟨middle, inFront, inRest⟩ := reads.of_append
    rw [halts.reads.unique inFront] at inRest
    cases rest with
    | nil =>
      rw [List.append_nil] at within
      omega
    | cons node others =>
      cases inRest with
      | step taken => exact halts.stuck.2 node rfl _ taken

/-! Which nodes lead to a stage. -/

section Shapes

variable {stage : Stage} {front rest : List Node}

/-- The first three nodes lead to the operator. -/
theorem Reads.drop_three (reads : Reads .name front stage) :
    Reads .operator (front.drop 3) stage ∧ 3 ≤ front.length ∨
      front.drop 3 = [] ∧ stage ≠ .secondDot ∧ (stage.WantsBound ↔ front.length = 2) := by
  cases reads with
  | stay => exact .inr ⟨rfl, by simp, by simp [Stage.WantsBound]⟩
  | step taken later =>
    cases taken
    cases later with
    | stay => exact .inr ⟨rfl, by simp, by simp [Stage.WantsBound]⟩
    | step taken later =>
      cases taken
      cases later with
      | stay => exact .inr ⟨rfl, by simp, by simp [Stage.WantsBound]⟩
      | step taken later =>
        cases taken
        exact .inl ⟨later, by simp⟩

theorem Reads.eq_finished (reads : Reads .finished rest stage) : stage = .finished := by
  cases reads with
  | stay => rfl
  | step taken => cases taken

theorem Reads.of_last (reads : Reads .last rest stage) :
    rest = [] ∧ stage = .last ∨ stage = .finished := by
  cases reads with
  | stay => exact .inl ⟨rfl, rfl⟩
  | step taken later =>
    cases taken
    exact .inr later.eq_finished

/-- From the operator on, the nodes are the first dot, an operator, or an operator and a bound. -/
theorem Reads.of_operator (reads : Reads .operator rest stage) :
    stage = .operator ∨
      stage = .secondDot ∧ (∃ span, rest = [.punct (charCode '.') .joint span]) ∨
      stage.WantsBound ∧ (∃ inclusive, Operator rest inclusive) ∨ stage = .finished := by
  cases reads with
  | stay => exact .inl rfl
  | step taken later =>
    cases taken with
    | dot first =>
      cases later with
      | stay => exact .inr (.inl ⟨rfl, first, rfl⟩)
      | step taken later =>
        refine .inr (.inr ?_)
        cases taken with
        | apart second =>
          rcases later.of_last with ⟨rfl, rfl⟩ | isFinished
          · exact .inl ⟨trivial, false, .exclusive first second .alone⟩
          · exact .inr isFinished
        | touching second =>
          cases later with
          | stay => exact .inl ⟨trivial, false, .exclusive first second .joint⟩
          | step taken later =>
            cases taken with
            | exclusive => exact .inr later.eq_finished
            | equals spacing third =>
              rcases later.of_last with ⟨rfl, rfl⟩ | isFinished
              · exact .inl ⟨trivial, true, .inclusive first second third spacing⟩
              · exact .inr isFinished

theorem Reads.secondDot_iff (reads : Reads .name front stage) :
    stage = .secondDot ↔ ∃ span, front.drop 3 = [.punct (charCode '.') .joint span] := by
  rcases reads.drop_three with ⟨reads, -⟩ | ⟨isShort, notSecond, -⟩
  · constructor
    · rintro rfl
      rcases reads.of_operator with isFirst | ⟨-, isDot⟩ | ⟨wants, -⟩ | isFinished
      · cases isFirst
      · exact isDot
      · cases wants
      · cases isFinished
    · rintro ⟨span, isDot⟩
      rw [isDot] at reads
      exact Reads.unique (.step (.dot span) (.stay _)) reads
  · simp [isShort, notSecond]

/-- A bound stands third, and directly behind the operator. -/
theorem Reads.wantsBound_iff (reads : Reads .name front stage) :
    stage.WantsBound ↔ front.length = 2 ∨ ∃ inclusive, Operator (front.drop 3) inclusive := by
  rcases reads.drop_three with ⟨reads, isLong⟩ | ⟨isShort, -, isSecond⟩
  · constructor
    · intro wants
      rcases reads.of_operator with rfl | ⟨rfl, -⟩ | ⟨-, isOperator⟩ | rfl
      · cases wants
      · cases wants
      · exact .inr isOperator
      · cases wants
    · rintro (tooShort | ⟨inclusive, isOperator⟩)
      · omega
      · have greedy : Greedy (front.drop 3) [] := by simp [Greedy]
        obtain ⟨reached, reads', wants, -⟩ := isOperator.exists_reads greedy
        rwa [reads'.unique reads]
  · rw [isSecond, isShort, or_iff_left]
    rintro ⟨inclusive, isOperator⟩
    cases isOperator

end Shapes

/-- The nodes before this number end in the first dot of an operator, and no dot follows. -/
def LoneDot (nodes : List Node) (number : Nat) (span : Span) : Prop :=
  (nodes.take number).drop 3 = [.punct (charCode '.') .joint span] ∧
    ∀ spacing span', .punct (charCode '.') spacing span' ∉ nodes[number]?

/-- The node with this number stands where a bound of the range does: it is the third one, or it
stands directly behind the operator. -/
def BoundPlace (nodes : List Node) (number : Nat) : Prop :=
  number = 2 ∨ ∃ inclusive, Operator ((nodes.take number).drop 3) inclusive

namespace Halts

variable {atEnd : Span} {front rest : List Node} {stage : Stage} {fault : Fault}

theorem span?_eq (halts : Halts atEnd front stage rest fault) :
    fault.span? = some (stage.place atEnd front rest) := by
  obtain ⟨problem, rfl, -⟩ := halts.diagnosed
  rfl

theorem code_iff (halts : Halts atEnd front stage rest fault) :
    fault.code = .rangeConversion ↔ stage.Unconverted rest := by
  obtain ⟨problem, rfl, ⟨isCode, unconverted⟩ | ⟨isCode, converted⟩⟩ := halts.diagnosed
  · exact iff_of_true isCode unconverted
  · refine iff_of_false (fun isOther => ?_) converted
    cases isCode.symm.trans isOther

theorem code_eq_or (halts : Halts atEnd front stage rest fault) :
    fault.code = .rangeConversion ∨ fault.code = .headerSyntax := by
  obtain ⟨problem, rfl, ⟨isCode, -⟩ | ⟨isCode, -⟩⟩ := halts.diagnosed
  · exact .inl isCode
  · exact .inr isCode

/-- A header that needs a second dot fails at the first one. -/
theorem place_of_dot (halts : Halts atEnd front stage rest fault) {span : Span}
    (isDot : front.drop 3 = [.punct (charCode '.') .joint span]) :
    stage.place atEnd front rest = span := by
  rw [halts.reads.secondDot_iff.mpr ⟨span, isDot⟩, ← List.take_append_drop 3 front, isDot]
  simp [Stage.place, Node.span]

theorem exists_loneDot (halts : Halts atEnd front stage rest fault)
    (isSecond : stage = .secondDot) :
    ∃ span, front.drop 3 = [.punct (charCode '.') .joint span] ∧
      ∀ spacing span', .punct (charCode '.') spacing span' ∉ rest.head? := by
  obtain ⟨span, isDot⟩ := halts.reads.secondDot_iff.mp isSecond
  refine ⟨span, isDot, fun spacing span' isNext => ?_⟩
  have notTaken := halts.stuck.2 _ isNext
  rw [isSecond] at notTaken
  cases spacing with
  | joint => exact notTaken .equals (.touching span')
  | alone => exact notTaken .last (.apart span')

end Halts

end Header

/-- A header fails at the first node with which no header goes on, or at the end. -/
theorem header_fault_at_divergence {nodes : List Node} {atEnd : Span} {fault : Fault}
    (failed : Header.ofNodes nodes atEnd = .error fault) :
    ∃ number,
      IsGreatest {number | number ≤ nodes.length ∧ Header.Viable (nodes.take number)} number ∧
      (∀ span, Header.LoneDot nodes number span → fault.span? = some span) ∧
      ((∀ span, ¬ Header.LoneDot nodes number span) →
        fault.span? = some ((nodes[number]?.map Node.span).getD atEnd)) ∧
      (fault.code = .rangeConversion ↔
        Header.BoundPlace nodes number ∧ ∃ bound ∈ nodes[number]?, bound.Valueless) ∧
      (fault.code = .rangeConversion ∨ fault.code = .headerSyntax) := by
  have outcome := Header.ofNodes_halts nodes atEnd
  rw [failed] at outcome
  obtain ⟨front, stage, rest, rfl, halts⟩ := outcome
  refine ⟨front.length, halts.isGreatest, ?_⟩
  have isNext : (front ++ rest)[front.length]? = rest.head? := by
    rw [List.getElem?_append_right (Nat.le_refl _), Nat.sub_self, List.head?_eq_getElem?]
  simp only [Header.LoneDot, Header.BoundPlace, isNext, List.take_left, halts.span?_eq]
  refine ⟨?_, ?_, ?_, halts.code_eq_or⟩
  · rintro span ⟨isDot, -⟩
    rw [halts.place_of_dot isDot]
  · intro noDot
    rw [Header.Stage.place_of_ne]
    intro isSecond
    obtain ⟨span, isLone⟩ := halts.exists_loneDot isSecond
    exact noDot span isLone
  · rw [halts.code_iff, Header.Stage.Unconverted, halts.reads.wantsBound_iff]

/-- A header that ends at the first dot of its operator. -/
def danglingDot : List Node :=
  [.ident (word ['N']) ⟨0, 1⟩, .ident Header.keyword ⟨2, 4⟩, .literal .int (word ['0']) ⟨5, 6⟩,
    .punct (charCode '.') .joint ⟨6, 7⟩]

theorem danglingDot_fault_at_divergence :
    ∃ fault, Header.ofNodes danglingDot ⟨7, 8⟩ = .error fault ∧
      IsGreatest {number | number ≤ danglingDot.length ∧
        Header.Viable (danglingDot.take number)} 4 ∧
      Header.LoneDot danglingDot 4 ⟨6, 7⟩ ∧ fault.span? = some ⟨6, 7⟩ := by
  have failed : Header.ofNodes danglingDot ⟨7, 8⟩ = .error (.diagnosed ⟨6, 7⟩ .loneDot) := by
    with_unfolding_all rfl
  have denotes : Node.Denotes (.literal .int (word ['0']) ⟨5, 6⟩) 0 := .literal _ (by decide)
  have viable : Header.Viable (danglingDot.take 4) :=
    (Header.viable_iff _).mpr ⟨.secondDot, .step (.name _ _) (.step (.keyword _)
      (.step (.first denotes) (.step (.dot _) (.stay _))))⟩
  have isLone : Header.LoneDot danglingDot 4 ⟨6, 7⟩ := ⟨rfl, by simp [danglingDot]⟩
  obtain ⟨number, greatest, atDot, -⟩ := header_fault_at_divergence failed
  have isAll : number = 4 :=
    Nat.le_antisymm greatest.1.1 (greatest.2 ⟨Nat.le_refl 4, viable⟩)
  rw [isAll] at greatest atDot
  exact ⟨_, failed, greatest, isLone, atDot _ isLone⟩

end Unroll
