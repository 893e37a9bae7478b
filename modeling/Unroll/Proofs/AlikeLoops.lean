import Unroll.Proofs.Erasure
import Unroll.Token.Assembly

set_option autoImplicit false

/-!
# Loops that are alike

Of all that likeness ignores, a loop looks at nothing but the hints of the dots in its header: dots
that touch say a range, and dots that do not are refused. Streams that also agree in the hints of
punctuation in front of other punctuation expand to streams that are alike, or are refused with the
same code. Likeness alone does not give that.
-/

namespace Unroll

namespace Node

def spacing? : Node → Option Spacing
  | .punct _ spacing _ => some spacing
  | _ => none

theorem alike_symm {node node' : Node} (alike : node.alike node' = true) :
    node'.alike node = true :=
  (alike_iff_erased_eq _ _).mpr ((alike_iff_erased_eq _ _).mp alike).symm

theorem eq_ident_of_alike {name : Bytes} {span : Span} {node : Node}
    (alike : (Node.ident name span).alike node = true) : ∃ span', node = .ident name span' := by
  cases node with
  | literal | punct | group => cases alike
  | ident own span' => exact ⟨span', by rw [beq_iff_eq.mp alike]⟩

theorem eq_literal_of_alike {kind : LiteralKind} {raw : Bytes} {span : Span} {node : Node}
    (alike : (Node.literal kind raw span).alike node = true) :
    ∃ span', node = .literal kind raw span' := by
  cases node with
  | ident | punct | group => cases alike
  | literal own ownRaw span' =>
    obtain ⟨sameKind, sameRaw⟩ := Bool.and_eq_true_iff.mp alike
    exact ⟨span', by rw [beq_iff_eq.mp sameKind, beq_iff_eq.mp sameRaw]⟩

theorem eq_punct_of_alike {char : Int32} {spacing : Spacing} {span : Span} {node : Node}
    (alike : (Node.punct char spacing span).alike node = true) :
    ∃ spacing' span', node = .punct char spacing' span' := by
  cases node with
  | ident | literal | group => cases alike
  | punct own spacing' span' => exact ⟨spacing', span', by rw [beq_iff_eq.mp alike]⟩

theorem eq_group_of_alike {delimiter : Delimiter} {children : Stream} {span : Span} {node : Node}
    (alike : (Node.group delimiter children span).alike node = true) :
    ∃ children' span', node = .group delimiter children' span' ∧
      Stream.alike children children' = true := by
  cases node with
  | ident | literal | punct => cases alike
  | group own children' span' =>
    obtain ⟨sameDelimiter, inside⟩ := Bool.and_eq_true_iff.mp alike
    exact ⟨children', span', by rw [beq_iff_eq.mp sameDelimiter], inside⟩

theorem IsPunctuation.of_alike {node node' : Node} (isPunctuation : node.IsPunctuation)
    (alike : node.alike node' = true) : node'.IsPunctuation := by
  obtain ⟨char, spacing, span, rfl⟩ := (isPunctuation_iff node).mp isPunctuation
  obtain ⟨spacing', span', rfl⟩ := eq_punct_of_alike alike
  trivial

end Node

namespace Stream

/-- Streams that coincide in everything but spans and the hints of punctuation without other
punctuation behind it. -/
inductive Coincides : Stream → Stream → Prop
  | nil : Coincides [] []
  | ident {name : Bytes} {span span' : Span} {rest rest' : Stream} (behind : Coincides rest rest') :
      Coincides (.ident name span :: rest) (.ident name span' :: rest')
  | literal {kind : LiteralKind} {raw : Bytes} {span span' : Span} {rest rest' : Stream}
      (behind : Coincides rest rest') :
      Coincides (.literal kind raw span :: rest) (.literal kind raw span' :: rest')
  | punct {char : Int32} {spacing spacing' : Spacing} {span span' : Span} {rest rest' : Stream}
      (hint : rest.Punctuated → spacing = spacing') (behind : Coincides rest rest') :
      Coincides (.punct char spacing span :: rest) (.punct char spacing' span' :: rest')
  | group {delimiter : Delimiter} {children children' : Stream} {span span' : Span}
      {rest rest' : Stream} (inside : Coincides children children')
      (behind : Coincides rest rest') :
      Coincides (.group delimiter children span :: rest) (.group delimiter children' span' :: rest')

/-- Streams that are alike and in which each dot in front of punctuation has the same hint. -/
inductive SameDots : List Node → List Node → Prop
  | nil : SameDots [] []
  | cons {node node' : Node} {rest rest' : Stream} (alike : node.alike node' = true)
      (hint : node.isPunct (charCode '.') = true → Punctuated rest → node.spacing? = node'.spacing?)
      (behind : SameDots rest rest') : SameDots (node :: rest) (node' :: rest')

/-- Somewhere on the level of the streams themselves, a dot in front of punctuation has another
hint. -/
def DotsDiffer (stream stream' : Stream) : Prop :=
  ∃ (front front' : Stream) (spacing spacing' : Spacing) (span span' : Span)
    (rest rest' : Stream),
    stream = front ++ .punct (charCode '.') spacing span :: rest ∧
    stream' = front' ++ .punct (charCode '.') spacing' span' :: rest' ∧
    front.length = front'.length ∧ rest.Punctuated ∧ spacing ≠ spacing'

theorem Coincides.alike {stream stream' : Stream} (coincides : stream.Coincides stream') :
    Stream.alike stream stream' = true := by
  induction coincides with
  | nil => rfl
  | ident _ inRest | literal _ inRest | punct _ _ inRest => simp [Stream.alike, Node.alike, inRest]
  | group _ _ inside inRest => simp [Stream.alike, Node.alike, inside, inRest]

theorem Coincides.sameDots {stream stream' : Stream} (coincides : stream.Coincides stream') :
    SameDots stream stream' := by
  induction coincides with
  | nil => exact .nil
  | ident _ inRest | literal _ inRest =>
    exact .cons (by simp [Node.alike]) (fun isDot => absurd isDot (by simp [Node.isPunct])) inRest
  | punct hint _ inRest =>
    refine .cons (by simp [Node.alike]) (fun _ punctuated => ?_) inRest
    exact congrArg some (hint punctuated)
  | group inside _ _ inRest =>
    have alike := inside.alike
    refine .cons (by simp [Node.alike, alike]) (fun isDot => ?_) inRest
    exact absurd isDot (by simp [Node.isPunct])

theorem DotsDiffer.cons {stream stream' : Stream} (differ : stream.DotsDiffer stream')
    (node node' : Node) : DotsDiffer (node :: stream) (node' :: stream') := by
  obtain ⟨front, front', spacing, spacing', span, span', rest, rest', rfl, rfl, sameLength,
    punctuated, differ⟩ := differ
  exact ⟨node :: front, node' :: front', spacing, spacing', span, span', rest, rest', rfl, rfl,
    congrArg Nat.succ sameLength, punctuated, differ⟩

theorem sameDots_or_differ (stream stream' : Stream) (alike : Stream.alike stream stream' = true) :
    SameDots stream stream' ∨ stream.DotsDiffer stream' := by
  induction stream generalizing stream' with
  | nil =>
    cases stream' with
    | nil => exact .inl .nil
    | cons => cases alike
  | cons node rest inductionHypothesis =>
    cases stream' with
    | nil => cases alike
    | cons node' rest' =>
      obtain ⟨inNode, inRest⟩ := Bool.and_eq_true_iff.mp alike
      rcases inductionHypothesis rest' inRest with behind | differ
      · by_cases hint : node.isPunct (charCode '.') = true → Punctuated rest →
            node.spacing? = node'.spacing?
        · exact .inl (.cons inNode hint behind)
        · -- The first nodes are the dots that differ.
          obtain ⟨isDot, punctuated, differ⟩ := by simpa only [Classical.not_imp] using hint
          obtain ⟨spacing, span, rfl⟩ := Node.eq_punct_of_isPunct isDot
          obtain ⟨spacing', span', rfl⟩ := Node.eq_punct_of_alike inNode
          exact .inr ⟨[], [], spacing, spacing', span, span', rest, rest', rfl, rfl, rfl,
            punctuated, fun same => differ (congrArg some same)⟩
      · exact .inr (differ.cons node node')

namespace SameDots

theorem punctuated_iff {stream stream' : Stream} (same : SameDots stream stream') :
    stream.Punctuated ↔ stream'.Punctuated := by
  cases same with
  | nil => exact Iff.rfl
  | cons alike hint behind =>
    rw [punctuated_cons_iff, punctuated_cons_iff]
    exact ⟨fun isFirst => isFirst.of_alike alike,
      fun isFirst => isFirst.of_alike (Node.alike_symm alike)⟩

theorem symm {stream stream' : Stream} (same : SameDots stream stream') :
    SameDots stream' stream := by
  induction same with
  | nil => exact .nil
  | cons alike hint behind inductionHypothesis =>
    refine .cons (Node.alike_symm alike) (fun isDot punctuated => ?_) inductionHypothesis
    obtain ⟨spacing', span', rfl⟩ := Node.eq_punct_of_isPunct isDot
    obtain ⟨spacing, span, rfl⟩ := Node.eq_punct_of_alike (Node.alike_symm alike)
    exact (hint isDot (behind.punctuated_iff.mpr punctuated)).symm

theorem of_append {front rest stream' : Stream} (same : SameDots (front ++ rest) stream') :
    ∃ front' rest', stream' = front' ++ rest' ∧ SameDots front front' ∧ SameDots rest rest' := by
  induction front generalizing stream' with
  | nil => exact ⟨[], stream', rfl, .nil, same⟩
  | cons node front inductionHypothesis =>
    cases same with
    | cons alike hint behind =>
      obtain ⟨front', rest', rfl, inFront, inRest⟩ := inductionHypothesis behind
      refine ⟨_ :: front', rest', rfl, .cons alike (fun isDot punctuated => ?_) inFront, inRest⟩
      exact hint isDot (punctuated.append rest)

theorem bodiless {stream stream' : Stream} (same : SameDots stream stream')
    (bodiless : stream.Bodiless) : stream'.Bodiless := by
  induction same with
  | nil => exact bodiless
  | cons alike hint behind inductionHypothesis =>
    intro body span membership
    rcases List.mem_cons.mp membership with isBody | membership
    · rw [← isBody] at alike
      obtain ⟨body', span', rfl, -⟩ := Node.eq_group_of_alike (Node.alike_symm alike)
      exact bodiless body' span' List.mem_cons_self
    · have inRest := fun body span inside => bodiless body span (.tail _ inside)
      exact inductionHypothesis inRest body span membership

end SameDots

end Stream

/-! Headers and loops. -/

namespace Header

/-- The first three nodes of a header are alike whatever their hints are. -/
theorem exists_of_sameDots {name key raw : Bytes} {span keySpan rawSpan : Span} {kind : LiteralKind}
    {rest nodes' : List Node}
    (same : Stream.SameDots (.ident name span :: .ident key keySpan ::
      .literal kind raw rawSpan :: rest) nodes') :
    ∃ span' keySpan' rawSpan' rest', nodes' = .ident name span' :: .ident key keySpan' ::
      .literal kind raw rawSpan' :: rest' ∧ Stream.SameDots rest rest' := by
  obtain _ | ⟨nameAlike, -, _ | ⟨keyAlike, -, _ | ⟨rawAlike, -, behind⟩⟩⟩ := same
  obtain ⟨span', rfl⟩ := Node.eq_ident_of_alike nameAlike
  obtain ⟨keySpan', rfl⟩ := Node.eq_ident_of_alike keyAlike
  obtain ⟨rawSpan', rfl⟩ := Node.eq_literal_of_alike rawAlike
  exact ⟨span', keySpan', rawSpan', _, rfl, behind⟩

/-- Dots with the same hints say the same operator. -/
theorem Operator.of_sameDots {operator rest nodes' : List Node} {inclusive : Bool}
    {kind : LiteralKind} {raw : Bytes} {span : Span} (isOperator : Operator operator inclusive)
    (same : Stream.SameDots (operator ++ .literal kind raw span :: rest) nodes') :
    ∃ operator' span' rest', Operator operator' inclusive ∧
      nodes' = operator' ++ .literal kind raw span' :: rest' ∧ Stream.SameDots rest rest' := by
  have touches : ∀ {spacing' : Spacing}, some Spacing.joint = some spacing' → spacing' = .joint :=
    fun hint => (Option.some.inj hint).symm
  cases isOperator with
  | exclusive first second spacing =>
    obtain _ | ⟨firstAlike, firstHint, _ | ⟨secondAlike, -, _ | ⟨boundAlike, -, behind⟩⟩⟩ := same
    obtain ⟨_, first', rfl⟩ := Node.eq_punct_of_alike firstAlike
    obtain ⟨spacing', second', rfl⟩ := Node.eq_punct_of_alike secondAlike
    obtain ⟨span', rfl⟩ := Node.eq_literal_of_alike boundAlike
    obtain rfl := touches (firstHint rfl ((Stream.punctuated_cons_iff _ _).mpr trivial))
    exact ⟨_, span', _, .exclusive first' second' spacing', rfl, behind⟩
  | inclusive first second third spacing =>
    obtain _ | ⟨firstAlike, firstHint, _ | ⟨secondAlike, secondHint, _ | ⟨thirdAlike, -,
      _ | ⟨boundAlike, -, behind⟩⟩⟩⟩ := same
    obtain ⟨_, first', rfl⟩ := Node.eq_punct_of_alike firstAlike
    obtain ⟨_, second', rfl⟩ := Node.eq_punct_of_alike secondAlike
    obtain ⟨spacing', third', rfl⟩ := Node.eq_punct_of_alike thirdAlike
    obtain ⟨span', rfl⟩ := Node.eq_literal_of_alike boundAlike
    obtain rfl := touches (firstHint rfl ((Stream.punctuated_cons_iff _ _).mpr trivial))
    obtain rfl := touches (secondHint rfl ((Stream.punctuated_cons_iff _ _).mpr trivial))
    exact ⟨_, span', _, .inclusive first' second' third' spacing', rfl, behind⟩

theorem Written.of_sameDots {nodes nodes' : List Node} {header : Header}
    (written : Written nodes header) (same : Stream.SameDots nodes nodes') :
    ∃ span', Written nodes' { header with variableSpan := span' } := by
  obtain ⟨_, _, ⟨_, readStart⟩, ⟨_, readStop⟩, ⟨keywordSpan, isOperator⟩⟩ := written
  obtain ⟨span', keywordSpan', startSpan, _, rfl, behind⟩ := exists_of_sameDots same
  obtain ⟨operator', stopSpan, _, isOperator', rfl, nothing⟩ := isOperator.of_sameDots behind
  cases nothing
  exact ⟨span', _, _, .literal startSpan readStart, .literal stopSpan readStop,
    .nodes keywordSpan' isOperator'⟩

theorem Unreadable.of_sameDots {nodes nodes' : List Node} (unreadable : Unreadable nodes)
    (same : Stream.SameDots nodes nodes') : Unreadable nodes' := by
  cases unreadable with
  | first valueless =>
    obtain ⟨_, noValue⟩ := valueless
    obtain ⟨_, _, boundSpan, _, rfl, -⟩ := exists_of_sameDots same
    exact .first (.literal boundSpan noValue)
  | last denotes isOperator valueless =>
    obtain ⟨_, readStart⟩ := denotes
    obtain ⟨_, noValue⟩ := valueless
    obtain ⟨_, _, startSpan, _, rfl, behind⟩ := exists_of_sameDots same
    obtain ⟨operator', boundSpan, _, isOperator', rfl, -⟩ := isOperator.of_sameDots behind
    exact .last (.literal startSpan readStart) isOperator' (.literal boundSpan noValue)

end Header

namespace Loop

theorem exists_of_sameDots {nodes : List Node} {body : Stream} {span : Span} {stream' : Stream}
    (same : Stream.SameDots (nodes ++ [.group .curly body span]) stream') :
    ∃ nodes' body' span', stream' = nodes' ++ [.group .curly body' span'] ∧
      Stream.SameDots nodes nodes' ∧ Stream.alike body body' = true := by
  obtain ⟨nodes', _, rfl, inNodes, _ | ⟨bodyAlike, -, behind⟩⟩ := same.of_append
  obtain ⟨body', span', rfl, alike⟩ := Node.eq_group_of_alike bodyAlike
  cases behind
  exact ⟨nodes', body', span', rfl, inNodes, alike⟩

theorem Written.of_sameDots {header : Header} {body stream stream' : Stream}
    (written : Written header body stream) (same : Stream.SameDots stream stream') :
    ∃ span' body', Stream.alike body body' = true ∧
      Written { header with variableSpan := span' } body' stream' := by
  obtain ⟨nodes, span, isHeader, rfl⟩ := written
  obtain ⟨nodes', body', bodySpan, rfl, inNodes, alike⟩ := exists_of_sameDots same
  obtain ⟨span', isHeader'⟩ := isHeader.of_sameDots inNodes
  exact ⟨span', body', alike, nodes', bodySpan, isHeader', rfl⟩

theorem Unreadable.of_sameDots {stream stream' : Stream} (unreadable : Unreadable stream)
    (same : Stream.SameDots stream stream') : Unreadable stream' := by
  obtain ⟨nodes, body, span, bodiless, isHeader, rfl⟩ := unreadable
  obtain ⟨nodes', body', bodySpan, rfl, inNodes, -⟩ := exists_of_sameDots same
  exact ⟨nodes', body', bodySpan, inNodes.bodiless bodiless, isHeader.of_sameDots inNodes, rfl⟩

end Loop

/-- Both expansions succeed with streams that are alike, or both are refused with one code. -/
inductive SameOutcome : Except Fault Stream → Except Fault Stream → Prop
  | expanded {out out' : Stream} (alike : Stream.alike out out' = true) :
      SameOutcome (.ok out) (.ok out')
  | refused {fault fault' : Fault} (sameCode : fault.code = fault'.code) :
      SameOutcome (.error fault) (.error fault')

namespace Stream

variable {style : Style} {stream : Stream} {fault : Fault}

theorem code_of_bodiless (bodiless : stream.Bodiless)
    (refused : stream.expand style = .error fault) : fault.code = .missingBody := by
  rw [expand_of_bodiless style bodiless] at refused
  cases refused
  rfl

theorem code_of_unreadable (unreadable : Loop.Unreadable stream)
    (refused : stream.expand style = .error fault) : fault.code = .rangeConversion := by
  obtain ⟨own, refusedAs, isConversion⟩ := expand_of_unreadable style unreadable
  cases refused.symm.trans refusedAs
  exact isConversion

theorem SameDots.exists_expand {stream' out : Stream} (same : SameDots stream stream')
    (expanded : stream.expand style = .ok out) :
    ∃ out', stream'.expand style = .ok out' ∧ Stream.alike out out' = true := by
  have outcome := expand_outcome style stream
  rw [expanded] at outcome
  obtain ⟨header, body, written, rfl⟩ := outcome
  obtain ⟨span', body', alike, written'⟩ := written.of_sameDots same
  refine ⟨_, expand_of_written style written', ?_⟩
  rw [unrolled_variableSpan style header span' body']
  exact alike_unrolled style header alike

/-- A loop looks at no other hints than those of its dots. -/
theorem SameDots.sameOutcome {stream' : Stream} (same : SameDots stream stream')
    (style : Style) : SameOutcome (stream.expand style) (stream'.expand style) := by
  cases expansion : stream.expand style with
  | ok out =>
    obtain ⟨out', expanded, alike⟩ := same.exists_expand expansion
    rw [expanded]
    exact .expanded alike
  | error fault =>
    cases expansion' : stream'.expand style with
    | ok out' =>
      obtain ⟨out, expanded, -⟩ := same.symm.exists_expand expansion'
      rw [expansion] at expanded
      cases expanded
    | error fault' =>
      have outcome := expand_outcome style stream
      have outcome' := expand_outcome style stream'
      rw [expansion] at outcome
      rw [expansion'] at outcome'
      apply SameOutcome.refused
      rcases outcome with ⟨code, bodiless⟩ | ⟨code, unreadable⟩ | code
      · rw [code, code_of_bodiless (same.bodiless bodiless) expansion']
      · rw [code, code_of_unreadable (unreadable.of_sameDots same) expansion']
      · rcases outcome' with ⟨code', bodiless⟩ | ⟨code', unreadable⟩ | code'
        · rw [code', code_of_bodiless (same.symm.bodiless bodiless) expansion]
        · rw [code', code_of_unreadable (unreadable.of_sameDots same.symm) expansion]
        · rw [code, code']

end Stream

/-- Streams that coincide but for spans and hints without meaning expand to the same outcome. So do
streams that are only alike, unless a dot in front of punctuation has a hint in one of them that it
does not have in the other. -/
theorem expansion_respects_hints (style : Style) (stream stream' : Stream) :
    (stream.Coincides stream' → Stream.alike stream stream' = true ∧
      SameOutcome (stream.expand style) (stream'.expand style)) ∧
    (Stream.alike stream stream' = true →
      SameOutcome (stream.expand style) (stream'.expand style) ∨ stream.DotsDiffer stream') := by
  constructor
  · intro coincides
    exact ⟨coincides.alike, coincides.sameDots.sameOutcome style⟩
  · intro alike
    rcases Stream.sameDots_or_differ stream stream' alike with same | differ
    · exact .inl (same.sameOutcome style)
    · exact .inr differ

/-- A loop over a range of one number, with its dots side by side. -/
def tightLoop : Stream :=
  [.ident (word ['N']) ⟨0, 1⟩, .ident (word ['i', 'n']) ⟨2, 4⟩, .literal .int (word ['0']) ⟨5, 6⟩,
    .punct (charCode '.') .joint ⟨6, 7⟩, .punct (charCode '.') .alone ⟨7, 8⟩,
    .literal .int (word ['1']) ⟨8, 9⟩, .group .curly [.ident (word ['x']) ⟨12, 13⟩] ⟨10, 15⟩]

/-- The same loop with blanks around its dots. -/
def spreadLoop : Stream :=
  [.ident (word ['N']) ⟨0, 1⟩, .ident (word ['i', 'n']) ⟨2, 4⟩, .literal .int (word ['0']) ⟨5, 6⟩,
    .punct (charCode '.') .alone ⟨7, 8⟩, .punct (charCode '.') .alone ⟨9, 10⟩,
    .literal .int (word ['1']) ⟨11, 12⟩, .group .curly [.ident (word ['x']) ⟨15, 16⟩] ⟨13, 18⟩]

/-- The first loop elsewhere, with a hint at its second dot that nothing behind it bears out. -/
def hintedLoop : Stream :=
  [.ident (word ['N']) ⟨20, 21⟩, .ident (word ['i', 'n']) ⟨22, 24⟩,
    .literal .int (word ['0']) ⟨25, 26⟩, .punct (charCode '.') .joint ⟨26, 27⟩,
    .punct (charCode '.') .joint ⟨27, 28⟩, .literal .int (word ['1']) ⟨28, 29⟩,
    .group .curly [.ident (word ['x']) ⟨32, 33⟩] ⟨30, 35⟩]

theorem spreadLoop_expands_differently :
    Stream.parse (word ['N', ' ', 'i', 'n', ' ', '0', '.', '.', '1', ' ', '\x7b', ' ', 'x', ' ',
      '\x7d']) = .ok tightLoop ∧
    Stream.parse (word ['N', ' ', 'i', 'n', ' ', '0', ' ', '.', ' ', '.', ' ', '1', ' ', '\x7b',
      ' ', 'x', ' ', '\x7d']) = .ok spreadLoop ∧
    tightLoop.Coincides hintedLoop ∧
    SameOutcome (tightLoop.expand {}) (hintedLoop.expand {}) ∧
    Stream.alike tightLoop spreadLoop = true ∧
    ¬ SameOutcome (tightLoop.expand {}) (spreadLoop.expand {}) ∧
    tightLoop.DotsDiffer spreadLoop := by
  have parsed : Stream.parse (word ['N', ' ', 'i', 'n', ' ', '0', '.', '.', '1', ' ', '\x7b', ' ',
      'x', ' ', '\x7d']) = .ok tightLoop := by with_unfolding_all rfl
  have parsedSpread : Stream.parse (word ['N', ' ', 'i', 'n', ' ', '0', ' ', '.', ' ', '.', ' ',
      '1', ' ', '\x7b', ' ', 'x', ' ', '\x7d']) = .ok spreadLoop := by with_unfolding_all rfl
  have noHint (rest : Stream) : ¬ Stream.Punctuated (.literal .int (word ['1']) ⟨8, 9⟩ :: rest) :=
    mt (Stream.punctuated_cons_iff _ _).mp id
  have coincides : tightLoop.Coincides hintedLoop :=
    .ident (.ident (.literal (.punct (fun _ => rfl) (.punct (fun next => absurd next (noHint _))
      (.literal (.group (.ident .nil) .nil))))))
  have alike : Stream.alike tightLoop spreadLoop = true := by with_unfolding_all rfl
  have differently : ¬ SameOutcome (tightLoop.expand {}) (spreadLoop.expand {}) := by
    have expanded : tightLoop.expand {} = .ok [.ident (word ['x']) ⟨12, 13⟩] := by
      with_unfolding_all rfl
    have refused : spreadLoop.expand {} = .error (.diagnosed ⟨7, 8⟩ .loneDot) := by
      with_unfolding_all rfl
    rw [expanded, refused]
    intro same
    cases same
  exact ⟨parsed, parsedSpread, coincides,
    ((expansion_respects_hints {} tightLoop hintedLoop).1 coincides).2, alike, differently,
    ((expansion_respects_hints {} tightLoop spreadLoop).2 alike).resolve_left differently⟩

end Unroll
