import Unroll.Proofs.DepthLimits
import Unroll.Proofs.HeaderFaults
import Unroll.Proofs.Placement
import Unroll.Proofs.RepeatedSections

set_option autoImplicit false

/-!
# Where spans come from

No step from a source to its expansion invents a span. What is copied keeps its span, a value and a
pasted name take over that of the identifier they replace, and a fault is placed at a node or at
nodes taken together. So spans of an output are spans of the parsed source, and faults point into
the source.
-/

namespace Unroll

mutual

def Node.spans : Node → List Span
  | .group _ children span => span :: Stream.spans children
  | node => [node.span]

/-- The spans of all nodes on all levels. -/
def Stream.spans : Stream → List Span
  | [] => []
  | node :: rest => node.spans ++ Stream.spans rest

end

namespace Stream

@[simp] theorem spans_nil : Stream.spans [] = [] := rfl

@[simp] theorem spans_cons (node : Node) (rest : List Node) :
    Stream.spans (node :: rest) = node.spans ++ Stream.spans rest := rfl

@[simp] theorem spans_append (first second : List Node) :
    Stream.spans (first ++ second) = Stream.spans first ++ Stream.spans second := by
  induction first with
  | nil => rfl
  | cons node rest inductionHypothesis =>
    rw [List.cons_append, spans_cons, spans_cons, inductionHypothesis, List.append_assoc]

end Stream

theorem Node.spans_group (delimiter : Delimiter) (children : Stream) (span : Span) :
    (Node.group delimiter children span).spans = span :: children.spans := rfl

theorem Node.span_mem_spans (node : Node) : node.span ∈ node.spans := by
  cases node <;> exact List.mem_cons_self

namespace Stream

theorem spans_subset_of_mem {node : Node} {stream : Stream} (membership : node ∈ stream) :
    node.spans ⊆ stream.spans := by
  obtain ⟨before, behind, rfl⟩ := List.append_of_mem membership
  intro span inNode
  simp [inNode]

theorem spans_subset_of_suffix {part stream : Stream} (isSuffix : part <:+ stream) :
    part.spans ⊆ stream.spans := by
  obtain ⟨front, rfl⟩ := isSuffix
  rw [spans_append]
  exact List.subset_append_right _ _

theorem Level.spans_subset {stream level : Stream} (isLevel : stream.Level level) :
    level.spans ⊆ stream.spans := by
  induction isLevel with
  | top => exact List.Subset.refl _
  | @inside stream delimiter children span level membership _ inductionHypothesis =>
    intro own inLevel
    apply spans_subset_of_mem membership
    rw [Node.spans_group]
    exact List.mem_cons_of_mem _ (inductionHypothesis inLevel)

/-- A span is that of a node on some level. -/
theorem exists_level_of_mem_spans {stream : List Node} {span : Span}
    (membership : span ∈ Stream.spans stream) :
    ∃ level, Level stream level ∧ ∃ node ∈ level, node.span = span := by
  match stream with
  | [] => cases membership
  | node :: rest =>
    rw [spans_cons, List.mem_append] at membership
    rcases membership with inNode | inRest
    · cases node with
      | ident | literal | punct =>
        exact ⟨_, .top _, _, List.mem_cons_self, (List.mem_singleton.mp inNode).symm⟩
      | group delimiter children own =>
        rw [Node.spans_group, List.mem_cons] at inNode
        rcases inNode with rfl | inChildren
        · exact ⟨_, .top _, _, List.mem_cons_self, rfl⟩
        · obtain ⟨level, below, found⟩ := exists_level_of_mem_spans inChildren
          exact ⟨level, .inside List.mem_cons_self below, found⟩
    · obtain ⟨level, isLevel, other, inLevel, isSpan⟩ := exists_level_of_mem_spans inRest
      cases isLevel with
      | top => exact ⟨_, .top _, other, List.mem_cons_of_mem _ inLevel, isSpan⟩
      | inside membership below =>
        exact ⟨level, .inside (List.mem_cons_of_mem _ membership) below, other, inLevel, isSpan⟩

theorem mem_spans_iff (stream : Stream) (span : Span) :
    span ∈ stream.spans ↔ ∃ level, stream.Level level ∧ ∃ node ∈ level, node.span = span := by
  refine ⟨exists_level_of_mem_spans, ?_⟩
  rintro ⟨level, isLevel, node, inLevel, rfl⟩
  exact isLevel.spans_subset (spans_subset_of_mem inLevel node.span_mem_spans)

end Stream

/-! Copies. -/

section Copies

variable {paste : Int32} {binding : Binding}

theorem Chain.span_node (chain : Chain) : (chain.node binding).span = chain.span := by
  unfold Chain.node
  split <;> rfl

theorem Chain.Ends.span_eq {chain whole : Chain} {rest behind : Stream}
    (ends : Chain.Ends paste binding chain rest whole behind) : whole.span = chain.span := by
  induction ends with
  | stop => rfl
  | join goesOn inductionHypothesis => exact inductionHypothesis

theorem Node.span_substitute (node : Node) : (node.substitute paste binding).span = node.span := by
  cases node with
  | ident name span => exact Chain.span_node (.head name span)
  | literal | punct | group => rfl

namespace Stream

theorem Substituted.exists_span {stream copy : Stream}
    (copied : Substituted paste binding stream copy) :
    ∀ node ∈ copy, ∃ original ∈ stream, original.span = node.span := by
  induction copied with
  | nil => exact List.forall_mem_nil _
  | @chain name span rest behind copy whole ends copied inductionHypothesis =>
    intro node membership
    rcases List.mem_cons.mp membership with rfl | membership
    · refine ⟨.ident name span, List.mem_cons_self, ?_⟩
      rw [Chain.span_node, ends.span_eq]
      rfl
    · obtain ⟨original, inBehind, isSpan⟩ := inductionHypothesis node membership
      exact ⟨original, List.mem_cons_of_mem _ (ends.suffix.subset inBehind), isSpan⟩
  | @other node rest copy noName copied inductionHypothesis =>
    intro other membership
    rcases List.mem_cons.mp membership with rfl | membership
    · exact ⟨node, List.mem_cons_self, node.span_substitute.symm⟩
    · obtain ⟨original, inRest, isSpan⟩ := inductionHypothesis other membership
      exact ⟨original, List.mem_cons_of_mem _ inRest, isSpan⟩

theorem spans_substitute (stream : Stream) :
    Stream.spans (Stream.substitute paste binding stream) ⊆ stream.spans := by
  intro span membership
  obtain ⟨level, isLevel, node, inLevel, isSpan⟩ := exists_level_of_mem_spans membership
  obtain ⟨inner, isInner, rfl⟩ := isLevel.of_substitute
  obtain ⟨original, inInner, isOriginal⟩ :=
    (substituted paste binding inner).exists_span node inLevel
  exact (mem_spans_iff _ _).mpr ⟨inner, isInner, original, inInner, isOriginal.trans isSpan⟩

theorem spans_copies (header : Header) (body : Stream) :
    (Stream.copies paste header body).spans ⊆ body.spans := by
  unfold Stream.copies
  induction header.range.values with
  | nil => exact List.nil_subset _
  | cons value values inductionHypothesis =>
    rw [List.flatMap_cons, spans_append]
    exact List.append_subset.mpr ⟨spans_substitute body, inductionHypothesis⟩

end Stream

end Copies

theorem Skeleton.Cuts.spans_filled {marker continuation : Int32} {skeleton : Skeleton}
    {body : Stream} (cuts : Skeleton.Cuts marker continuation skeleton body) (paste : Int32)
    (header : Header) :
    Stream.spans (Skeleton.filled (Stream.copies paste header) skeleton) ⊆ body.spans := by
  intro span membership
  induction cuts with
  | nil => exact membership
  | @hole stream body rest skeleton opens behind inRest =>
    obtain ⟨spacing, markerSpan, groupSpan, spacing', continuationSpan, rfl⟩ := opens
    rw [Skeleton.filled, Stream.spans_append, List.mem_append] at membership
    rcases membership with inCopies | inFilled
    · have inBody := Stream.spans_copies header body inCopies
      simp [Node.spans_group, inBody]
    · simp [inRest inFilled]
  | leaf isLeaf closed behind inRest =>
    rw [Skeleton.filled, Stream.spans_append, List.mem_append] at membership
    rw [Stream.spans_cons, List.mem_append]
    rcases membership with inNode | inFilled
    · exact .inl (by simpa [Skeleton.Part.filled] using inNode)
    · exact .inr (inRest inFilled)
  | group closed inside behind inChildren inRest =>
    rw [Skeleton.filled, Stream.spans_append, List.mem_append, Skeleton.Part.filled,
      Stream.spans_cons, Stream.spans_nil, List.append_nil, Node.spans_group,
      List.mem_cons] at membership
    rw [Stream.spans_cons, List.mem_append, Node.spans_group, List.mem_cons]
    rcases membership with (isSpan | inInner) | inFilled
    · exact .inl (.inl isSpan)
    · exact .inl (.inr (inChildren inInner))
    · exact .inr (inRest inFilled)

/-- What a loop makes of its body has no other spans than the body. -/
theorem Stream.spans_unrolled (style : Style) (header : Header) (body : Stream) :
    (Stream.unrolled style header body).spans ⊆ body.spans := by
  by_cases holds : body.Holds (IsSection style.marker style.continuation)
  · obtain ⟨skeleton, cuts⟩ := Skeleton.exists_cuts style.marker style.continuation body
    rw [Stream.unrolled_of_holds holds, cuts.fill_stream style.paste header]
    exact cuts.spans_filled style.paste header
  · rw [Stream.unrolled_of_not_holds holds]
    exact Stream.spans_copies header body

/-! Faults. -/

/-- The null span, or offsets where spans of the list start and stop. -/
def Covered (spans : List Span) (span : Span) : Prop :=
  span = Span.null ∨
    (∃ first ∈ spans, first.start = span.start) ∧ ∃ last ∈ spans, last.stop = span.stop

namespace Covered

variable {spans : List Span}

theorem of_mem {span : Span} (membership : span ∈ spans) : Covered spans span :=
  .inr ⟨⟨span, membership, rfl⟩, span, membership, rfl⟩

theorem extend {span other : Span} (covered : Covered spans span) (membership : other ∈ spans) :
    Covered spans (span.extend other) := by
  unfold Span.extend
  split
  · exact .of_mem membership
  · rename_i notNull
    rcases covered with rfl | ⟨⟨first, inSpans, isStart⟩, last, inSpans', isStop⟩
    · exact absurd rfl notNull
    · refine .inr ⟨?_, ?_⟩
      · rcases Nat.le_total span.start other.start with earlier | later
        · exact ⟨first, inSpans, by dsimp only; omega⟩
        · exact ⟨other, membership, by dsimp only; omega⟩
      · rcases Nat.le_total span.stop other.stop with shorter | longer
        · exact ⟨other, membership, by dsimp only; omega⟩
        · exact ⟨last, inSpans', by dsimp only; omega⟩

theorem foldl_extend {nodes : List Node} (inNodes : ∀ node ∈ nodes, node.span ∈ spans)
    {span : Span} (covered : Covered spans span) :
    Covered spans (nodes.foldl (fun covered node => covered.extend node.span) span) := by
  induction nodes generalizing span with
  | nil => exact covered
  | cons node nodes inductionHypothesis =>
    obtain ⟨inNode, inRest⟩ := List.forall_mem_cons.mp inNodes
    exact inductionHypothesis inRest (covered.extend inNode)

end Covered

/-- A fault that is diagnosed at a span which the spans of the list cover. -/
def Fault.PlacedIn (spans : List Span) (fault : Fault) : Prop :=
  ∃ span problem, fault = .diagnosed span problem ∧ Covered spans span

theorem Fault.PlacedIn.of_mem {spans : List Span} {span : Span} (membership : span ∈ spans)
    (problem : Problem) : Fault.PlacedIn spans (.diagnosed span problem) :=
  ⟨span, problem, rfl, .of_mem membership⟩

theorem Header.ofNodes_placed {spans : List Span} {atEnd : Span} {nodes : List Node}
    (isEnd : atEnd ∈ spans) (inNodes : ∀ node ∈ nodes, node.span ∈ spans) :
    Outcome (ofNodes nodes atEnd) (fun _ => True) (Fault.PlacedIn spans) := by
  have outcome := ofNodes_halts nodes atEnd
  cases read : ofNodes nodes atEnd with
  | ok header => trivial
  | error fault =>
    rw [read] at outcome
    obtain ⟨front, stage, rest, rfl, halts⟩ := outcome
    obtain ⟨problem, rfl, -⟩ := halts.diagnosed
    apply Fault.PlacedIn.of_mem
    rcases stage.place_eq_or_mem atEnd front rest with isAtEnd | ⟨node, membership, isNode⟩
    · rwa [isAtEnd]
    · rw [isNode]
      exact inNodes node membership

/-- A generator that makes no spans of its own: given nodes with spans of the list it returns such
nodes, or a fault placed at them. -/
def Generator.KeepsSpans (spans : List Span) (generator : Generator) : Prop :=
  ∀ input : Stream, input.spans ⊆ spans →
    Outcome (generator input) (fun output => output.spans ⊆ spans) (Fault.PlacedIn spans)

theorem Stream.expand_keepsSpans (spans : List Span) (style : Style) :
    Generator.KeepsSpans spans (Stream.expand style) := by
  intro stream inSpans
  have inNodes : ∀ node ∈ stream, node.span ∈ spans := fun node membership =>
    inSpans (Stream.spans_subset_of_mem membership node.span_mem_spans)
  rcases stream.bodiless_or_exists with bodiless | ⟨nodes, body, span, rest, bodiless, rfl⟩
  · rw [Stream.expand_of_bodiless style bodiless]
    exact ⟨_, _, rfl, .foldl_extend inNodes (.inl rfl)⟩
  · obtain ⟨inHeader, inRest⟩ := List.forall_mem_append.mp inNodes
    obtain ⟨isEnd, inOthers⟩ := List.forall_mem_cons.mp inRest
    cases rest with
    | nil =>
      have outcome : Outcome (Header.ofNodes nodes span) _ _ :=
        Header.ofNodes_placed isEnd inHeader
      rw [Stream.expand_append style bodiless]
      cases read : Header.ofNodes nodes span with
      | ok header =>
        intro own inOutput
        have inBody := Stream.spans_unrolled style header body inOutput
        exact inSpans (by simp [Node.spans_group, inBody])
      | error fault =>
        rw [read] at outcome
        exact outcome
    | cons extra others =>
      unfold Stream.expand
      rw [Loop.ofStream_append_cons bodiless]
      exact .of_mem (inOthers extra List.mem_cons_self) _

/-! Splicing. -/

theorem Invocation.span_eq_of_ofNodes? {table : Generators} {first second third : Node}
    {invocation : Invocation} (found : ofNodes? table first second third = some invocation) :
    invocation.span = first.span.extend third.span := by
  unfold ofNodes? at found
  split at found
  · rw [Option.ite_none_right_eq_some] at found
    obtain ⟨generator, -, rfl⟩ := Option.map_eq_some_iff.mp found.2
    rfl
  · cases found

section Splicing

variable {table : Generators} {spans : List Span}

/-- What an invocation hands on has the spans of its nodes. -/
theorem Invocation.spans_of_ofNodes? {first second third : Node} {invocation : Invocation}
    (found : ofNodes? table first second third = some invocation) {rest : Stream}
    (inSpans : Stream.spans (first :: second :: third :: rest) ⊆ spans) :
    invocation.arguments.spans ⊆ spans ∧ Stream.spans (invocation.behind rest) ⊆ spans ∧
      Covered spans invocation.span := by
  have isSpan := span_eq_of_ofNodes? found
  obtain ⟨name, span, spacing, markSpan, groupSpan, -, rfl, rfl, rfl⟩ := shape_of_ofNodes? found
  have inRest : Stream.spans rest ⊆ spans := by
    intro own membership
    exact inSpans (by simp [membership])
  refine ⟨?_, ?_, ?_⟩
  · intro own membership
    exact inSpans (by simp [Node.spans_group, membership])
  · exact List.Subset.trans (Stream.spans_subset_of_suffix (invocation.behind_suffix rest)) inRest
  · rw [isSpan]
    refine Covered.extend (.of_mem (inSpans ?_)) (inSpans ?_)
    · simp [Node.spans]
    · simp [Node.spans_group, Node.span]

variable (keeps : ∀ name generator, table.get? name = some generator →
  Generator.KeepsSpans spans generator)

include keeps

theorem Invocation.outcome_of_ofNodes? {first second third : Node} {invocation : Invocation}
    (found : ofNodes? table first second third = some invocation) {rest : Stream}
    (inSpans : Stream.spans (first :: second :: third :: rest) ⊆ spans) :
    Outcome (invocation.generator invocation.arguments) (fun output => output.spans ⊆ spans)
      (Fault.PlacedIn spans) := by
  obtain ⟨name, _, _, _, _, registered, -⟩ := shape_of_ofNodes? found
  exact keeps name _ registered _ (spans_of_ofNodes? found inSpans).1

/-- A run that ends makes no spans, if no generator does. -/
theorem Stream.Splices.spans_subset {levels : Nat} {stream : Stream} {patches : Patchwork}
    (splices : Stream.Splices table levels stream patches) (inSpans : stream.spans ⊆ spans) :
    Stream.spans (Patchwork.nodes patches) ⊆ spans := by
  induction splices with
  | nil => exact List.nil_subset _
  | leaf isLeaf noInvocation behind inductionHypothesis =>
    obtain ⟨inNode, inRest⟩ := List.append_subset.mp inSpans
    rw [Patchwork.nodes, Stream.spans_append]
    refine List.append_subset.mpr ⟨?_, inductionHypothesis inRest⟩
    simpa [Patch.nodes] using inNode
  | @group levels delimiter children rest span inner patches _ _ inChildren behindSpans =>
    rw [Stream.spans_cons, Node.spans_group] at inSpans
    obtain ⟨inNode, inRest⟩ := List.append_subset.mp inSpans
    obtain ⟨inSpan, inInner⟩ := List.cons_subset.mp inNode
    rw [Patchwork.nodes, Stream.spans_append]
    refine List.append_subset.mpr ⟨?_, behindSpans inRest⟩
    rw [Patch.nodes, Stream.spans_cons, Stream.spans_nil, List.append_nil, Node.spans_group]
    exact List.cons_subset.mpr ⟨inSpan, inChildren inInner⟩
  | invocation found generates output behind inOutput behindSpans =>
    have outcome := Invocation.outcome_of_ofNodes? keeps found inSpans
    rw [generates] at outcome
    rw [Patchwork.nodes, Stream.spans_append]
    refine List.append_subset.mpr ⟨inOutput outcome, behindSpans ?_⟩
    exact (Invocation.spans_of_ofNodes? found inSpans).2.1

/-- A run that stops is stopped at a node of the stream or of an output. -/
theorem Stream.Stops.placedIn {levels : Nat} {stream : Stream} {failure : Failure}
    (stops : Stream.Stops table levels stream failure) (inSpans : stream.spans ⊆ spans)
    (limit : Int) : Fault.PlacedIn spans (failure.fault limit) := by
  induction stops with
  | behindLeaf _ _ _ inRest =>
    exact inRest (List.append_subset.mp inSpans).2
  | insideGroup _ inChildren =>
    rw [Stream.spans_cons, Node.spans_group] at inSpans
    exact inChildren (List.cons_subset.mp (List.append_subset.mp inSpans).1).2
  | behindGroup _ _ inRest => exact inRest (List.append_subset.mp inSpans).2
  | noLevel found => exact ⟨_, _, rfl, (Invocation.spans_of_ofNodes? found inSpans).2.2⟩
  | refusal found refuses =>
    have outcome := Invocation.outcome_of_ofNodes? keeps found inSpans
    rwa [refuses] at outcome
  | insideOutput found generates _ inOutput =>
    have outcome := Invocation.outcome_of_ofNodes? keeps found inSpans
    rw [generates] at outcome
    exact inOutput outcome
  | behindOutput found _ _ _ inRest =>
    exact inRest (Invocation.spans_of_ofNodes? found inSpans).2.1

theorem Stream.splice_keepsSpans (limit : Int) :
    Generator.KeepsSpans spans (Stream.splice table limit) := by
  intro stream inSpans
  cases spliced : Stream.splice table limit stream with
  | ok output =>
    obtain ⟨patches, splices, rfl⟩ := (Stream.splice_eq_ok_iff limit output).mp spliced
    exact splices.spans_subset keeps inSpans
  | error fault =>
    obtain ⟨failure, stops, rfl⟩ := (Stream.splice_eq_error_iff limit fault).mp spliced
    exact stops.placedIn keeps inSpans limit

end Splicing

/-! Reading a source. -/

namespace Assembly

variable {accepts : Fault → Prop}

/-- A span at which every fault of a bracket is accepted. -/
def AcceptsBracket (accepts : Fault → Prop) (span : Span) : Prop :=
  ∀ problem : Problem, problem.code = .delimiter → accepts (.diagnosed span problem)

theorem accepts_of_finish {reported : Option Fault} {stack : List OpenGroup} {nodes : List Node}
    {fault : Fault} (inReported : ∀ own ∈ reported, accepts own)
    (inStack : ∀ group ∈ stack, AcceptsBracket accepts group.opener)
    (failed : finish reported stack nodes = .error fault) : accepts fault := by
  cases reported with
  | some own =>
    cases failed
    exact inReported fault rfl
  | none =>
    cases stack with
    | nil => cases failed
    | cons innermost stack =>
      cases failed
      exact inStack innermost List.mem_cons_self _ rfl

/-- An assembly fails with a reported fault or at the bracket of a token. -/
theorem accepts_of_run (events : List Event) {pulled : Nat} {reported : Option Fault}
    {stack : List OpenGroup} {nodes : List Node} {fault : Fault}
    (inReported : ∀ own ∈ reported, accepts own)
    (inReports : ∀ own, .report own ∈ events → accepts own)
    (inTokens : ∀ token, .token token ∈ events → token.kind ≠ .eof →
      AcceptsBracket accepts token.span)
    (inStack : ∀ group ∈ stack, AcceptsBracket accepts group.opener)
    (failed : (run pulled reported stack nodes events).result = .error fault) :
    accepts fault := by
  induction events generalizing pulled reported stack nodes with
  | nil => exact accepts_of_finish inReported inStack failed
  | cons event events inductionHypothesis =>
    have laterReports : ∀ own, .report own ∈ events → accepts own :=
      fun own membership => inReports own (.tail _ membership)
    have laterTokens : ∀ token, .token token ∈ events → token.kind ≠ .eof →
        AcceptsBracket accepts token.span :=
      fun token membership => inTokens token (.tail _ membership)
    cases event with
    | report own =>
      refine inductionHypothesis ?_ laterReports laterTokens inStack failed
      intro first isFirst
      cases reported with
      | none =>
        cases isFirst
        exact inReports own List.mem_cons_self
      | some earlier => exact inReported first isFirst
    | token token =>
      by_cases isEnd : token.kind = .eof
      · rw [run_end isEnd] at failed
        exact accepts_of_finish inReported inStack failed
      · have inToken := inTokens token List.mem_cons_self isEnd
        rcases run_token isEnd stack nodes with
          ⟨problem, isDelimiter, refused⟩ | ⟨stack', nodes', groups, read⟩
        · rw [refused] at failed
          cases failed
          exact inToken problem isDelimiter
        · rw [read] at failed
          refine inductionHypothesis inReported laterReports laterTokens ?_ failed
          intro group membership
          rcases groups group membership with isOpener | inRest
          · rw [isOpener]
            exact inToken
          · exact inStack group inRest

end Assembly

theorem deadEnd_le_length (rules : List Rule) (text : Bytes) :
    deadEnd rules text ≤ text.length := by
  induction text generalizing rules with
  | nil => exact Nat.le_refl 0
  | cons b rest inductionHypothesis =>
    simp only [deadEnd, List.length_cons]
    split
    · exact Nat.le_add_left 1 _
    · exact Nat.succ_le_succ (inductionHypothesis _)

/-- A scanner yields tokens that lie in the source, an end, and at most a report from where it could
read on to where it could not. -/
theorem Scanner.event_cases {source : Bytes} {event : Event}
    (yielded : event ∈ (Scanner.ofSource source).events) :
    (∃ token, event = .token token ∧ (token.kind = .eof ∨ LiesIn source token)) ∨
      ∃ stop read, event = .report (unscannableAt source stop read) ∧
        stop + read ≤ source.length := by
  obtain ⟨tokens, stop, rest, scans, -, events⟩ := Scanner.events_eq (Scanner.ofSource source) rfl
  have isSource : source = source.drop 0 := rfl
  obtain ⟨partition, isRest⟩ := scans.partition isSource (Nat.zero_le _)
  rw [events, List.mem_append] at yielded
  rcases yielded with inTokens | isLast
  · obtain ⟨token, membership, rfl⟩ := List.mem_map.mp inTokens
    exact .inl ⟨token, rfl, .inr (partition.liesIn token membership)⟩
  · rcases Scanner.event_of_lastAnswer isLast with ⟨token, isToken, isEnd⟩ | ⟨-, isReport⟩
    · exact .inl ⟨token, isToken, .inl isEnd⟩
    · refine .inr ⟨stop, deadEnd Rule.all rest, isReport, ?_⟩
      have within := partition.stop_le_length.2
      have bound := deadEnd_le_length Rule.all rest
      have size : rest.length = source.length - stop := by rw [isRest, List.length_drop]
      omega

/-- The offsets at which faults of a source may start: its beginning, where a parsed node starts,
for an unbalanced bracket where a token starts, and otherwise where the source cannot be read. -/
inductive Locates (source : Bytes) : Code → Nat → Prop where
  | beginning (code : Code) : Locates source code 0
  | node {stream : Stream} {span : Span} (parsed : Stream.parse source = .ok stream)
      (membership : span ∈ stream.spans) (code : Code) : Locates source code span.start
  | token {token : Token} (scanned : .token token ∈ (Scanner.ofSource source).events)
      (notEnd : token.kind ≠ .eof) : Locates source .delimiter token.span.start
  | failure {span : Span} {problem : Problem}
      (reported : .report (.diagnosed span problem) ∈ (Scanner.ofSource source).events) :
      Locates source .lexical span.start

/-- A diagnosis at such an offset that ends in the source, or at most one byte behind it where the
source cannot be read. -/
def Fault.PointsInto (source : Bytes) (fault : Fault) : Prop :=
  ∃ span problem, fault = .diagnosed span problem ∧ Locates source problem.code span.start ∧
    span.start ≤ source.length ∧
      (span.stop ≤ source.length ∨ problem.code = .lexical ∧ span.stop ≤ source.length + 1)

theorem Stream.pointsInto_of_parse {source : Bytes} {fault : Fault}
    (failed : Stream.parse source = .error fault) : fault.PointsInto source := by
  apply Assembly.accepts_of_run _ _ _ _ (List.forall_mem_nil _) failed
  · intro own isFirst
    cases isFirst
  · intro own reported
    rcases Scanner.event_cases reported with ⟨_, isToken, -⟩ | ⟨stop, read, isReport, within⟩
    · cases isToken
    · cases isReport
      refine ⟨_, _, rfl, .failure reported, ?_, .inr ⟨rfl, ?_⟩⟩
      · dsimp only
        omega
      · dsimp only
        omega
  · intro token scanned notEnd problem isDelimiter
    rcases Scanner.event_cases scanned with ⟨_, isToken, isEnd | lies⟩ | ⟨_, _, isReport, -⟩
    · cases isToken
      exact absurd isEnd notEnd
    · cases isToken
      have nonempty := lies.nonempty
      have within := lies.stop_le_length
      refine ⟨_, _, rfl, ?_, by omega, .inl within⟩
      rw [isDelimiter]
      exact .token scanned notEnd
    · cases isReport

section Parsed

variable {source : Bytes} {stream : Stream} (parsed : Stream.parse source = .ok stream)

include parsed

theorem Stream.span_le_length {span : Span} (membership : span ∈ stream.spans) :
    span.start < span.stop ∧ span.stop ≤ source.length := by
  obtain ⟨level, isLevel, node, inLevel, rfl⟩ := (Stream.mem_spans_iff _ _).mp membership
  have stands := (Stream.standsIn_of_parse parsed isLevel).stands node inLevel
  exact ⟨stands.nonempty, stands.stop_le_length⟩

theorem Fault.PlacedIn.pointsInto {fault : Fault} (placed : fault.PlacedIn stream.spans) :
    fault.PointsInto source := by
  obtain ⟨span, problem, rfl, rfl | ⟨⟨first, isFirst, isStart⟩, last, isLast, isStop⟩⟩ := placed
  · exact ⟨_, _, rfl, .beginning _, Nat.zero_le _, .inl (Nat.zero_le _)⟩
  · obtain ⟨nonempty, within⟩ := Stream.span_le_length parsed isFirst
    refine ⟨_, _, rfl, ?_, ?_, .inl ?_⟩
    · rw [← isStart]
      exact .node parsed isFirst _
    · omega
    · rw [← isStop]
      exact (Stream.span_le_length parsed isLast).2

end Parsed

/-- What can be done with a parsed source: to expand it as one loop, or to splice the loops that are
invoked in it by some name. -/
inductive Processing where
  | expand
  | splice (name : Bytes) (limit : Int)

def Processing.generator (style : Style) : Processing → Generator
  | .expand => Stream.expand style
  | .splice name limit => Stream.splice (Generators.register name (Stream.expand style) []) limit

theorem Processing.keepsSpans (spans : List Span) (style : Style) (processing : Processing) :
    Generator.KeepsSpans spans (processing.generator style) := by
  cases processing with
  | expand => exact Stream.expand_keepsSpans spans style
  | splice name limit =>
    refine Stream.splice_keepsSpans ?_ limit
    intro own generator registered
    rw [Generators.eq_of_get?_register registered]
    exact Stream.expand_keepsSpans spans style

/-- Whatever becomes of a source, its output has no other spans than its nodes, and a fault points
into it. -/
theorem processing_points_into_source (source : Bytes) (style : Style) (processing : Processing) :
    Outcome (do processing.generator style (← Stream.parse source))
      (fun output => ∃ stream, Stream.parse source = .ok stream ∧ output.spans ⊆ stream.spans)
      (Fault.PointsInto source) := by
  cases parsed : Stream.parse source with
  | error fault => exact Stream.pointsInto_of_parse parsed
  | ok stream =>
    have outcome := processing.keepsSpans stream.spans style stream (List.Subset.refl _)
    change Outcome (processing.generator style stream) _ _
    cases processed : processing.generator style stream with
    | ok output =>
      rw [processed] at outcome
      exact ⟨stream, rfl, outcome⟩
    | error fault =>
      rw [processed] at outcome
      exact Fault.PlacedIn.pointsInto parsed outcome

end Unroll
