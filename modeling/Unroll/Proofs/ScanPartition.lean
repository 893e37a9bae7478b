import Unroll.Proofs.Scanning

set_option autoImplicit false

/-!
# Scanning partitions the source

The tokens of a source lie in it one behind the other, each at its span, and what stands between
them is white space and comments only. Reading stops at the end, or with one report at the place
where no rule matches.
-/

namespace Unroll

open Pattern

namespace Bytes

/-- The bytes from one offset up to another. -/
def slice (source : Bytes) (start stop : Nat) : Bytes := (source.drop start).take (stop - start)

@[simp] theorem slice_self (source : Bytes) (offset : Nat) : slice source offset offset = [] := by
  simp [slice]

theorem slice_append_slice (source : Bytes) {start middle stop : Nat} (before : start ≤ middle)
    (behind : middle ≤ stop) :
    slice source start middle ++ slice source middle stop = slice source start stop := by
  have lengths : stop - start = (middle - start) + (stop - middle) := by omega
  have places : start + (middle - start) = middle := by omega
  simp only [slice]
  rw [lengths, List.take_add, List.drop_drop, places]

theorem slice_of_drop_eq {source rest : Bytes} {start : Nat} (isRest : rest = source.drop start)
    (size : Nat) : slice source start (start + size) = rest.take size := by
  rw [slice, isRest, Nat.add_sub_cancel_left]

end Bytes

/-- White space or one comment. -/
def SkippedPart (text : Bytes) : Prop :=
  Matches Rule.lineComment text ∨ Matches Rule.blockComment text ∨ Matches Rule.whiteSpace text

/-- Runs of white space and comments, one behind the other. -/
inductive Skipped : Bytes → Prop where
  | nil : Skipped []
  | cons {part rest} : SkippedPart part → Skipped rest → Skipped (part ++ rest)

/-- A token with the bytes of its span, at least one, as the longest match at its place. -/
structure LiesIn (source : Bytes) (token : Token) : Prop where
  nonempty : token.span.start < token.span.stop
  lexeme : token.lexeme = source.slice token.span.start token.span.stop
  longest : IsLongestMatch Rule.all (source.drop token.span.start)
    ⟨token.span.stop - token.span.start, .emit token.kind⟩

/-- From an offset of a source on, these tokens lie at their spans with skipped text in front of and
between them, and skipped text from the last one up to another offset. -/
inductive Partition (source : Bytes) : Nat → List Token → Nat → Prop where
  | last {start stop} : start ≤ stop → stop ≤ source.length →
      Skipped (source.slice start stop) → Partition source start [] stop
  | token {start stop token tokens} : start ≤ token.span.start →
      Skipped (source.slice start token.span.start) → LiesIn source token →
      Partition source token.span.stop tokens stop → Partition source start (token :: tokens) stop

namespace Partition

theorem stop_le_length {source : Bytes} {start stop : Nat} {tokens : List Token}
    (partition : Partition source start tokens stop) : start ≤ stop ∧ stop ≤ source.length := by
  induction partition with
  | last ordered within _ => exact ⟨ordered, within⟩
  | token before _ lies _ inductionHypothesis =>
    have nonempty := lies.nonempty
    exact ⟨by omega, inductionHypothesis.2⟩

/-- A skipped part in front of a partition joins its first gap. -/
theorem skip {source : Bytes} {start middle stop : Nat} {tokens : List Token}
    (before : start ≤ middle) (skipped : SkippedPart (source.slice start middle))
    (partition : Partition source middle tokens stop) : Partition source start tokens stop := by
  cases partition with
  | last ordered within gap =>
    refine .last (Nat.le_trans before ordered) within ?_
    rw [← Bytes.slice_append_slice source before ordered]
    exact .cons skipped gap
  | token ordered gap lies rest =>
    refine .token (Nat.le_trans before ordered) ?_ lies rest
    rw [← Bytes.slice_append_slice source before ordered]
    exact .cons skipped gap

/-- All tokens of a partition lie behind its start. -/
theorem start_le_span {source : Bytes} {start stop : Nat} {tokens : List Token}
    (partition : Partition source start tokens stop) :
    ∀ token ∈ tokens, start ≤ token.span.start := by
  induction partition with
  | last => simp
  | token before _ lies _ inductionHypothesis =>
    intro token membership
    rcases List.mem_cons.mp membership with rfl | inTail
    · exact before
    · have nonempty := lies.nonempty
      have behind := inductionHypothesis token inTail
      omega

/-- The spans ascend, and no two of them overlap. -/
theorem ascending {source : Bytes} {start stop : Nat} {tokens : List Token}
    (partition : Partition source start tokens stop) :
    tokens.Pairwise fun earlier later => earlier.span.stop ≤ later.span.start := by
  induction partition with
  | last => exact .nil
  | token _ _ _ rest inductionHypothesis =>
    exact .cons rest.start_le_span inductionHypothesis

theorem liesIn {source : Bytes} {start stop : Nat} {tokens : List Token}
    (partition : Partition source start tokens stop) : ∀ token ∈ tokens, LiesIn source token := by
  induction partition with
  | last => simp
  | token _ _ lies _ inductionHypothesis =>
    exact List.forall_mem_cons.mpr ⟨lies, inductionHypothesis⟩

end Partition

/-- Only white space and comments are skipped. -/
theorem Rule.skippedPart_of_mem {rule : Rule} {text : Bytes} (membership : rule ∈ Rule.all)
    (action : rule.action = .skip) (matched : Matches rule.pattern text) : SkippedPart text := by
  rcases (Rule.mem_all_iff rule).mp membership with
    rfl | rfl | rfl | rfl | rfl | rfl | rfl | rfl | rfl | rfl | rfl | ⟨_, _, rfl⟩
  · exact .inl matched
  · exact .inr (.inl matched)
  · exact .inr (.inr matched)
  all_goals cases action

theorem skippedPart_of_longestMatch? {text : Bytes} {size : Nat}
    (matched : longestMatch? Rule.all text = some ⟨size, .skip⟩) :
    SkippedPart (text.take size) := by
  obtain ⟨rule, membership, action, inRule⟩ :=
    (longestMatch?_eq_some_iff.mp matched).takes.exists_mem
  exact Rule.skippedPart_of_mem membership action inRule

/-- What is read from an offset of a source lies there as a partition. -/
theorem Scans.partition {source text rest : Bytes} {offset stop : Nat} {tokens : List Token}
    (scanned : Scans offset text tokens stop rest) (isText : text = source.drop offset)
    (within : offset ≤ source.length) :
    Partition source offset tokens stop ∧ rest = source.drop stop := by
  induction scanned with
  | @stay offset text =>
    refine ⟨.last (Nat.le_refl _) within ?_, isText⟩
    rw [Bytes.slice_self]
    exact .nil
  | @skip offset text size tokens stop rest matched _ inductionHypothesis =>
    have longest := longestMatch?_eq_some_iff.mp matched
    have fits : size ≤ source.length - offset := by
      have bound := longest.within
      rwa [isText, List.length_drop] at bound
    obtain ⟨partition, isRest⟩ :=
      inductionHypothesis (by rw [isText, List.drop_drop]) (by omega)
    refine ⟨partition.skip (Nat.le_add_right _ _) ?_, isRest⟩
    rw [Bytes.slice_of_drop_eq isText]
    exact skippedPart_of_longestMatch? matched
  | @emit offset text size kind tokens stop rest matched _ inductionHypothesis =>
    have longest := longestMatch?_eq_some_iff.mp matched
    have positive : 0 < size := longest.positive
    have fits : size ≤ source.length - offset := by
      have bound := longest.within
      rwa [isText, List.length_drop] at bound
    obtain ⟨partition, isRest⟩ :=
      inductionHypothesis (by rw [isText, List.drop_drop]) (by omega)
    refine ⟨.token (Nat.le_refl _) ?_ ⟨?_, ?_, ?_⟩ partition, isRest⟩
    · rw [Bytes.slice_self]
      exact .nil
    · exact Nat.lt_add_of_pos_right positive
    · exact (Bytes.slice_of_drop_eq isText size).symm
    · rw [← isText, Nat.add_sub_cancel_left]
      exact longest

/-- How reading ends at an offset: with the source, or with a report whose span starts there and
behind which no rule matches. -/
def EndsAt (source : Bytes) (stop : Nat) (last : Token × Option Fault) : Prop :=
  last = (Token.ending, none) ∧ stop = source.length ∨
    ∃ span problem, last = (⟨.eof, [], span⟩, some (.diagnosed span problem)) ∧
      span.start = stop ∧ Unmatched Rule.all (source.drop stop)

theorem endsAt_lastAnswer {source rest : Bytes} {stop : Nat} (halted : Scanner.Halted rest)
    (isRest : rest = source.drop stop) (within : stop ≤ source.length) :
    EndsAt source stop (Scanner.lastAnswer source stop rest) := by
  by_cases empty : rest = []
  · left
    have reached : source.length ≤ stop := List.drop_eq_nil_iff.mp (isRest ▸ empty)
    subst empty
    exact ⟨rfl, by omega⟩
  · right
    rw [Scanner.lastAnswer_of_ne_nil _ _ empty]
    refine ⟨_, _, rfl, rfl, ?_⟩
    rcases halted with impossible | unmatched
    · exact absurd impossible empty
    · rw [← isRest]
      exact longestMatch?_eq_none_iff.mp unmatched

/-- Call after call, a scanner answers with the tokens of a partition of its source, then once with
an end that reports at most one fault, and from then on with plain ends. -/
theorem answers_partition_source (source : Bytes) :
    ∃ tokens last stop,
      (∀ call, (Scanner.ofSource source).answer call =
        (tokens.map (fun token => (token, none)) ++ [last]).getD call (Token.ending, none)) ∧
      (∀ token ∈ tokens, token.kind ≠ .eof ∧ LiesIn source token) ∧
      tokens.Pairwise (fun earlier later => earlier.span.stop ≤ later.span.start) ∧
      Partition source 0 tokens stop ∧ EndsAt source stop last := by
  obtain ⟨tokens, stop, rest, scanned, halted, answers⟩ :=
    Scanner.answer_eq (Scanner.ofSource source) rfl
  have isSource : source = source.drop 0 := rfl
  obtain ⟨partition, isRest⟩ := scanned.partition isSource (Nat.zero_le _)
  refine ⟨tokens, Scanner.lastAnswer source stop rest, stop, answers, ?_, partition.ascending,
    partition, endsAt_lastAnswer halted isRest partition.stop_le_length.2⟩
  intro token membership
  exact ⟨scanned.kind_ne_eof token membership, partition.liesIn token membership⟩

end Unroll
