import Unroll.Proofs.Characters
import Unroll.Proofs.Provenance

set_option autoImplicit false

/-!
# Positions identify offsets

Rules look at single bytes, and some accept any byte outside ASCII. Still every lexeme ends in an
ASCII byte, except for a comment that reaches to the end of the source, so in a source that is
valid UTF-8 scanning goes from one boundary between characters to the next. Nodes and faults start
where tokens start or scanning ends. Hence their positions tell their offsets.
-/

namespace Unroll

open Pattern

namespace Pattern

/-- Every word of the pattern ends in an ASCII byte. -/
def EndsAscii (pattern : Pattern) : Prop :=
  ∀ text, Matches pattern text → ∃ before last, text = before ++ [last] ∧ last < 0x80

theorem EndsAscii.seq (first : Pattern) {second : Pattern} (ends : second.EndsAscii) :
    (Pattern.seq first second).EndsAscii := by
  intro text matched
  obtain ⟨head, tail, -, inSecond, rfl⟩ := (matches_seq_iff _ _ _).mp matched
  obtain ⟨before, last, rfl, isAscii⟩ := ends tail inSecond
  exact ⟨head ++ before, last, (List.append_assoc _ _ _).symm, isAscii⟩

theorem EndsAscii.byte {accepts : UInt8 → Bool} (areAscii : ∀ b, accepts b = true → b < 0x80) :
    (Pattern.byte accepts).EndsAscii := by
  intro text matched
  obtain ⟨b, accepted, rfl⟩ := (matches_byte_iff _ _).mp matched
  exact ⟨[], b, rfl, areAscii b accepted⟩

theorem EndsAscii.of_forall {pattern : Pattern} (proper : pattern.nullable = false)
    (areAscii : ∀ text, Matches pattern text → ∀ b ∈ text, b < 0x80) : pattern.EndsAscii := by
  intro text matched
  have nonempty : text ≠ [] := by
    rintro rfl
    exact not_matches_nil proper matched
  exact ⟨text.dropLast, text.getLast nonempty, (List.dropLast_append_getLast nonempty).symm,
    areAscii text matched _ (List.getLast_mem nonempty)⟩

end Pattern

namespace Rule

theorem endsAscii_only {character : Char} (isAscii : byte character < 0x80) :
    (only character).EndsAscii := by
  apply EndsAscii.byte
  intro b accepted
  rw [beq_iff_eq.mp accepted]
  exact isAscii

theorem ascii_of_continuesName {b : UInt8} (continues : continuesName b = true) : b < 0x80 := by
  simp only [continuesName, isLower, isUpper, isDigit, isUnderscore] at continues
  grind

theorem ascii_of_isSpace {b : UInt8} (space : isSpace b = true) : b < 0x80 := by
  simp only [isSpace] at space
  grind

theorem single_ascii : ∀ character ∈ marks ++ brackets, character < 0x80 := by
  apply Bytes.forall_mem_of_all
  decide

theorem integer_endsAscii {pattern : Pattern} (isInteger : pattern ∈ integers)
    (proper : pattern.nullable = false) : pattern.EndsAscii := by
  apply EndsAscii.of_forall proper
  intro text matched b membership
  exact ascii_of_continuesName (integer_continuesName isInteger matched b membership)

theorem floatLiteral_endsAscii : floatLiteral.EndsAscii := by
  apply EndsAscii.of_forall rfl
  intro text matched b membership
  rcases floatLiteral_bytes matched b membership with rfl | continues | rfl | rfl
  · decide
  · exact ascii_of_continuesName continues
  · decide
  · decide

/-- Only the comment to the end of a line may end in a byte outside ASCII. -/
theorem endsAscii_of_mem {rule : Rule} (membership : rule ∈ all)
    (apart : rule ≠ ⟨lineComment, .skip⟩) : rule.pattern.EndsAscii := by
  rcases (mem_all_iff rule).mp membership with
    rfl | rfl | rfl | rfl | rfl | rfl | rfl | rfl | rfl | rfl | rfl | ⟨character, isSingle, rfl⟩
  · exact absurd rfl apart
  · exact .seq _ (.seq _ (.seq _ (.seq _ (endsAscii_only (by decide)))))
  · apply EndsAscii.of_forall rfl
    intro text matched b isByte
    exact ascii_of_isSpace (((matches_plus_byte_iff _ _).mp matched).2 b isByte)
  · exact .seq _ (.seq _ (endsAscii_only (by decide)))
  · exact .seq _ (.seq _ (endsAscii_only (by decide)))
  · apply EndsAscii.of_forall rfl
    intro text matched b isByte
    exact ascii_of_continuesName (name_continuesName matched b isByte)
  · exact integer_endsAscii (by simp [integers]) rfl
  · exact integer_endsAscii (by simp [integers]) rfl
  · exact integer_endsAscii (by simp [integers]) rfl
  · exact integer_endsAscii (by simp [integers]) rfl
  · exact floatLiteral_endsAscii
  · apply EndsAscii.byte
    intro b accepted
    rw [beq_iff_eq.mp accepted]
    exact single_ascii character isSingle

/-- A comment goes on to the end of its line, so without a newline it reaches the end. -/
theorem lineComment_to_end {text line : Bytes} {found : Match}
    (longest : IsLongestMatch all text found) (noNewline : ∀ b ∈ line, b ≠ Bytes.newline)
    (isComment : text.take found.size = byte '/' :: byte '/' :: line) :
    found.size = text.length := by
  rcases Nat.eq_or_lt_of_le longest.within with isWhole | shorter
  · exact isWhole
  have membership : (⟨lineComment, .skip⟩ : Rule) ∈ all := by simp [all]
  have longer : text.take (found.size + 1) =
      byte '/' :: byte '/' :: (line ++ [text[found.size]]) := by
    rw [List.take_add_one, isComment, List.getElem?_eq_getElem shorter]
    rfl
  refine absurd ?_ (longest.longest _ membership _ (List.take_prefix (found.size + 1) text) ?_)
  · apply (lineComment_shape _).mpr
    by_cases isNewline : text[found.size] = Bytes.newline
    · exact ⟨line, [Bytes.newline], noNewline, .inl rfl, by rw [longer, isNewline]⟩
    · refine ⟨line ++ [text[found.size]], [], ?_, .inr rfl, by rw [longer, List.append_nil]⟩
      exact List.forall_mem_append.mpr ⟨noNewline, List.forall_mem_singleton.mpr isNewline⟩
  · rw [List.length_take]
    omega

end Rule

section Scanning

variable {characters : List Char}

theorem IsBoundary.behind_lexeme {offset size : Nat} {before : Bytes} {last : UInt8}
    (within : size ≤ ((encoded characters).drop offset).length)
    (isLexeme : ((encoded characters).drop offset).take size = before ++ [last])
    (isAscii : last < 0x80) : IsBoundary characters (offset + size) := by
  have lengths := congrArg List.length isLexeme
  rw [List.length_take_of_le within, List.length_append, List.length_singleton] at lengths
  have isByte : (((encoded characters).drop offset).take size)[before.length]? = some last := by
    rw [isLexeme, List.getElem?_concat_length]
  rw [List.getElem?_take_of_lt (by omega), List.getElem?_drop] at isByte
  have boundary := IsBoundary.behind_ascii isByte isAscii
  rw [lengths]
  exact boundary

/-- Whatever is matched ends between two characters. -/
theorem IsBoundary.behind_match {offset : Nat} {found : Match}
    (longest : IsLongestMatch Rule.all ((encoded characters).drop offset) found) :
    IsBoundary characters (offset + found.size) := by
  obtain ⟨rule, membership, -, matched⟩ := longest.takes.exists_mem
  by_cases isLine : rule = ⟨Rule.lineComment, .skip⟩
  · subst isLine
    obtain ⟨line, ending, noNewline, rfl | rfl, isComment⟩ := (Rule.lineComment_shape _).mp matched
    · rw [← List.cons_append, ← List.cons_append] at isComment
      exact behind_lexeme longest.within isComment (by decide)
    · rw [List.append_nil] at isComment
      have reaches := Rule.lineComment_to_end longest noNewline isComment
      have positive := longest.positive
      rw [List.length_drop] at reaches
      have atEnd : offset + found.size = (encoded characters).length := by omega
      rw [atEnd]
      exact IsBoundary.length characters
  · obtain ⟨before, last, isLexeme, isAscii⟩ :=
      Rule.endsAscii_of_mem membership isLine _ matched
    exact behind_lexeme longest.within isLexeme isAscii

/-- Scanning goes from boundary to boundary. -/
theorem Scans.isBoundary {offset stop : Nat} {text rest : Bytes} {tokens : List Token}
    (scanned : Scans offset text tokens stop rest)
    (isText : text = (encoded characters).drop offset) (boundary : IsBoundary characters offset) :
    (∀ token ∈ tokens, IsBoundary characters token.span.start) ∧ IsBoundary characters stop := by
  induction scanned with
  | stay => exact ⟨List.forall_mem_nil _, boundary⟩
  | skip matched _ inductionHypothesis =>
    have longest := longestMatch?_eq_some_iff.mp matched
    rw [isText] at longest
    exact inductionHypothesis (by rw [isText, List.drop_drop]) (.behind_match longest)
  | emit matched _ inductionHypothesis =>
    have longest := longestMatch?_eq_some_iff.mp matched
    rw [isText] at longest
    obtain ⟨inRest, atStop⟩ :=
      inductionHypothesis (by rw [isText, List.drop_drop]) (.behind_match longest)
    -- the token itself starts where the match before it ended
    exact ⟨List.forall_mem_cons.mpr ⟨boundary, inRest⟩, atStop⟩

end Scanning

/-! Nodes and faults. -/

theorem Span.start_extend_cases (span other : Span) :
    (span.extend other).start = span.start ∨ (span.extend other).start = other.start := by
  rw [Span.extend]
  by_cases isNull : span.isNull = true
  · right
    rw [if_pos isNull]
  · rw [if_neg isNull]
    dsimp only
    omega

theorem LeafOf.spans_eq {token : Token} {node : Node} (leaf : LeafOf token node) :
    node.spans = [token.span] := by
  cases leaf <;> rfl

/-- On every level nodes start where tokens start. -/
theorem Folds.exists_token {tokens : List Token} {nodes : List Node} (folds : Folds tokens nodes) :
    ∀ span ∈ Stream.spans nodes, ∃ token ∈ tokens, span.start = token.span.start := by
  induction folds with
  | nil => exact List.forall_mem_nil _
  | @leaf token node tokens nodes isLeaf _ inductionHypothesis =>
    intro span membership
    rw [Stream.spans_cons, isLeaf.spans_eq, List.singleton_append, List.mem_cons] at membership
    rcases membership with rfl | inRest
    · exact ⟨token, List.mem_cons_self, rfl⟩
    · obtain ⟨other, isToken, isStart⟩ := inductionHypothesis span inRest
      exact ⟨other, List.mem_cons_of_mem _ isToken, isStart⟩
  | @group opening closing bracket inner children tokens nodes _ _ _ _ inside outside =>
    intro span membership
    rw [Stream.spans_cons, Node.spans_group, List.cons_append, List.mem_cons, List.mem_append]
      at membership
    rcases membership with rfl | inChildren | inRest
    · rcases Span.start_extend_cases opening.span closing.span with isStart | isStart
      · exact ⟨opening, by simp, isStart⟩
      · exact ⟨closing, by simp, isStart⟩
    · obtain ⟨token, isToken, isStart⟩ := inside span inChildren
      exact ⟨token, by simp [isToken], isStart⟩
    · obtain ⟨token, isToken, isStart⟩ := outside span inRest
      exact ⟨token, by simp [isToken], isStart⟩

section Parsed

variable {characters : List Char}

theorem Stream.isBoundary_of_parse {stream : Stream}
    (parsed : Stream.parse (encoded characters) = .ok stream) :
    ∀ span ∈ stream.spans, IsBoundary characters span.start := by
  obtain ⟨tokens, stop, scanned, folds⟩ := Stream.exists_scans_of_parse parsed
  obtain ⟨atTokens, -⟩ := scanned.isBoundary rfl (.zero characters)
  intro span membership
  obtain ⟨token, isToken, isStart⟩ := folds.exists_token span membership
  rw [isStart]
  exact atTokens token isToken

theorem Scanner.event_boundary {event : Event}
    (yielded : event ∈ (Scanner.ofSource (encoded characters)).events) :
    (∃ token, event = .token token ∧
        (token.kind = .eof ∨ IsBoundary characters token.span.start)) ∨
      ∃ span problem, event = .report (.diagnosed span problem) ∧
        IsBoundary characters span.start := by
  obtain ⟨tokens, stop, rest, scanned, -, isEvents⟩ :=
    Scanner.events_eq (Scanner.ofSource (encoded characters)) rfl
  obtain ⟨atTokens, atStop⟩ := scanned.isBoundary rfl (.zero characters)
  rw [isEvents, List.mem_append] at yielded
  rcases yielded with inTokens | isLast
  · obtain ⟨token, membership, rfl⟩ := List.mem_map.mp inTokens
    exact .inl ⟨token, rfl, .inr (atTokens token membership)⟩
  · rcases Scanner.event_of_lastAnswer isLast with ⟨token, isToken, isEnd⟩ | ⟨-, isReport⟩
    · exact .inl ⟨token, isToken, .inl isEnd⟩
    · exact .inr ⟨_, _, isReport, atStop⟩

/-- Wherever a fault of a source may start, there is a boundary. -/
theorem Locates.isBoundary {code : Code} {offset : Nat}
    (locates : Locates (encoded characters) code offset) : IsBoundary characters offset := by
  cases locates with
  | beginning => exact .zero characters
  | node parsed membership => exact Stream.isBoundary_of_parse parsed _ membership
  | token scanned notEnd =>
    rcases Scanner.event_boundary scanned with ⟨_, isToken, isEnd | boundary⟩ | ⟨_, _, isReport, -⟩
    · cases isToken
      exact absurd isEnd notEnd
    · cases isToken
      exact boundary
    · cases isReport
  | failure reported =>
    rcases Scanner.event_boundary reported with ⟨_, isToken, -⟩ | ⟨_, _, isReport, boundary⟩
    · cases isToken
    · cases isReport
      exact boundary

end Parsed

theorem Span.position?_of_front {characters front : List Char} (isFront : front <+: characters)
    {span : Span} (isStart : (encoded front).length = span.start)
    (inRange : span.start < Position.offsetLimit) :
    span.position? (encoded characters) = some (.behind front) := by
  obtain ⟨back, rfl⟩ := isFront
  rw [Span.position?, if_pos inRange, ← isStart, Position.ofOffset_encoded]

/-- In a source that is valid UTF-8 every node and every fault starts between two characters or at
an end. There a position counts the newlines in front of it and the characters behind the last of
these, and behind the end it is the position of the end. Positions are ordered by line and column
as their offsets are, so no two boundaries have the same one. -/
theorem positions_identify_boundaries (characters : List Char) :
    Outcome (Stream.parse (encoded characters))
        (fun stream => ∀ span ∈ stream.spans, IsBoundary characters span.start)
        (fun fault => ∃ span problem, fault = .diagnosed span problem ∧
          IsBoundary characters span.start) ∧
      (∀ span : Span, span.start < Position.offsetLimit →
        (∀ front, front <+: characters → (encoded front).length = span.start →
          span.position? (encoded characters) = some (.behind front)) ∧
        ((encoded characters).length ≤ span.start →
          span.position? (encoded characters) = some (.behind characters))) ∧
      ∀ span span' : Span, span.start < Position.offsetLimit → span'.start < Position.offsetLimit →
        IsBoundary characters span.start → IsBoundary characters span'.start →
        ∃ position position', span.position? (encoded characters) = some position ∧
          span'.position? (encoded characters) = some position' ∧
          (span.start < span'.start ↔ position.Precedes position') ∧
          (span.start = span'.start ↔ position = position') := by
  refine ⟨?_, ?_, ?_⟩
  · cases parsed : Stream.parse (encoded characters) with
    | ok stream => exact Stream.isBoundary_of_parse parsed
    | error fault =>
      obtain ⟨span, problem, rfl, locates, -⟩ := Stream.pointsInto_of_parse parsed
      exact ⟨span, problem, rfl, locates.isBoundary⟩
  · intro span inRange
    refine ⟨fun front isFront isStart => Span.position?_of_front isFront isStart inRange, ?_⟩
    intro behindEnd
    have atEnd := Position.ofOffset_encoded characters []
    rw [List.append_nil] at atEnd
    rw [Span.position?, if_pos inRange, Position.ofOffset_of_length_le behindEnd, atEnd]
  · rintro span span' inRange inRange' ⟨front, isFront, isStart⟩ ⟨front', isFront', isStart'⟩
    have position := Span.position?_of_front isFront isStart inRange
    have position' := Span.position?_of_front isFront' isStart' inRange'
    refine ⟨_, _, position, position', ?_, ?_⟩
    · rw [← isStart, ← isStart']
      exact Position.precedes_behind_iff isFront isFront'
    · rw [← isStart, ← isStart']
      exact Position.behind_eq_iff isFront isFront'

/-- A character literal, and on the next line a bracket in front of a letter that no rule
accepts. -/
def accentedLines : List Char := ['\'', 'é', '\'', '\n', '(', 'ü']

theorem accentedLines_positions :
    Stream.parse (encoded accentedLines) =
        .error (unscannableAt (encoded accentedLines) 6 1) ∧
      IsBoundary accentedLines 6 ∧ ¬ IsBoundary accentedLines 2 ∧
      (Span.mk 6 8).position? (encoded accentedLines) = some ⟨2, 2⟩ ∧
      (Span.mk 100 101).position? (encoded accentedLines) = some ⟨2, 3⟩ ∧
      ∃ position position', (Span.mk 4 5).position? (encoded accentedLines) = some position ∧
        (Span.mk 6 8).position? (encoded accentedLines) = some position' ∧
        position.Precedes position' := by
  have failed : Stream.parse (encoded accentedLines) =
      .error (unscannableAt (encoded accentedLines) 6 1) := by
    with_unfolding_all rfl
  obtain ⟨outcome, positions, order⟩ := positions_identify_boundaries accentedLines
  rw [failed] at outcome
  obtain ⟨_, _, isFault, boundary⟩ := outcome
  cases isFault
  have inRange : ∀ offset ≤ 100, offset < Position.offsetLimit := by
    rw [Position.offsetLimit]
    omega
  have earlier : IsBoundary accentedLines 4 := by decide
  refine ⟨failed, boundary, by decide, ?_, ?_, ?_⟩
  · exact (positions ⟨6, 8⟩ (inRange 6 (by decide))).1 (accentedLines.take 5) (by decide) rfl
  · exact (positions ⟨100, 101⟩ (inRange 100 (by decide))).2 (by decide)
  · obtain ⟨position, position', isPosition, isPosition', ordered, -⟩ :=
      order ⟨4, 5⟩ ⟨6, 8⟩ (inRange 4 (by decide)) (inRange 6 (by decide)) earlier boundary
    exact ⟨position, position', isPosition, isPosition', ordered.mp (by decide)⟩

end Unroll
