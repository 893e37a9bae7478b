import Mathlib.Data.Nat.Find
import Mathlib.Order.Bounds.Basic
import Unroll.Proofs.PieceReading
import Unroll.Proofs.ScanPartition

set_option autoImplicit false

/-!
# Terminators

A string literal ends behind its first quote that is not escaped, a block comment behind its first
star and slash. Without them there is no literal and no comment: the quote cannot be read, and the
slash is read as punctuation. Everything else that the scanner cannot read is a byte of no class.
-/

namespace Unroll

open Pattern

namespace Bytes

/-- A backslash right in front of a byte escapes it, unless the backslash is escaped itself. -/
def escapedAt (text : Bytes) : Nat → Bool
  | 0 => false
  | index + 1 => text[index]? == some (byte '\\') && !text.escapedAt index

/-- A quote that is not escaped stands at the index. -/
def ClosesString (text : Bytes) (index : Nat) : Prop :=
  text[index]? = some (byte '"') ∧ text.escapedAt index = false

/-- A star and a slash stand at the index. -/
def EndsComment (text : Bytes) (index : Nat) : Prop := [byte '*', byte '/'] <+: text.drop index

theorem escapedAt_cons {b : UInt8} (plain : b ≠ byte '\\') (text : Bytes) (index : Nat) :
    escapedAt (b :: text) (index + 1) = text.escapedAt index := by
  induction index with
  | zero => simp [escapedAt, plain]
  | succ index inductionHypothesis =>
    rw [escapedAt, inductionHypothesis, List.getElem?_cons_succ, ← escapedAt]

/-- What a backslash escapes does not escape in turn. -/
theorem escapedAt_pair (b : UInt8) (text : Bytes) (index : Nat) :
    escapedAt (byte '\\' :: b :: text) (index + 2) = text.escapedAt index := by
  induction index with
  | zero => simp [escapedAt]
  | succ index inductionHypothesis =>
    rw [escapedAt, inductionHypothesis, List.getElem?_cons_succ, List.getElem?_cons_succ,
      ← escapedAt]

theorem closesString_cons_iff {b : UInt8} (plain : b ≠ byte '\\') (text : Bytes) (index : Nat) :
    ClosesString (b :: text) (index + 1) ↔ text.ClosesString index := by
  rw [ClosesString, escapedAt_cons plain, List.getElem?_cons_succ, ClosesString]

theorem closesString_pair_iff (b : UInt8) (text : Bytes) (index : Nat) :
    ClosesString (byte '\\' :: b :: text) (index + 2) ↔ text.ClosesString index := by
  rw [ClosesString, escapedAt_pair, List.getElem?_cons_succ, List.getElem?_cons_succ, ClosesString]

theorem endsComment_iff (text : Bytes) (index : Nat) :
    text.EndsComment index ↔ ∃ before rest, before.length = index ∧
      text = before ++ byte '*' :: byte '/' :: rest := by
  constructor
  · rintro ⟨rest, isRest⟩
    refine ⟨text.take index, rest, ?_, ?_⟩
    · have lengths := congrArg List.length isRest
      simp only [List.length_append, List.length_cons, List.length_nil, List.length_drop] at lengths
      rw [List.length_take]
      omega
    · rw [show byte '*' :: byte '/' :: rest = text.drop index from isRest, List.take_append_drop]
  · rintro ⟨before, rest, rfl, rfl⟩
    rw [EndsComment, List.drop_left]
    exact ⟨rest, rfl⟩

end Bytes

theorem exists_isLeast {holds : Nat → Prop} (somewhere : ∃ index, holds index) :
    ∃ index, IsLeast {index | holds index} index := by
  classical
  exact ⟨_, Nat.find_spec somewhere, fun _ isOne => Nat.find_min' somewhere isOne⟩

/-- What comes first behind some bytes comes first in the whole text if it is not among them. -/
theorem isLeast_of_shift {holds behind : Nat → Prop} {index shift : Nat}
    (shifted : ∀ later, holds (later + shift) ↔ behind later)
    (first : IsLeast {index | holds index} (index + shift)) :
    IsLeast {index | behind index} index := by
  refine ⟨(shifted index).mp first.1, ?_⟩
  intro later isLater
  exact Nat.le_of_add_le_add_right (first.2 ((shifted later).mpr isLater))

namespace Rule

/-! Strings. -/

/-- What stands between the two quotes of a string. -/
def stringPart : Pattern :=
  .alt (.byte fun b => b != Unroll.byte '"' && b != Unroll.byte '\\') escapePair

/-- From inside a string to its end. -/
def stringTail : Pattern := inOrder [.star stringPart, only '"']

theorem stringLiteral_iff (text : Bytes) :
    Matches stringLiteral text ↔ ∃ tail, text = byte '"' :: tail ∧ Matches stringTail tail := by
  simp only [stringLiteral, only, inOrder, matches_byteSeq_iff, beq_iff_eq]
  constructor
  · rintro ⟨_, tail, rfl, inTail, rfl⟩
    exact ⟨tail, rfl, inTail⟩
  · rintro ⟨tail, rfl, inTail⟩
    exact ⟨_, tail, rfl, inTail, rfl⟩

theorem stringPart_escape (escaped : UInt8) : Matches stringPart [byte '\\', escaped] :=
  .right (@Matches.seq _ _ [_] [_] (.byte (by decide)) (.byte rfl))

/-- Up to the first quote that is not escaped, a text is the rest of a string. -/
theorem stringTail_of_isLeast {text : Bytes} {index : Nat}
    (first : IsLeast {index | text.ClosesString index} index) :
    Matches stringTail (text.take (index + 1)) := by
  -- A backslash takes the byte behind it with it, so a step goes over one byte or two.
  induction index using Nat.strongRecOn generalizing text with
  | ind index inductionHypothesis =>
    cases text with
    | nil => cases first.1.1
    | cons b rest =>
      by_cases isQuote : b = byte '"'
      · subst isQuote
        have atFront : Bytes.ClosesString (byte '"' :: rest) 0 := ⟨rfl, rfl⟩
        rw [Nat.le_zero.mp (first.2 atFront)]
        exact @Matches.seq _ _ [] _ .done (.byte (by decide))
      · cases index with
        | zero => exact absurd (Option.some.inj first.1.1) isQuote
        | succ index =>
          by_cases isBackslash : b = byte '\\'
          · subst isBackslash
            cases index with
            | zero => cases first.1.2
            | succ index =>
              cases rest with
              | nil => cases first.1.1
              | cons escaped more =>
                have inRest := isLeast_of_shift (Bytes.closesString_pair_iff escaped more) first
                have matched := inductionHypothesis index (by omega) inRest
                exact (stringPart_escape escaped).starThen matched
          · have inRest := isLeast_of_shift (Bytes.closesString_cons_iff isBackslash rest) first
            have matched := inductionHypothesis index (Nat.lt_succ_self index) inRest
            have inPart : Matches stringPart [b] := .left (.byte (by simp [isQuote, isBackslash]))
            exact inPart.starThen matched

/-- The rest of a string ends with a quote that is not escaped. -/
theorem stringTail_closes {tail : Bytes} (matched : Matches stringTail tail) (more : Bytes) :
    ∃ index, Bytes.ClosesString (tail ++ more) index := by
  obtain ⟨inside, _, inStar, ending, rfl⟩ := (matches_seq_iff _ _ _).mp matched
  obtain ⟨_, isQuote, rfl⟩ := (matches_byte_iff _ _).mp ending
  obtain ⟨parts, inParts, rfl⟩ := (matches_star_iff _ _).mp inStar
  rw [beq_iff_eq] at isQuote
  subst isQuote
  clear matched inStar ending
  induction parts with
  | nil => exact ⟨0, rfl, rfl⟩
  | cons part parts inductionHypothesis =>
    obtain ⟨isPart, others⟩ := List.forall_mem_cons.mp inParts
    obtain ⟨index, closes⟩ := inductionHypothesis others
    rcases (matches_alt_iff _ _ _).mp isPart with plain | escaped
    · obtain ⟨b, accepted, rfl⟩ := (matches_byte_iff _ _).mp plain
      rw [Bool.and_eq_true, bne_iff_ne, bne_iff_ne] at accepted
      exact ⟨index + 1, (Bytes.closesString_cons_iff accepted.2 _ _).mpr closes⟩
    · obtain ⟨_, _, first, second, rfl⟩ := (matches_seq_iff _ _ _).mp escaped
      obtain ⟨_, isBackslash, rfl⟩ := (matches_byte_iff _ _).mp first
      obtain ⟨b, -, rfl⟩ := (matches_byte_iff _ _).mp second
      rw [beq_iff_eq] at isBackslash
      subst isBackslash
      exact ⟨index + 2, (Bytes.closesString_pair_iff b _ _).mpr closes⟩

/-! Comments. -/

/-- Up to the first star and slash, a text is the rest of a comment. -/
theorem commentTail_of_isLeast {text : Bytes} {index : Nat}
    (first : IsLeast {index | text.EndsComment index} index) :
    Matches commentTail (text.take (index + 2)) := by
  obtain ⟨before, rest, rfl, rfl⟩ := (Bytes.endsComment_iff _ _).mp first.1
  have isInfix : [byte '*', byte '/'] <:+: before ++ byte '*' :: byte '/' :: rest :=
    ⟨before, rest, by simp⟩
  obtain ⟨tail, isStart, matched⟩ := (closes_of_starSlash _).1 isInfix
  have isFront : before ++ [byte '*', byte '/'] <+: before ++ byte '*' :: byte '/' :: rest :=
    ⟨rest, by simp⟩
  -- What ends the comment is a star and a slash, so it is not in front of the first one.
  have notBefore : before.length + 2 ≤ tail.length := by
    obtain ⟨inside, more, rfl⟩ := starSlash_of_commentTail matched
    obtain ⟨behind, isText⟩ := isStart
    have isEnd := first.2 ((Bytes.endsComment_iff _ _).mpr
      ⟨inside, more ++ behind, rfl, by simp [← isText]⟩)
    simp only [List.length_append, List.length_cons]
    omega
  obtain ⟨more, isTail⟩ :=
    List.prefix_of_prefix_length_le isFront isStart (by simpa using notBefore)
  have same : tail = before ++ byte '*' :: byte '/' :: more := by simp [← isTail]
  rw [commentTail_starSlash matched same, List.append_nil] at isTail
  have lengths : (before ++ [byte '*', byte '/']).length = before.length + 2 := List.length_append
  rw [← lengths, ← List.prefix_iff_eq_take.mp isFront, isTail]
  exact matched

/-! First bytes. -/

/-- White space, the bytes of names and numbers, punctuation and brackets. -/
def startsLexeme (b : UInt8) : Bool :=
  isSpace b || startsName b || isDigit b || (marks ++ brackets).contains b

theorem startsLexeme_of_single {b : UInt8} (isSingle : b ∈ marks ++ brackets) :
    startsLexeme b = true := by
  rw [startsLexeme, Bool.or_eq_true]
  exact .inr (List.contains_iff_mem.mpr isSingle)

/-- Only a string starts with a byte of no class. -/
theorem Competes.startsLexeme {rule : Rule} {b : UInt8} {text : Bytes}
    (competes : Competes rule b text) :
    startsLexeme b = true ∨ b = byte '"' ∧ rule = ⟨stringLiteral, .emit .string⟩ := by
  cases competes with
  | lineComment | blockComment | char => exact .inl (by decide)
  | string => exact .inr ⟨rfl, rfl⟩
  | whiteSpace space => exact .inl (by simp [Rule.startsLexeme, space])
  | name starts => exact .inl (by simp [Rule.startsLexeme, starts])
  | integer digit _ | float digit => exact .inl (by simp [Rule.startsLexeme, digit])
  | single isSingle => exact .inl (startsLexeme_of_single isSingle)

/-- A byte of a class is a lexeme already. -/
theorem exists_matches_of_startsLexeme {b : UInt8} (starts : startsLexeme b = true) :
    ∃ rule ∈ all, Matches rule.pattern [b] := by
  simp only [startsLexeme, Bool.or_eq_true, List.contains_iff_mem] at starts
  rcases starts with ((space | isName) | digit) | isSingle
  · refine ⟨⟨whiteSpace, .skip⟩, by simp [all], (matches_plus_byte_iff _ _).mpr ⟨by simp, ?_⟩⟩
    exact List.forall_mem_singleton.mpr space
  · refine ⟨⟨name, .emit .ident⟩, by simp [all], (name_iff _).mpr ⟨b, [], isName, ?_, rfl⟩⟩
    exact List.forall_mem_nil _
  · refine ⟨⟨decimalLiteral, .emit .int⟩, by simp [all], ?_⟩
    have inDigits : Matches digits [b] :=
      (digits_iff _).mpr ⟨b, [], digit, List.forall_mem_nil _, rfl⟩
    exact @Matches.seq _ _ [b] [] inDigits ((integerSuffix_iff _).mpr (.inl rfl))
  · exact ⟨single b, single_mem_all isSingle, (single_iff b _).mpr rfl⟩

end Rule

theorem longestMatch?_string {text : Bytes} {index : Nat}
    (first : IsLeast {index | text.ClosesString index} index) :
    longestMatch? Rule.all (byte '"' :: text) = some ⟨index + 2, .emit .string⟩ := by
  obtain ⟨inside, -⟩ := List.getElem?_eq_some_iff.mp first.1.1
  cases text with
  | nil => cases inside
  | cons b rest =>
    have membership : (⟨Rule.stringLiteral, .emit .string⟩ : Rule) ∈ Rule.all := by simp [Rule.all]
    have matched : Matches Rule.stringLiteral (byte '"' :: b :: rest.take index) :=
      (Rule.stringLiteral_iff _).mpr ⟨_, rfl, Rule.stringTail_of_isLeast first⟩
    have found := longestMatch?_of_prefixFree (rest.drop index) membership
      Rule.stringLiteral_prefixFree matched fun other otherMembership more inOther =>
        (Rule.competes otherMembership inOther).of_doubleQuote rfl
    rw [List.cons_append, List.cons_append, List.take_append_drop, List.length_cons,
      List.length_cons, List.length_take_of_le (Nat.le_of_lt_succ inside)] at found
    exact found

theorem longestMatch?_blockComment {text : Bytes} {index : Nat}
    (first : IsLeast {index | text.EndsComment index} index) :
    longestMatch? Rule.all (byte '/' :: byte '*' :: text) = some ⟨index + 4, .skip⟩ := by
  have membership : (⟨Rule.blockComment, .skip⟩ : Rule) ∈ Rule.all := by simp [Rule.all]
  have matched := (Rule.blockComment_iff _).mpr ⟨_, rfl, Rule.commentTail_of_isLeast first⟩
  have alone (other : Rule) (otherMembership : other ∈ Rule.all) (more : Bytes)
      (inOther : Matches other.pattern (byte '/' :: byte '*' :: more)) :
      other = ⟨Rule.blockComment, .skip⟩ := by
    rcases (Rule.competes otherMembership inOther).of_single (by decide) with
      ⟨-, empty⟩ | ⟨-, rfl | rfl⟩ | ⟨isQuote, -⟩
    · cases empty
    · obtain ⟨rest, same, -⟩ := (Rule.lineComment_iff _).mp inOther
      cases (List.cons.inj (List.cons.inj same).2).1
    · rfl
    · exact absurd isQuote (by decide)
  have found := longestMatch?_of_prefixFree (text.drop (index + 2)) membership
    Rule.blockComment_prefixFree matched alone
  have inside : index + 2 ≤ text.length := by
    obtain ⟨before, rest, rfl, rfl⟩ := (Bytes.endsComment_iff _ _).mp first.1
    simp only [List.length_append, List.length_cons]
    omega
  rw [List.cons_append, List.cons_append, List.take_append_drop, List.length_cons,
    List.length_cons, List.length_take_of_le inside] at found
  exact found

/-- No rule matches where a byte of no class stands, unless it is the quote of a string that is
closed. -/
theorem longestMatch?_eq_none_iff_stray (b : UInt8) (text : Bytes) :
    longestMatch? Rule.all (b :: text) = none ↔
      Rule.startsLexeme b = false ∧ ¬ (b = byte '"' ∧ ∃ index, text.ClosesString index) := by
  rw [longestMatch?_eq_none_iff]
  constructor
  · intro unmatched
    constructor
    · apply Bool.eq_false_iff.mpr
      intro starts
      obtain ⟨rule, membership, matched⟩ := Rule.exists_matches_of_startsLexeme starts
      exact unmatched rule membership [b] ⟨text, rfl⟩ (List.cons_ne_nil _ _) matched
    · rintro ⟨rfl, closed⟩
      obtain ⟨index, first⟩ := exists_isLeast closed
      exact (longestMatch?_eq_some_iff.mp (longestMatch?_string first)).not_unmatched unmatched
  · rintro ⟨noClass, notClosed⟩ rule membership lexeme isStart nonempty matched
    cases lexeme with
    | nil => exact nonempty rfl
    | cons own lexeme =>
      obtain ⟨rfl, more, rfl⟩ := List.cons_prefix_cons.mp isStart
      rcases (Rule.competes membership matched).startsLexeme with starts | ⟨rfl, rfl⟩
      · rw [noClass] at starts
        cases starts
      · obtain ⟨tail, same, inTail⟩ := (Rule.stringLiteral_iff _).mp matched
        rw [(List.cons.inj same).2] at notClosed
        exact notClosed ⟨rfl, Rule.stringTail_closes inTail more⟩

/-- Without a star and a slash there is no comment, and the slash stands for itself. -/
theorem longestMatch?_slash {text : Bytes} (unclosed : ∀ index, ¬ text.EndsComment index) :
    longestMatch? Rule.all (byte '/' :: byte '*' :: text) =
      some ⟨1, .emit (.ofByte (byte '/'))⟩ := by
  apply Piece.longestMatch?_single (by decide)
  · rintro - ⟨rest, isLine | ⟨isBlock, before, behind, isRest⟩⟩
    · cases (List.cons.inj isLine).1
    · obtain ⟨-, rfl⟩ := List.cons.inj isBlock
      exact unclosed _ ((Bytes.endsComment_iff _ _).mpr ⟨before, behind, rfl, by simp [← isRest]⟩)
  · intro isQuote
    exact absurd isQuote (by decide)

namespace Scanner

/-- Reading a source from its start comes to the offset. -/
def Reaches (source : Bytes) (offset : Nat) : Prop :=
  ∃ tokens, Scans 0 source tokens offset (source.drop offset)

section

variable {source : Bytes} {offset size : Nat} (reaches : Reaches source offset)

include reaches

theorem Reaches.skip
    (matched : longestMatch? Rule.all (source.drop offset) = some ⟨size, .skip⟩) :
    Reaches source (offset + size) := by
  obtain ⟨tokens, scanned⟩ := reaches
  have step := @Scans.skip offset _ _ _ _ _ matched .stay
  rw [List.drop_drop] at step
  exact ⟨_, scanned.append step⟩

theorem Reaches.token_mem_events {kind : Kind}
    (matched : longestMatch? Rule.all (source.drop offset) = some ⟨size, .emit kind⟩) :
    .token ⟨kind, source.slice offset (offset + size), ⟨offset, offset + size⟩⟩ ∈
      (ofSource source).events := by
  obtain ⟨tokens, scanned⟩ := reaches
  rw [ofSource, scanned.events_append source, events_of_token source (find_emit matched),
    Bytes.slice_of_drop_eq rfl]
  exact List.mem_append_right _ List.mem_cons_self

end

/-- A fault is reported at an offset exactly if it is reached and no rule matches there. -/
theorem exists_report_iff (source : Bytes) (offset : Nat) :
    (∃ read, .report (unscannableAt source offset read) ∈ (ofSource source).events) ↔
      Reaches source offset ∧ ∃ b text, source.drop offset = b :: text ∧
        longestMatch? Rule.all (b :: text) = none := by
  constructor
  · rintro ⟨read, reported⟩
    obtain ⟨tokens, stop, rest, scanned, halted, isEvents⟩ := (ofSource source).events_eq rfl
    have isSource : source = source.drop 0 := rfl
    obtain ⟨-, isRest⟩ := scanned.partition isSource (Nat.zero_le _)
    have noReport : .report (unscannableAt source offset read) ∉ tokens.map Event.token := by simp
    rw [isEvents] at reported
    have inLast := (List.mem_append.mp reported).resolve_left noReport
    rcases event_of_lastAnswer inLast with ⟨_, isToken, -⟩ | ⟨nonempty, isReport⟩
    · cases isToken
    · -- The span of the fault starts where reading stopped.
      have isStop : offset = stop := by
        injection isReport with isFault
        injection isFault with isSpan
        exact congrArg Span.start isSpan
      subst isStop
      obtain ⟨b, text, rfl⟩ := List.exists_cons_of_ne_nil nonempty
      have unmatched := halted.resolve_left nonempty
      exact ⟨⟨tokens, isRest ▸ scanned⟩, b, text, isRest.symm, unmatched⟩
  · rintro ⟨⟨tokens, scanned⟩, b, text, isRest, unmatched⟩
    rw [isRest] at scanned
    refine ⟨deadEnd Rule.all (b :: text), ?_⟩
    rw [ofSource, scanned.events_append source, events_of_halted source (.inr unmatched)]
    exact List.mem_append_right _ List.mem_cons_self

end Scanner

/-- The scanner fails at an offset that it reaches exactly if the byte there has no class and is not
the quote of a string that is closed. A string is read up to its first quote that is not escaped,
and a block comment is skipped up to its first star and slash. If the comment is not closed, the
slash is a token. -/
theorem lexemes_end_at_first_terminator (source : Bytes) (offset : Nat) :
    ((∃ read, .report (unscannableAt source offset read) ∈ (Scanner.ofSource source).events) ↔
      Scanner.Reaches source offset ∧ ∃ (b : UInt8) (text : Bytes), source.drop offset = b :: text ∧
        Rule.startsLexeme b = false ∧ ¬ (b = byte '"' ∧ ∃ index, text.ClosesString index)) ∧
    (Scanner.Reaches source offset →
      (∀ (text : Bytes) index, source.drop offset = byte '"' :: text →
        IsLeast {index | text.ClosesString index} index →
          longestMatch? Rule.all (source.drop offset) = some ⟨index + 2, .emit .string⟩ ∧
          .token ⟨.string, source.slice offset (offset + (index + 2)),
            ⟨offset, offset + (index + 2)⟩⟩ ∈ (Scanner.ofSource source).events) ∧
      ∀ text : Bytes, source.drop offset = byte '/' :: byte '*' :: text →
        (∀ index, IsLeast {index | text.EndsComment index} index →
          longestMatch? Rule.all (source.drop offset) = some ⟨index + 4, .skip⟩ ∧
          Scanner.Reaches source (offset + (index + 4))) ∧
        ((∀ index, ¬ text.EndsComment index) →
          longestMatch? Rule.all (source.drop offset) = some ⟨1, .emit (.ofByte (byte '/'))⟩ ∧
          .token ⟨.ofByte (byte '/'), source.slice offset (offset + 1), ⟨offset, offset + 1⟩⟩ ∈
            (Scanner.ofSource source).events)) := by
  refine ⟨?_, fun reaches => ⟨?_, ?_⟩⟩
  · simp only [Scanner.exists_report_iff, longestMatch?_eq_none_iff_stray]
  · intro text index isRest first
    have matched := longestMatch?_string first
    rw [← isRest] at matched
    exact ⟨matched, reaches.token_mem_events matched⟩
  · intro text isRest
    constructor
    · intro index first
      have matched := longestMatch?_blockComment first
      rw [← isRest] at matched
      exact ⟨matched, reaches.skip matched⟩
    · intro notClosed
      have matched := longestMatch?_slash notClosed
      rw [← isRest] at matched
      exact ⟨matched, reaches.token_mem_events matched⟩

/-- An escaped quote in a string, a comment of stars, and a quote that nothing closes. -/
def quotedQuote : Bytes := word ['"', '\\', '"', '"', '/', '*', '*', '/', '"']

theorem quotedQuote_scanned :
    Scanner.Reaches quotedQuote 0 ∧ Scanner.Reaches quotedQuote 4 ∧
      .token ⟨.string, word ['"', '\\', '"', '"'], ⟨0, 4⟩⟩ ∈
        (Scanner.ofSource quotedQuote).events ∧
      longestMatch? Rule.all (quotedQuote.drop 4) = some ⟨4, .skip⟩ ∧
      Scanner.Reaches quotedQuote 8 ∧
      ∃ read, .report (unscannableAt quotedQuote 8 read) ∈
        (Scanner.ofSource quotedQuote).events := by
  have start : Scanner.Reaches quotedQuote 0 := ⟨[], .stay⟩
  have closes : IsLeast
      {index | Bytes.ClosesString (word ['\\', '"', '"', '/', '*', '*', '/', '"']) index} 2 := by
    refine ⟨⟨rfl, rfl⟩, ?_⟩
    intro index isQuote
    by_contra isEarlier
    have isEarly : index = 0 ∨ index = 1 := by omega
    rcases isEarly with rfl | rfl
    · exact absurd isQuote.1 (by decide)
    · exact absurd isQuote.2 (by decide)
  have string := ((lexemes_end_at_first_terminator quotedQuote 0).2 start).1 _ 2 rfl closes
  have atComment : Scanner.Reaches quotedQuote 4 := ⟨_, .emit string.1 .stay⟩
  have ends : IsLeast {index | Bytes.EndsComment (word ['*', '/', '"']) index} 0 :=
    ⟨⟨[byte '"'], rfl⟩, fun _ _ => Nat.zero_le _⟩
  have comment := (((lexemes_end_at_first_terminator quotedQuote 4).2 atComment).2 _ rfl).1 0 ends
  refine ⟨start, atComment, string.2, comment.1, comment.2, ?_⟩
  apply (lexemes_end_at_first_terminator quotedQuote 8).1.mpr
  refine ⟨comment.2, byte '"', [], rfl, by decide, ?_⟩
  rintro ⟨-, index, isQuote, -⟩
  cases isQuote

end Unroll
