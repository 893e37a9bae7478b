import Mathlib.Data.List.TakeWhile
import Unroll.Proofs.PieceReading
import Unroll.Proofs.TreeAssembly

set_option autoImplicit false

/-!
# Comments and blanks

A comment may be blanked out: with as many blanks in its place a source is parsed to the same tree
with the same spans, or fails with the same code at the same span. What has to be shown is that no
lexeme which starts in front of the comment runs on into the blanks.
-/

namespace Unroll

open Pattern

namespace Rule

/-! Lexemes with a blank inside. -/

/-- What stands between the quotes of a character literal. -/
def charInside : Pattern :=
  oneOf [.byte fun b => b != Unroll.byte '\'' && b != Unroll.byte '\\' && b < 0x80, escapePair,
    multibyte]

/-- A blank between the quotes is the last byte there. -/
theorem charInside_blank {before more : Bytes}
    (matched : Matches charInside (before ++ Bytes.blank :: more)) : more = [] := by
  rcases (matches_alt_iff _ _ _).mp matched with plain | other
  · obtain ⟨b, -, isSingle⟩ := (matches_byte_iff _ _).mp plain
    have lengths := congrArg List.length isSingle
    rw [List.length_append, List.length_cons, List.length_singleton] at lengths
    exact List.eq_nil_of_length_eq_zero (by omega)
  · rcases (matches_alt_iff _ _ _).mp other with escaped | encoded
    · simp only [escapePair, only, matches_seq_iff, matches_byte_iff, beq_iff_eq] at escaped
      obtain ⟨_, _, ⟨_, rfl, rfl⟩, ⟨b, -, rfl⟩, isPair⟩ := escaped
      cases before with
      | nil => exact absurd (List.cons.inj isPair).1 (by decide)
      | cons first before =>
        have lengths := congrArg List.length isPair
        simp only [List.length_append, List.length_cons, List.length_nil] at lengths
        exact List.eq_nil_of_length_eq_zero (by omega)
    · exact absurd (multibyte_bytes encoded Bytes.blank (by simp)) (by decide)

theorem charLiteral_blank {before more : Bytes}
    (matched : Matches charLiteral (byte '\'' :: (before ++ Bytes.blank :: more))) :
    more = [byte '\''] := by
  simp only [charLiteral, only, inOrder, matches_seq_iff, matches_byte_iff, beq_iff_eq] at matched
  obtain ⟨_, _, ⟨_, rfl, rfl⟩, ⟨inside, _, inInside, ⟨_, rfl, rfl⟩, rfl⟩, same⟩ := matched
  have split : before ++ Bytes.blank :: more = inside ++ [byte '\''] := (List.cons.inj same).2
  rcases List.eq_nil_or_concat more with rfl | ⟨row, last, rfl⟩
  · exact absurd (List.cons.inj (List.append_inj_right' split rfl)).1 (by decide)
  · rw [List.concat_eq_append, ← List.cons_append, ← List.append_assoc] at split
    have isLast := List.append_inj_right' split rfl
    have isInside := List.append_inj_left' split rfl
    rw [← isInside] at inInside
    rw [charInside_blank inInside]
    exact isLast

/-- A line comment that goes on with a blank goes on with any other byte of a line. -/
theorem lineComment_of_blank {before more : Bytes} (nonempty : before ≠ [])
    (matched : Matches lineComment (before ++ Bytes.blank :: more)) {b : UInt8}
    (noNewline : b ≠ Bytes.newline) : Matches lineComment (before ++ [b]) := by
  obtain ⟨line, ending, inLine, isEnding, same⟩ := (lineComment_shape _).mp matched
  match before with
  | [] => exact absurd rfl nonempty
  | [first] => exact absurd (List.cons.inj (List.cons.inj same).2).1 (by decide)
  | first :: second :: before =>
    rw [List.cons_append, List.cons_append, List.cons.injEq, List.cons.injEq] at same
    obtain ⟨rfl, rfl, split⟩ := same
    have inBefore : ∀ own ∈ before, own ≠ Bytes.newline := by
      rcases List.append_eq_append_iff.mp split with ⟨later, rfl, -⟩ | ⟨own, rfl, isRest⟩
      · exact (List.forall_mem_append.mp inLine).1
      · -- the blank would be the newline, or stand behind it
        rcases isEnding with rfl | rfl
        · cases own with
          | nil => exact absurd (List.cons.inj isRest).1 (by decide)
          | cons _ own => cases own <;> cases (List.cons.inj isRest).2
        · cases own <;> cases isRest
    refine (lineComment_shape _).mpr ⟨before ++ [b], [], ?_, .inr rfl, by simp⟩
    exact List.forall_mem_append.mpr ⟨inBefore, by simpa using noNewline⟩

theorem starSlash_behind_blanks {behind : Bytes} (count : Nat)
    (isInfix : [byte '*', byte '/'] <:+: List.replicate count Bytes.blank ++ behind) :
    [byte '*', byte '/'] <:+: behind := by
  induction count with
  | zero => exact isInfix
  | succ count inductionHypothesis =>
    rw [List.replicate_succ, List.cons_append, List.infix_cons_iff] at isInfix
    rcases isInfix with isPrefix | inRest
    · exact absurd (List.cons_prefix_cons.mp isPrefix).1 (by decide)
    · exact inductionHypothesis inRest

/-- A star and a slash do not stand across blanks. -/
theorem starSlash_of_blanks {before behind : Bytes} (count : Nat)
    (isInfix : [byte '*', byte '/'] <:+:
      before ++ (Bytes.blank :: List.replicate count Bytes.blank ++ behind)) :
    [byte '*', byte '/'] <:+: before ∨ [byte '*', byte '/'] <:+: behind := by
  induction before with
  | nil => exact .inr (starSlash_behind_blanks (count + 1) isInfix)
  | cons b before inductionHypothesis =>
    rw [List.cons_append, List.infix_cons_iff] at isInfix
    rcases isInfix with isPrefix | inRest
    · obtain ⟨isStar, isSlash⟩ := List.cons_prefix_cons.mp isPrefix
      cases before with
      | nil => exact absurd (List.cons_prefix_cons.mp isSlash).1 (by decide)
      | cons c before =>
        obtain ⟨isSlash, -⟩ := List.cons_prefix_cons.mp isSlash
        rw [← isStar, ← isSlash]
        exact .inl (List.prefix_append [byte '*', byte '/'] before).isInfix
    · rcases inductionHypothesis inRest with inBefore | inBehind
      · exact .inl (inBefore.trans (List.suffix_cons b before).isInfix)
      · exact .inr inBehind

end Rule

/-- A whole comment. -/
def IsComment (text : Bytes) : Prop :=
  Matches Rule.lineComment text ∨ Matches Rule.blockComment text

theorem IsComment.shape {text : Bytes} (isComment : IsComment text) :
    ∃ b rest, text = byte '/' :: b :: rest := by
  rcases isComment with inLine | inBlock
  · exact Rule.onlySeq_shape rfl inLine
  · exact Rule.onlySeq_shape rfl inBlock

/-- As many blanks as a text is long. -/
def Bytes.blanked (text : Bytes) : Bytes := List.replicate text.length Bytes.blank

theorem IsComment.blanked {text : Bytes} (isComment : IsComment text) :
    ∃ count, Bytes.blanked text =
      Bytes.blank :: Bytes.blank :: List.replicate count Bytes.blank := by
  obtain ⟨b, rest, rfl⟩ := isComment.shape
  exact ⟨rest.length, rfl⟩

/-- No word of the pattern goes on from one that ends within a text to beyond the text. -/
theorem Pattern.PrefixFree.not_matches_beyond {pattern : Pattern} (prefixFree : PrefixFree pattern)
    {word text : Bytes} (isStart : word <+: text) (matched : Matches pattern word) (b : UInt8)
    (more : Bytes) : ¬ Matches pattern (text ++ b :: more) := by
  intro longer
  obtain ⟨rest, rfl⟩ := isStart
  rw [List.append_assoc] at longer
  cases (List.append_eq_nil_iff.mp (prefixFree word _ matched longer)).2

section Seam

variable {front comment behind : Bytes} {found : Match} (isComment : IsComment comment)
  (longest : IsLongestMatch Rule.all (front ++ (comment ++ behind)) found)
  (inFront : found.size ≤ front.length)

include longest inFront in
/-- Every lexeme that starts here ends within the front. -/
theorem IsLongestMatch.prefix_front {rule : Rule} (membership : rule ∈ Rule.all) {lexeme : Bytes}
    (isStart : lexeme <+: front ++ (comment ++ behind)) (matched : Matches rule.pattern lexeme) :
    lexeme <+: front := by
  apply List.prefix_of_prefix_length_le isStart (List.prefix_append front _)
  by_contra longer
  exact longest.longest rule membership lexeme isStart (by omega) matched

include isComment longest inFront in
theorem IsLongestMatch.not_lineComment_blanked {more : Bytes} (nonempty : front ≠ []) :
    ¬ Matches Rule.lineComment (front ++ Bytes.blank :: more) := by
  intro matched
  obtain ⟨b, rest, rfl⟩ := isComment.shape
  have membership : (⟨Rule.lineComment, .skip⟩ : Rule) ∈ Rule.all := by simp [Rule.all]
  have longer : Matches Rule.lineComment (front ++ [byte '/']) :=
    Rule.lineComment_of_blank nonempty matched (by decide)
  have isPrefix : front ++ [byte '/'] <+: front :=
    longest.prefix_front inFront membership ⟨b :: rest ++ behind, by simp⟩ longer
  have lengths := isPrefix.length_le
  rw [List.length_append, List.length_singleton] at lengths
  omega

include isComment longest inFront in
/-- The end that a block comment has behind the blanks it also has behind the comment. -/
theorem IsLongestMatch.not_blockComment_blanked {more : Bytes} (nonempty : front ≠ [])
    (isStart : Bytes.blank :: more <+: Bytes.blanked comment ++ behind) :
    ¬ Matches Rule.blockComment (front ++ Bytes.blank :: more) := by
  intro matched
  obtain ⟨tail, same, inTail⟩ := (Rule.blockComment_iff _).mp matched
  match front with
  | [] => exact nonempty rfl
  | [first] => exact absurd (List.cons.inj (List.cons.inj same).2).1 (by decide)
  | first :: second :: inside =>
    rw [List.cons_append, List.cons_append, List.cons.injEq, List.cons.injEq] at same
    obtain ⟨rfl, rfl, rfl⟩ := same
    have ends : [byte '*', byte '/'] <:+: inside ++ (comment ++ behind) := by
      obtain ⟨count, isBlanked⟩ := isComment.blanked
      rw [isBlanked] at isStart
      have isInfix := (Rule.starSlash_of_commentTail inTail).trans
        ((List.prefix_append_right_inj inside).mpr isStart).isInfix
      rcases Rule.starSlash_of_blanks (count + 1) isInfix with inInside | inBehind
      · exact inInside.trans (List.prefix_append _ _).isInfix
      · exact inBehind.trans ⟨inside ++ comment, [], by simp⟩
    obtain ⟨lexeme, isLexeme, inBlock⟩ :=
      (Rule.blockComment_start_iff (byte '*' :: (inside ++ (comment ++ behind)))).mpr ⟨_, rfl, ends⟩
    have membership : (⟨Rule.blockComment, .skip⟩ : Rule) ∈ Rule.all := by simp [Rule.all]
    have isPrefix := longest.prefix_front inFront membership isLexeme inBlock
    exact Rule.blockComment_prefixFree.not_matches_beyond isPrefix inBlock _ _ matched

include longest inFront in
theorem IsLongestMatch.not_stringLiteral_blanked {more rest : Bytes}
    (isFront : front = byte '"' :: rest) :
    ¬ Matches Rule.stringLiteral (front ++ Bytes.blank :: more) := by
  subst isFront
  rw [List.cons_append] at longest
  obtain ⟨rule, tail, -, matched, competes⟩ := longest.exists_competes
  rw [competes.of_doubleQuote rfl, ← List.cons_append,
    List.take_append_of_le_length inFront] at matched
  have isStart := List.take_prefix found.size (byte '"' :: rest)
  exact Rule.stringLiteral_prefixFree.not_matches_beyond isStart matched _ _

end Seam

/-- No lexeme that starts in front of a comment runs on into blanks in its place. -/
theorem IsLongestMatch.not_matches_blanked {b : UInt8} {front comment behind : Bytes}
    {found : Match} (isComment : IsComment comment)
    (longest : IsLongestMatch Rule.all (b :: front ++ (comment ++ behind)) found)
    (inFront : found.size ≤ (b :: front).length) (noSpace : Rule.isSpace b = false) {rule : Rule}
    (membership : rule ∈ Rule.all) {more : Bytes}
    (isStart : Bytes.blank :: more <+: Bytes.blanked comment ++ behind) :
    ¬ Matches rule.pattern (b :: front ++ Bytes.blank :: more) := by
  intro matched
  have competes : Rule.Competes rule b (front ++ Bytes.blank :: more) :=
    Rule.competes membership matched
  have noName : ¬ Rule.continuesName Bytes.blank = true := by decide
  have isMember : Bytes.blank ∈ b :: front ++ Bytes.blank :: more := by simp
  generalize isText : front ++ Bytes.blank :: more = text at competes
  cases competes with
  | lineComment => exact longest.not_lineComment_blanked isComment inFront (by simp) matched
  | blockComment =>
    exact longest.not_blockComment_blanked isComment inFront (by simp) isStart matched
  | whiteSpace space =>
    rw [noSpace] at space
    cases space
  | string => exact longest.not_stringLiteral_blanked inFront rfl matched
  | char =>
    obtain ⟨count, isBlanked⟩ := isComment.blanked
    rw [isBlanked, Rule.charLiteral_blank matched] at isStart
    obtain ⟨-, isStart⟩ := List.cons_prefix_cons.mp isStart
    exact absurd (List.cons_prefix_cons.mp isStart).1 (by decide)
  | name _ => exact noName (Rule.name_continuesName matched _ isMember)
  | integer _ isInteger => exact noName (Rule.integer_continuesName isInteger matched _ isMember)
  | float _ =>
    rcases Rule.floatLiteral_bytes matched _ isMember with isDot | continues | isPlus | isMinus
    · exact absurd isDot (by decide)
    · exact noName continues
    · exact absurd isPlus (by decide)
    · exact absurd isMinus (by decide)
  | single _ => cases front <;> cases isText

/-- A match that starts with white space is skipped white space. -/
theorem IsLongestMatch.of_isSpace {b : UInt8} {rest : Bytes} {found : Match}
    (longest : IsLongestMatch Rule.all (b :: rest) found) (space : Rule.isSpace b = true) :
    found.action = .skip ∧ ∀ c ∈ (b :: rest).take found.size, Rule.isSpace c = true := by
  obtain ⟨rule, tail, isAction, matched, competes⟩ := longest.exists_competes
  rw [competes.of_isSpace space] at isAction matched
  exact ⟨isAction.symm, ((matches_plus_byte_iff _ _).mp matched).2⟩

/-- A match in front of a comment stays the match with blanks in place of the comment. -/
theorem longestMatch?_blanked {b : UInt8} {front comment behind : Bytes} {found : Match}
    (isComment : IsComment comment)
    (matched : longestMatch? Rule.all (b :: front ++ (comment ++ behind)) = some found)
    (inFront : found.size ≤ (b :: front).length) (noSpace : Rule.isSpace b = false) :
    longestMatch? Rule.all (b :: front ++ (comment.blanked ++ behind)) = some found := by
  have longest := longestMatch?_eq_some_iff.mp matched
  have taken := longest.takes
  rw [List.take_append_of_le_length inFront] at taken
  refine longestMatch?_eq_some_iff.mpr ⟨longest.positive, ?_, ?_, ?_⟩
  · rw [List.length_append]
    omega
  · rw [List.take_append_of_le_length inFront]
    exact taken
  · intro rule membership lexeme isStart longer inRule
    by_cases within : lexeme.length ≤ (b :: front).length
    · have isPrefix := List.prefix_of_prefix_length_le isStart (List.prefix_append _ _) within
      exact longest.longest rule membership lexeme (isPrefix.trans (List.prefix_append _ _)) longer
        inRule
    · obtain ⟨more, rfl⟩ := List.prefix_of_prefix_length_le (List.prefix_append _ _) isStart
        (Nat.le_of_not_le within)
      have isBehind := (List.prefix_append_right_inj _).mp isStart
      obtain ⟨count, isBlanked⟩ := isComment.blanked
      cases more with
      | nil => simp at within
      | cons c more =>
        have isBlank := isBehind
        rw [isBlanked] at isBlank
        obtain ⟨rfl, -⟩ := List.cons_prefix_cons.mp isBlank
        exact longest.not_matches_blanked isComment inFront noSpace membership isBehind inRule

/-! What a scanner yields. -/

namespace Scanner

variable {offset size : Nat} {rest : Bytes}

theorem find_dropSpaces (offset : Nat) (rest : Bytes) :
    find offset rest =
      find (offset + (rest.takeWhile Rule.isSpace).length) (rest.dropWhile Rule.isSpace) := by
  have split : rest.takeWhile Rule.isSpace ++ rest.dropWhile Rule.isSpace = rest :=
    List.takeWhile_append_dropWhile
  by_cases empty : rest.takeWhile Rule.isSpace = []
  · rw [empty, List.nil_append] at split
    rw [empty, split]
    rfl
  · have noSpace : ∀ b ∈ (rest.dropWhile Rule.isSpace).head?, Rule.isSpace b = false := by
      intro b isHead
      have refused := List.head?_dropWhile_not Rule.isSpace rest
      rw [Option.mem_def.mp isHead] at refused
      exact refused
    have step := @find_skip offset _ _
      (longestMatch?_spaces empty (fun _ => List.mem_takeWhile_imp) noSpace)
    rw [List.drop_left, split] at step
    exact step

/-- White space in front of a text is passed over, whether the text goes on with more of it or
not. -/
theorem find_spaces {spaces : Bytes} (areSpaces : ∀ b ∈ spaces, Rule.isSpace b = true) :
    find offset (spaces ++ rest) = find (offset + spaces.length) rest := by
  rw [find_dropSpaces offset, find_dropSpaces (offset + spaces.length),
    List.takeWhile_append_of_pos areSpaces, List.dropWhile_append_of_pos areSpaces,
    List.length_append, Nat.add_assoc]

section Blanked

variable {front comment behind : Bytes} (isComment : IsComment comment)
  (inFront : size ≤ front.length)

include isComment inFront

theorem find_skip_blanked
    (matched : longestMatch? Rule.all (front ++ (comment ++ behind)) = some ⟨size, .skip⟩) :
    find offset (front ++ (comment.blanked ++ behind)) =
      find (offset + size) (front.drop size ++ (comment.blanked ++ behind)) := by
  have longest := longestMatch?_eq_some_iff.mp matched
  cases front with
  | nil => exact absurd longest.positive (Nat.not_lt_of_le inFront)
  | cons b front =>
    by_cases space : Rule.isSpace b = true
    · -- the white space goes on into the blanks, but is passed over all the same
      have areSpaces : ∀ c ∈ (b :: front ++ (comment ++ behind)).take size,
        Rule.isSpace c = true := (longest.of_isSpace space).2
      rw [List.take_append_of_le_length inFront] at areSpaces
      rw [← List.take_append_drop size (b :: front), List.append_assoc,
        find_spaces areSpaces, List.length_take_of_le inFront, List.take_append_drop]
    · have same := longestMatch?_blanked isComment matched inFront (by simpa using space)
      rw [find_skip same, List.drop_append_of_le_length inFront]

theorem find_emit_blanked {kind : Kind}
    (matched : longestMatch? Rule.all (front ++ (comment ++ behind)) = some ⟨size, .emit kind⟩) :
    find offset (front ++ (comment.blanked ++ behind)) =
      .token ⟨kind, (front ++ (comment ++ behind)).take size, ⟨offset, offset + size⟩⟩
        (offset + size) (front.drop size ++ (comment.blanked ++ behind)) := by
  have longest := longestMatch?_eq_some_iff.mp matched
  cases front with
  | nil => exact absurd longest.positive (Nat.not_lt_of_le inFront)
  | cons b front =>
    by_cases space : Rule.isSpace b = true
    · cases (longest.of_isSpace space).1
    · have same := longestMatch?_blanked isComment matched inFront (by simpa using space)
      rw [find_emit same, List.drop_append_of_le_length inFront,
        List.take_append_of_le_length inFront, List.take_append_of_le_length inFront]

end Blanked

end Scanner

namespace Scans

/-- A scan up to the end of a front goes on, behind its first match, to the end of what is left of
the front. -/
theorem behind_match {offset size stop : Nat} {front rest : Bytes} {tokens : List Token}
    (later : Scans (offset + size) ((front ++ rest).drop size) tokens stop rest)
    (isStop : stop = offset + front.length) :
    size ≤ front.length ∧ (front ++ rest).drop size = front.drop size ++ rest ∧
      stop = offset + size + (front.drop size).length := by
  have inFront : size ≤ front.length := by
    have bound := later.offset_le
    omega
  refine ⟨inFront, List.drop_append_of_le_length inFront, ?_⟩
  rw [List.length_drop]
  omega

/-- What is scanned in front of a comment is yielded in front of blanks in its place, and behind
them what is yielded behind the comment. -/
theorem events_blanked (source : Bytes) {offset stop : Nat} {front text rest comment behind : Bytes}
    {tokens : List Token} (scanned : Scans offset text tokens stop rest)
    (isText : text = front ++ rest) (isRest : rest = comment ++ behind)
    (isStop : stop = offset + front.length) (isComment : IsComment comment) :
    Scanner.events ⟨source, offset, front ++ (comment.blanked ++ behind), false⟩ =
      tokens.map .token ++ Scanner.events ⟨source, stop + comment.length, behind, false⟩ := by
  induction scanned generalizing front with
  | @stay offset text =>
    obtain rfl : front = [] := List.eq_nil_of_length_eq_zero (by omega)
    have areSpaces : ∀ b ∈ comment.blanked, Rule.isSpace b = true := by
      intro b membership
      rw [List.eq_of_mem_replicate membership]
      decide
    rw [List.nil_append, Scanner.events_congr source (Scanner.find_spaces areSpaces),
      Bytes.blanked, List.length_replicate]
    rfl
  | @skip offset text size tokens stop rest matched later inductionHypothesis =>
    subst isText
    obtain ⟨inFront, isDrop, isStop'⟩ := behind_match later isStop
    subst isRest
    rw [← inductionHypothesis isDrop rfl isStop']
    exact Scanner.events_congr source (Scanner.find_skip_blanked isComment inFront matched)
  | @emit offset text size kind tokens stop rest matched later inductionHypothesis =>
    subst isText
    obtain ⟨inFront, isDrop, isStop'⟩ := behind_match later isStop
    subst isRest
    rw [List.map_cons, List.cons_append, ← inductionHypothesis isDrop rfl isStop']
    exact Scanner.events_of_token source (Scanner.find_emit_blanked isComment inFront matched)

end Scans

/-! What a source is parsed to. -/

/-- The same stream, or faults with the same code at the same span. -/
inductive SameReading : Except Fault Stream → Except Fault Stream → Prop where
  | ok (stream : Stream) : SameReading (.ok stream) (.ok stream)
  | error {fault fault' : Fault} : fault.code = fault'.code → fault.span? = fault'.span? →
      SameReading (.error fault) (.error fault')

theorem SameReading.refl (result : Except Fault Stream) : SameReading result result := by
  cases result with
  | ok stream => exact .ok stream
  | error fault => exact .error rfl rfl

namespace Assembly

/-- What follows the tokens decides whether readings are the same. -/
theorem sameReading_append {tail tail' : List Event}
    (same : ∀ pulled stack nodes, SameReading (run pulled none stack nodes tail).result
      (run pulled none stack nodes tail').result)
    (tokens : List Token) (pulled : Nat) (stack : List OpenGroup) (nodes : List Node) :
    SameReading (run pulled none stack nodes (tokens.map .token ++ tail)).result
      (run pulled none stack nodes (tokens.map .token ++ tail')).result := by
  induction tokens generalizing pulled stack nodes with
  | nil => exact same pulled stack nodes
  | cons token tokens inductionHypothesis =>
    rw [List.map_cons, List.cons_append, List.cons_append]
    by_cases isEnd : token.kind = .eof
    · rw [run_end isEnd, run_end isEnd]
      exact .refl _
    · rcases run_token isEnd stack nodes with ⟨problem, -, refused⟩ | ⟨stack', nodes', -, read⟩
      · rw [refused, refused]
        exact .refl _
      · rw [read, read]
        exact inductionHypothesis _ _ _

/-- Where a source cannot be read, only the wording of the fault depends on the source. -/
theorem sameReading_lastAnswer (source source' : Bytes) (stop : Nat) (rest : Bytes) (pulled : Nat)
    (stack : List OpenGroup) (nodes : List Node) :
    SameReading
      (run pulled none stack nodes
        (Scanner.eventsOf (Scanner.lastAnswer source stop rest))).result
      (run pulled none stack nodes
        (Scanner.eventsOf (Scanner.lastAnswer source' stop rest))).result := by
  cases rest with
  | nil => exact .refl _
  | cons b rest => exact .error rfl rfl

end Assembly

/-- A comment is as good as blanks. -/
theorem comment_reads_as_blanks {before comment behind : Bytes} {tokens : List Token}
    (reached : Scans 0 (before ++ (comment ++ behind)) tokens before.length (comment ++ behind))
    (skipped : longestMatch? Rule.all (comment ++ behind) = some ⟨comment.length, .skip⟩)
    (isComment : IsComment comment) :
    SameReading (Stream.parse (before ++ (comment ++ behind)))
      (Stream.parse (before ++ (comment.blanked ++ behind))) := by
  obtain ⟨later, stop, rest, scanned, halted, -⟩ :=
    Scanner.events_eq ⟨behind, before.length + comment.length, behind, false⟩ rfl
  -- behind the comment both sources yield the same tokens and stop at the same place
  have yields : ∀ source,
      Scanner.events ⟨source, before.length + comment.length, behind, false⟩ =
        later.map .token ++ Scanner.eventsOf (Scanner.lastAnswer source stop rest) := by
    intro source
    rw [scanned.events_append source, Scanner.events_of_halted source halted]
  have commented : (Scanner.ofSource (before ++ (comment ++ behind))).events =
      tokens.map .token ++ (later.map .token ++ Scanner.eventsOf
        (Scanner.lastAnswer (before ++ (comment ++ behind)) stop rest)) := by
    rw [Scanner.ofSource, reached.events_append, Scanner.events_congr _ (Scanner.find_skip skipped),
      List.drop_left, yields]
  have blanked : (Scanner.ofSource (before ++ (comment.blanked ++ behind))).events =
      tokens.map .token ++ (later.map .token ++ Scanner.eventsOf
        (Scanner.lastAnswer (before ++ (comment.blanked ++ behind)) stop rest)) := by
    rw [Scanner.ofSource, reached.events_blanked _ rfl rfl (Nat.zero_add _).symm isComment, yields]
  rw [Stream.parse, Stream.parse, commented, blanked]
  refine Assembly.sameReading_append ?_ tokens 0 [] []
  intro pulled stack nodes
  refine Assembly.sameReading_append ?_ later pulled stack nodes
  exact Assembly.sameReading_lastAnswer _ _ stop rest

/-- A block comment seems to open in front of the comment, but has no end. -/
def seemingComment : Bytes := word ['(', '/', '*', ' ']

def remark : Bytes := word ['/', '/', ' ', 'x', '\n']

theorem seemingComment_reads_as_blanks :
    (∃ tokens, Scans 0 (seemingComment ++ (remark ++ word [')'])) tokens 4
      (remark ++ word [')'])) ∧
    SameReading (Stream.parse (seemingComment ++ (remark ++ word [')'])))
      (Stream.parse (seemingComment ++ (remark.blanked ++ word [')']))) := by
  have reached : Scans 0 (seemingComment ++ (remark ++ word [')']))
      [⟨.opening .round, word ['('], ⟨0, 1⟩⟩, ⟨.mark 47, word ['/'], ⟨1, 2⟩⟩,
        ⟨.mark 42, word ['*'], ⟨2, 3⟩⟩] 4 (remark ++ word [')']) := by
    refine .emit (by decide : longestMatch? Rule.all _ = some ⟨1, _⟩) ?_
    refine .emit (by decide : longestMatch? Rule.all _ = some ⟨1, _⟩) ?_
    refine .emit (by decide : longestMatch? Rule.all _ = some ⟨1, _⟩) ?_
    refine .skip (by decide : longestMatch? Rule.all _ = some ⟨1, _⟩) ?_
    exact .stay
  exact ⟨⟨_, reached⟩, comment_reads_as_blanks reached (by decide) (.inl (by decide))⟩

end Unroll
