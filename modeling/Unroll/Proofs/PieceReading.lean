import Unroll.Proofs.Flattening
import Unroll.Proofs.RuleLanguage

set_option autoImplicit false

/-!
# Reading a written piece

The text of a piece is scanned as that piece, whatever stands behind it, with three exceptions: an
integer made of digits in front of a dot and a digit, a slash that opens a comment, and a quote that
opens a character literal.
-/

namespace Unroll

open Pattern

namespace Rule.Competes

theorem of_startsName {rule : Rule} {b : UInt8} {text : Bytes} (starts : startsName b = true)
    (competes : Competes rule b text) : rule = ⟨Rule.name, .emit .ident⟩ := by
  have apart := startsName_apart starts
  cases competes with
  | lineComment | blockComment | string | char => exact absurd starts (by decide)
  | whiteSpace space => simp [apart.2.1] at space
  | name _ => rfl
  | integer digit _ => simp [apart.1] at digit
  | float digit => simp [apart.1] at digit
  | single membership => simp [(single_apart _ membership).1] at starts

theorem of_isDigit {rule : Rule} {b : UInt8} {text : Bytes} (digit : isDigit b = true)
    (competes : Competes rule b text) :
    (∃ pattern ∈ integers, rule = ⟨pattern, .emit .int⟩) ∨
      rule = ⟨floatLiteral, .emit .float⟩ := by
  have apart := isDigit_apart digit
  cases competes with
  | lineComment | blockComment | string | char => exact absurd digit (by decide)
  | whiteSpace space => simp [apart.2.1] at space
  | name starts => simp [apart.1] at starts
  | integer _ isInteger => exact .inl ⟨_, isInteger, rfl⟩
  | float _ => exact .inr rfl
  | single membership => simp [(single_apart _ membership).2.1] at digit

theorem of_isSpace {rule : Rule} {b : UInt8} {text : Bytes} (space : isSpace b = true)
    (competes : Competes rule b text) : rule = ⟨Rule.whiteSpace, .skip⟩ := by
  have apart := isSpace_apart space
  cases competes with
  | lineComment | blockComment | string | char => exact absurd space (by decide)
  | whiteSpace _ => rfl
  | name starts => simp [apart.1] at starts
  | integer digit _ => simp [apart.2.1] at digit
  | float digit => simp [apart.2.1] at digit
  | single membership => simp [(single_apart _ membership).2.2.1] at space

theorem of_doubleQuote {rule : Rule} {b : UInt8} {text : Bytes} (isQuote : b = byte '"')
    (competes : Competes rule b text) : rule = ⟨stringLiteral, .emit .string⟩ := by
  cases competes with
  | lineComment | blockComment | char => exact absurd isQuote (by decide)
  | string => rfl
  | whiteSpace space => exact absurd isQuote (isSpace_apart space).2.2.1
  | name starts => exact absurd isQuote (startsName_apart starts).2.2.1
  | integer digit _ => exact absurd isQuote (isDigit_apart digit).2.2.1
  | float digit => exact absurd isQuote (isDigit_apart digit).2.2.1
  | single membership => exact absurd isQuote (single_apart _ membership).2.2.2

/-- Behind a single character only comments and character literals go on. -/
theorem of_single {rule : Rule} {b : UInt8} {text : Bytes} (isSingle : b ∈ marks ++ brackets)
    (competes : Competes rule b text) :
    rule = Rule.single b ∧ text = [] ∨
      b = byte '/' ∧ (rule = ⟨Rule.lineComment, .skip⟩ ∨ rule = ⟨Rule.blockComment, .skip⟩) ∨
      b = byte '\'' ∧ rule = ⟨charLiteral, .emit .char⟩ := by
  have apart := single_apart b isSingle
  cases competes with
  | lineComment => exact .inr (.inl ⟨rfl, .inl rfl⟩)
  | blockComment => exact .inr (.inl ⟨rfl, .inr rfl⟩)
  | char => exact .inr (.inr ⟨rfl, rfl⟩)
  | string => exact absurd rfl apart.2.2.2
  | whiteSpace space => simp [apart.2.2.1] at space
  | name starts => simp [apart.1] at starts
  | integer digit _ => simp [apart.2.1] at digit
  | float digit => simp [apart.2.1] at digit
  | single _ => exact .inl ⟨rfl, rfl⟩

end Rule.Competes

/-- What is matched at a place is matched by a rule of the byte there. -/
theorem IsLongestMatch.exists_competes {b : UInt8} {rest : Bytes} {found : Match}
    (longest : IsLongestMatch Rule.all (b :: rest) found) :
    ∃ rule tail, rule.action = found.action ∧
      Matches rule.pattern ((b :: rest).take found.size) ∧ Rule.Competes rule b tail := by
  obtain ⟨rule, membership, isAction, matched⟩ := longest.takes.exists_mem
  obtain ⟨size, isSize⟩ := Nat.exists_eq_succ_of_ne_zero (Nat.ne_of_gt longest.positive)
  have starts := matched
  rw [isSize, List.take_succ_cons] at starts
  exact ⟨rule, _, isAction, matched, Rule.competes membership starts⟩

/-- A lexeme is the match if every rule that matches it has its action and none matches more. -/
theorem longestMatch?_append {lexeme behind : Bytes} {action : Action} {rule : Rule}
    (nonempty : lexeme ≠ []) (membership : rule ∈ Rule.all) (matched : Matches rule.pattern lexeme)
    (agree : ∀ other ∈ Rule.all, Matches other.pattern lexeme → other.action = action)
    (maximal : ∀ other ∈ Rule.all, ∀ b more, b :: more <+: behind →
      ¬ Matches other.pattern (lexeme ++ b :: more)) :
    longestMatch? Rule.all (lexeme ++ behind) = some ⟨lexeme.length, action⟩ := by
  refine longestMatch?_eq_some_iff.mpr ⟨List.length_pos_iff.mpr nonempty, by simp, ?_, ?_⟩
  · rw [List.take_left]
    exact Rule.takes_of_forall membership matched agree
  · intro other otherMembership longer isStart isLonger inOther
    obtain ⟨rest, rfl⟩ := List.prefix_of_prefix_length_le (List.prefix_append lexeme behind) isStart
      (Nat.le_of_lt isLonger)
    cases rest with
    | nil => simp at isLonger
    | cons b more =>
      have isBehind := (List.prefix_append_right_inj lexeme).mp isStart
      exact maximal other otherMembership b more isBehind inOther

/-- What ends where its rule says is matched whatever stands behind it, if its first two bytes tell
the rule. -/
theorem longestMatch?_of_prefixFree {rule : Rule} {first second : UInt8} {rest : Bytes}
    (behind : Bytes) (membership : rule ∈ Rule.all) (prefixFree : PrefixFree rule.pattern)
    (matched : Matches rule.pattern (first :: second :: rest))
    (alone : ∀ other ∈ Rule.all, ∀ more, Matches other.pattern (first :: second :: more) →
      other = rule) :
    longestMatch? Rule.all (first :: second :: rest ++ behind) =
      some ⟨(first :: second :: rest).length, rule.action⟩ := by
  refine longestMatch?_append (List.cons_ne_nil _ _) membership matched ?_ ?_
  · intro other otherMembership inOther
    rw [alone other otherMembership rest inOther]
  · intro other otherMembership b more isStart inOther
    have same := alone other otherMembership (rest ++ b :: more) inOther
    rw [same] at inOther
    cases prefixFree _ _ matched inOther

/-- White space is skipped up to its end. -/
theorem longestMatch?_spaces {spaces behind : Bytes} (nonempty : spaces ≠ [])
    (areSpaces : ∀ b ∈ spaces, Rule.isSpace b = true)
    (noSpace : ∀ b ∈ behind.head?, Rule.isSpace b = false) :
    longestMatch? Rule.all (spaces ++ behind) = some ⟨spaces.length, .skip⟩ := by
  have membership : (⟨Rule.whiteSpace, .skip⟩ : Rule) ∈ Rule.all := by simp [Rule.all]
  have isWhite : Matches Rule.whiteSpace spaces :=
    (matches_plus_byte_iff _ _).mpr ⟨nonempty, areSpaces⟩
  have alone : ∀ rule ∈ Rule.all, ∀ more, Matches rule.pattern (spaces ++ more) →
      rule = ⟨Rule.whiteSpace, .skip⟩ := by
    intro rule ruleMembership more matched
    cases spaces with
    | nil => exact absurd rfl nonempty
    | cons first spaces =>
      exact (Rule.competes ruleMembership matched).of_isSpace (areSpaces first List.mem_cons_self)
  refine longestMatch?_append nonempty membership isWhite ?_ ?_
  · intro other otherMembership matched
    rw [alone other otherMembership [] (by rwa [List.append_nil])]
  · intro other otherMembership b more isStart matched
    rw [alone other otherMembership _ matched] at matched
    have space := ((matches_plus_byte_iff _ _).mp matched).2 b (by simp)
    obtain ⟨rest, rfl⟩ := isStart
    rw [noSpace b (by simp)] at space
    cases space

/-- A blank in front of anything but white space is skipped alone. -/
theorem longestMatch?_blank {behind : Bytes}
    (noSpace : ∀ b ∈ behind.head?, Rule.isSpace b = false) :
    longestMatch? Rule.all (Bytes.blank :: behind) = some ⟨1, .skip⟩ := by
  have areSpaces : ∀ b ∈ [Bytes.blank], Rule.isSpace b = true :=
    List.forall_mem_singleton.mpr (by decide)
  exact longestMatch?_spaces (List.cons_ne_nil _ _) areSpaces noSpace

namespace Piece

def text : Piece → Bytes
  | .opening (.bracket kind) => [kind.opener]
  | .closing (.bracket kind) => [kind.closer]
  | .opening (.unknown _) | .closing (.unknown _) => []
  | .ident name => name
  | .literal _ raw => raw
  | .punct char => Utf8.encode char.toInt

/-- A raw text that the rule of its kind matches. -/
def SpellsLiteral : LiteralKind → Bytes → Prop
  | .int, raw => ∃ pattern ∈ Rule.integers, Matches pattern raw
  | .float, raw => Matches Rule.floatLiteral raw
  | .string, raw => Matches Rule.stringLiteral raw
  | .char, raw => Matches Rule.charLiteral raw
  | .unknown _, _ => False

/-- The number of a punctuation character that the scanner knows. -/
def IsMark (char : Int32) : Prop := ∃ mark ∈ Rule.marks, char = Int32.ofNat mark.toNat

/-- A piece that the scanner could have read. -/
def Spelled : Piece → Prop
  | .opening delimiter | .closing delimiter => ∃ bracket, delimiter = .bracket bracket
  | .ident name => Matches Rule.name name
  | .literal kind raw => SpellsLiteral kind raw
  | .punct char => IsMark char

/-- Names and literals, which need something behind them to end. -/
def isWord : Piece → Bool
  | .ident _ | .literal _ _ => true
  | _ => false

/-- What may directly follow a word. -/
def boundaryBytes : Bytes :=
  word [' ', ';', ',', '.', ':', '?', '(', '[', ')', ']', '\x7d']

def Boundary (behind : Bytes) : Prop := ∀ b ∈ behind.head?, b ∈ boundaryBytes

theorem boundaryBytes_apart : ∀ b ∈ boundaryBytes, Rule.continuesName b = false ∧
    b ≠ byte '+' ∧ b ≠ byte '-' ∧ b ≠ byte '\'' := by
  apply Bytes.forall_mem_of_all
  decide

theorem boundary_apart {behind : Bytes} (boundary : Boundary behind) {b : UInt8} {more : Bytes}
    (isStart : b :: more <+: behind) : Rule.continuesName b = false ∧
      b ≠ byte '+' ∧ b ≠ byte '-' ∧ b ≠ byte '\'' := by
  obtain ⟨rest, rfl⟩ := isStart
  exact boundaryBytes_apart b (boundary b (by simp))

theorem boundary_nil : Boundary [] := fun b impossible => absurd impossible (by simp)

theorem boundary_cons {b : UInt8} (ends : b ∈ boundaryBytes) (behind : Bytes) :
    Boundary (b :: behind) := by
  intro first isFirst
  rwa [← Option.some.inj isFirst]

/-- A quote that stands in front of a text and opens a character literal with it. -/
def OpensChar (behind : Bytes) : Prop :=
  ∃ lexeme, lexeme <+: byte '\'' :: behind ∧ Matches Rule.charLiteral lexeme

/-- Digits that stand in front of a text and go on as a float with it. -/
def OpensFloat (raw behind : Bytes) : Prop :=
  Matches Rule.digits raw ∧
    ∃ digit rest, Rule.isDigit digit = true ∧ behind = byte '.' :: digit :: rest

theorem not_opensFloat_nil (raw : Bytes) : ¬ OpensFloat raw [] := by
  rintro ⟨-, digit, rest, -, impossible⟩
  cases impossible

/-- The piece does not run into the text behind it. -/
def Apart : Piece → Bytes → Prop
  | .literal .int raw, behind => ¬ OpensFloat raw behind
  | .punct char, behind =>
    (char = charCode '/' → ¬ Rule.OpensComment behind) ∧
      (char = charCode '\'' → ¬ OpensChar behind)
  | _, _ => True

/-- The scanner reads the piece off the front of its text and what stands behind it. -/
def Reads (piece : Piece) (behind : Bytes) : Prop :=
  ∃ kind, longestMatch? Rule.all (piece.text ++ behind) =
      some ⟨piece.text.length, .emit kind⟩ ∧
    Token.piece ⟨kind, piece.text, Span.null⟩ = piece

theorem Reads.not_longer {piece : Piece} {behind : Bytes} (reads : Reads piece behind) {rule : Rule}
    (membership : rule ∈ Rule.all) {lexeme : Bytes} (isStart : lexeme <+: piece.text ++ behind)
    (longer : piece.text.length < lexeme.length) : ¬ Matches rule.pattern lexeme := by
  obtain ⟨kind, matched, -⟩ := reads
  exact (longestMatch?_eq_some_iff.mp matched).longest rule membership lexeme isStart longer

theorem ident_reads {name behind : Bytes} (spelled : Matches Rule.name name)
    (boundary : Boundary behind) : Reads (.ident name) behind := by
  have membership : (⟨Rule.name, .emit .ident⟩ : Rule) ∈ Rule.all := by simp [Rule.all]
  obtain ⟨first, rest, starts, -, rfl⟩ := (Rule.name_iff name).mp spelled
  refine ⟨.ident, longestMatch?_append (by simp [text]) membership spelled ?_ ?_, rfl⟩
  · intro other otherMembership matched
    rw [(Rule.competes otherMembership matched).of_startsName starts]
  · intro other otherMembership b more isStart matched
    rw [(Rule.competes otherMembership matched).of_startsName starts] at matched
    obtain ⟨_, _, -, continues, same⟩ := (Rule.name_iff _).mp matched
    have continued := continues b (by rw [← (List.cons.inj same).2]; simp)
    rw [(boundary_apart boundary isStart).1] at continued
    cases continued

/-- Where a float starts with an integer and ends behind it, the integer is its digits. -/
theorem opensFloat_of_floatLiteral {pattern : Pattern} (isInteger : pattern ∈ Rule.integers)
    {raw more behind : Bytes} {b : UInt8} (spelled : Matches pattern raw)
    (boundary : Boundary behind) (isStart : b :: more <+: behind)
    (matched : Matches Rule.floatLiteral (raw ++ b :: more)) : OpensFloat raw behind := by
  obtain ⟨whole, digit, rest, inWhole, isDigit, same, -⟩ := Rule.floatLiteral_shape matched
  have noName := (boundary_apart boundary isStart).1
  have aligned : raw = whole ∧ b :: more = byte '.' :: digit :: rest := by
    rcases List.append_eq_append_iff.mp same with ⟨between, rfl, split⟩ | ⟨between, rfl, split⟩
    · cases between with
      | nil => exact ⟨(List.append_nil raw).symm, split⟩
      | cons first between =>
        rw [List.cons_append, List.cons.injEq] at split
        have continues := Rule.continuesName_of_continuesNumber
          (Rule.digits_continuesNumber inWhole first (by simp))
        rw [← split.1, noName] at continues
        cases continues
    · cases between with
      | nil => exact ⟨List.append_nil whole, split.symm⟩
      | cons first between =>
        rw [List.cons_append, List.cons.injEq] at split
        exact absurd (by rw [split.1]; simp) (Rule.dot_not_mem_integer isInteger spelled)
  obtain ⟨rfl, split⟩ := aligned
  rw [split] at isStart
  obtain ⟨last, rfl⟩ := isStart
  exact ⟨inWhole, digit, rest ++ last, isDigit, rfl⟩

theorem int_reads_iff {pattern : Pattern} (isInteger : pattern ∈ Rule.integers) {raw behind : Bytes}
    (spelled : Matches pattern raw) (boundary : Boundary behind) :
    Reads (.literal .int raw) behind ↔ ¬ OpensFloat raw behind := by
  constructor
  · rintro reads ⟨inDigits, digit, rest, isDigit, rfl⟩
    have membership : (⟨Rule.floatLiteral, .emit .float⟩ : Rule) ∈ Rule.all := by simp [Rule.all]
    have isStart : raw ++ [byte '.', digit] <+: raw ++ byte '.' :: digit :: rest := ⟨rest, by simp⟩
    exact reads.not_longer membership isStart (by simp [text])
      (Rule.floatLiteral_of_digits inDigits isDigit)
  · intro noFloat
    obtain ⟨first, rest, digit, same⟩ := Rule.integer_isDigit isInteger spelled
    have start : ∀ more, raw ++ more = first :: (rest ++ more) := by simp [same]
    refine ⟨.int, longestMatch?_append (by simp [text, same]) (Rule.integer_mem_all isInteger)
      spelled ?_ ?_, rfl⟩
    · intro other otherMembership matched
      have begins := matched
      rw [text, same] at begins
      rcases (Rule.competes otherMembership begins).of_isDigit digit with ⟨_, _, rfl⟩ | rfl
      · rfl
      · have dots := Rule.floatLiteral_count_dot matched
        rw [text, List.count_eq_zero.mpr (Rule.dot_not_mem_integer isInteger spelled)] at dots
        cases dots
    · intro other otherMembership b more isStart matched
      have begins := matched
      rw [text, start] at begins
      rcases (Rule.competes otherMembership begins).of_isDigit digit with ⟨_, other, rfl⟩ | rfl
      · have continues := Rule.integer_continuesName other matched b (by simp)
        rw [(boundary_apart boundary isStart).1] at continues
        cases continues
      · exact noFloat (opensFloat_of_floatLiteral isInteger spelled boundary isStart matched)

theorem float_reads {raw behind : Bytes} (spelled : Matches Rule.floatLiteral raw)
    (boundary : Boundary behind) : Reads (.literal .float raw) behind := by
  have membership : (⟨Rule.floatLiteral, .emit .float⟩ : Rule) ∈ Rule.all := by simp [Rule.all]
  have dots := Rule.floatLiteral_count_dot spelled
  have dotMembership : byte '.' ∈ raw := List.count_pos_iff.mp (by omega)
  cases raw with
  | nil => cases dotMembership
  | cons first rest =>
    have digit := Rule.floatLiteral_cons spelled
    refine ⟨.float, longestMatch?_append (by simp [text]) membership spelled ?_ ?_, rfl⟩
    · intro other otherMembership matched
      rcases (Rule.competes otherMembership matched).of_isDigit digit with ⟨_, isInteger, rfl⟩ | rfl
      · exact absurd dotMembership (Rule.dot_not_mem_integer isInteger matched)
      · rfl
    · intro other otherMembership b more isStart matched
      obtain ⟨noName, noPlus, noMinus, -⟩ := boundary_apart boundary isStart
      rcases (Rule.competes otherMembership matched).of_isDigit digit with ⟨_, isInteger, rfl⟩ | rfl
      · exact absurd (List.mem_append_left _ dotMembership)
          (Rule.dot_not_mem_integer isInteger matched)
      · -- the byte behind could only be a second dot
        have isDot : b = byte '.' := by
          rcases Rule.floatLiteral_bytes matched b (by simp) with isDot | continues | plus | minus
          · exact isDot
          · rw [noName] at continues
            cases continues
          · exact absurd plus noPlus
          · exact absurd minus noMinus
        have allDots := Rule.floatLiteral_count_dot matched
        rw [text, List.count_append, isDot, List.count_cons_self, dots] at allDots
        omega

/-- A literal that ends where its rule says is read whatever stands behind it. -/
theorem quoted_reads {kind : LiteralKind} {tokenKind : Kind} {pattern : Pattern} {raw : Bytes}
    {quote first : UInt8} (behind : Bytes)
    (membership : (⟨pattern, .emit tokenKind⟩ : Rule) ∈ Rule.all)
    (prefixFree : PrefixFree pattern) (spelled : Matches pattern (quote :: first :: raw))
    (alone : ∀ rule ∈ Rule.all, ∀ rest, Matches rule.pattern (quote :: first :: rest) →
      rule = ⟨pattern, .emit tokenKind⟩)
    (isPiece : Token.piece ⟨tokenKind, quote :: first :: raw, Span.null⟩ =
      .literal kind (quote :: first :: raw)) :
    Reads (.literal kind (quote :: first :: raw)) behind :=
  ⟨tokenKind, longestMatch?_of_prefixFree behind membership prefixFree spelled alone, isPiece⟩

theorem string_reads {raw : Bytes} (behind : Bytes) (spelled : Matches Rule.stringLiteral raw) :
    Reads (.literal .string raw) behind := by
  have membership : (⟨Rule.stringLiteral, .emit .string⟩ : Rule) ∈ Rule.all := by simp [Rule.all]
  obtain ⟨first, rest, rfl⟩ := Rule.onlySeq_shape rfl spelled
  refine quoted_reads behind membership Rule.stringLiteral_prefixFree spelled ?_ rfl
  intro rule ruleMembership rest matched
  exact (Rule.competes ruleMembership matched).of_doubleQuote rfl

theorem char_reads {raw : Bytes} (behind : Bytes) (spelled : Matches Rule.charLiteral raw) :
    Reads (.literal .char raw) behind := by
  have membership : (⟨Rule.charLiteral, .emit .char⟩ : Rule) ∈ Rule.all := by simp [Rule.all]
  obtain ⟨first, rest, rfl⟩ := Rule.onlySeq_shape rfl spelled
  refine quoted_reads behind membership Rule.charLiteral_prefixFree spelled ?_ rfl
  intro rule ruleMembership rest matched
  rcases (Rule.competes ruleMembership matched).of_single (by decide) with
    ⟨-, empty⟩ | ⟨isSlash, -⟩ | ⟨-, isChar⟩
  · cases empty
  · exact absurd isSlash (by decide)
  · exact isChar

/-- A single character that opens neither a comment nor a character literal is matched alone. -/
theorem longestMatch?_single {character : UInt8} {behind : Bytes}
    (isSingle : character ∈ Rule.marks ++ Rule.brackets)
    (noComment : character = byte '/' → ¬ Rule.OpensComment behind)
    (noChar : character = byte '\'' → ¬ OpensChar behind) :
    longestMatch? Rule.all (character :: behind) = some ⟨1, .emit (.ofByte character)⟩ := by
  -- whatever else starts with the character would open a comment or a character literal
  have alone : ∀ rule ∈ Rule.all, ∀ more, character :: more <+: character :: behind →
      Matches rule.pattern (character :: more) → rule = Rule.single character ∧ more = [] := by
    intro rule ruleMembership more isStart matched
    rcases (Rule.competes ruleMembership matched).of_single isSingle with
      own | ⟨rfl, rfl | rfl⟩ | ⟨rfl, rfl⟩
    · exact own
    · exact absurd ((Rule.comment_start_iff behind).mp ⟨_, isStart, .inl matched⟩) (noComment rfl)
    · exact absurd ((Rule.comment_start_iff behind).mp ⟨_, isStart, .inr matched⟩) (noComment rfl)
    · exact absurd ⟨_, isStart, matched⟩ (noChar rfl)
  have isMatched : Matches (Rule.single character).pattern [character] :=
    (Rule.single_iff _ _).mpr rfl
  refine longestMatch?_append (List.cons_ne_nil _ _) (Rule.single_mem_all isSingle) isMatched ?_ ?_
  · intro other otherMembership matched
    rw [(alone other otherMembership [] ⟨behind, rfl⟩ matched).1]
    rfl
  · intro other otherMembership b more isStart matched
    have longer : character :: b :: more <+: character :: behind :=
      List.cons_prefix_cons.mpr ⟨rfl, isStart⟩
    cases (alone other otherMembership (b :: more) longer matched).2

/-- A single character is read unless it opens a comment or a character literal. -/
theorem single_reads_iff {piece : Piece} {character : UInt8} (behind : Bytes)
    (isSingle : character ∈ Rule.marks ++ Rule.brackets) (isText : piece.text = [character])
    (isPiece : Token.piece ⟨.ofByte character, [character], Span.null⟩ = piece) :
    Reads piece behind ↔ (character = byte '/' → ¬ Rule.OpensComment behind) ∧
      (character = byte '\'' → ¬ OpensChar behind) := by
  constructor
  · intro reads
    have short : ∀ b rest, piece.text.length < (character :: b :: rest : Bytes).length := by
      simp [isText]
    constructor
    · rintro rfl opens
      obtain ⟨lexeme, isStart, inLine | inBlock⟩ := (Rule.comment_start_iff behind).mpr opens
      · obtain ⟨b, rest, rfl⟩ := Rule.onlySeq_shape rfl inLine
        have lineMembership : (⟨Rule.lineComment, .skip⟩ : Rule) ∈ Rule.all := by simp [Rule.all]
        exact reads.not_longer lineMembership (isText ▸ isStart) (short b rest) inLine
      · obtain ⟨b, rest, rfl⟩ := Rule.onlySeq_shape rfl inBlock
        have blockMembership : (⟨Rule.blockComment, .skip⟩ : Rule) ∈ Rule.all := by simp [Rule.all]
        exact reads.not_longer blockMembership (isText ▸ isStart) (short b rest) inBlock
    · rintro rfl ⟨lexeme, isStart, inChar⟩
      obtain ⟨b, rest, rfl⟩ := Rule.onlySeq_shape rfl inChar
      have charMembership : (⟨Rule.charLiteral, .emit .char⟩ : Rule) ∈ Rule.all := by
        simp [Rule.all]
      exact reads.not_longer charMembership (isText ▸ isStart) (short b rest) inChar
  · rintro ⟨noComment, noChar⟩
    refine ⟨.ofByte character, ?_, isText ▸ isPiece⟩
    rw [isText]
    exact longestMatch?_single isSingle noComment noChar

theorem bracket_reads {piece : Piece} {character : UInt8} (behind : Bytes)
    (isBracket : character ∈ Rule.brackets) (isText : piece.text = [character])
    (isPiece : Token.piece ⟨.ofByte character, [character], Span.null⟩ = piece) :
    Reads piece behind := by
  have apart : ∀ bracket ∈ Rule.brackets, bracket ≠ byte '/' ∧ bracket ≠ byte '\'' := by
    apply Bytes.forall_mem_of_all
    decide
  obtain ⟨noSlash, noQuote⟩ := apart character isBracket
  refine (single_reads_iff behind (List.mem_append_right _ isBracket) isText isPiece).mpr ⟨?_, ?_⟩
  · exact fun isSlash => absurd isSlash noSlash
  · exact fun isQuote => absurd isQuote noQuote

theorem mem_brackets_iff (b : UInt8) :
    b ∈ Rule.brackets ↔ ∃ bracket : Bracket, b = bracket.opener ∨ b = bracket.closer := by
  constructor
  · intro membership
    obtain ⟨bracket, -, isOne⟩ := List.mem_flatMap.mp membership
    exact ⟨bracket, by simpa using isOne⟩
  · rintro ⟨bracket, rfl | rfl⟩
    · cases bracket <;> decide
    · cases bracket <;> decide

theorem opening_piece (bracket : Bracket) (lexeme : Bytes) (span : Span) :
    Token.piece ⟨.ofByte bracket.opener, lexeme, span⟩ = .opening (.bracket bracket) := by
  cases bracket <;> rfl

theorem closing_piece (bracket : Bracket) (lexeme : Bytes) (span : Span) :
    Token.piece ⟨.ofByte bracket.closer, lexeme, span⟩ = .closing (.bracket bracket) := by
  cases bracket <;> rfl

theorem marks_spelled : ∀ mark ∈ Rule.marks,
    text (.punct (Int32.ofNat mark.toNat)) = [mark] ∧
      Token.piece ⟨.ofByte mark, [mark], Span.null⟩ = .punct (Int32.ofNat mark.toNat) ∧
      (mark = byte '/' ↔ Int32.ofNat mark.toNat = charCode '/') ∧
      (mark = byte '\'' ↔ Int32.ofNat mark.toNat = charCode '\'') := by
  apply Bytes.forall_mem_of_all
  decide

/-- The scanner reads a piece exactly if the piece does not run into the text behind it. -/
theorem reads_iff {piece : Piece} {behind : Bytes} (spelled : Spelled piece)
    (boundary : piece.isWord = true → Boundary behind) :
    Reads piece behind ↔ Apart piece behind := by
  cases piece with
  | ident name => exact iff_of_true (ident_reads spelled (boundary rfl)) trivial
  | literal kind raw =>
    cases kind with
    | int =>
      obtain ⟨pattern, isInteger, matched⟩ := spelled
      exact int_reads_iff isInteger matched (boundary rfl)
    | float => exact iff_of_true (float_reads spelled (boundary rfl)) trivial
    | string => exact iff_of_true (string_reads behind spelled) trivial
    | char => exact iff_of_true (char_reads behind spelled) trivial
    | unknown tag => exact spelled.elim
  | punct char =>
    obtain ⟨mark, membership, rfl⟩ := spelled
    obtain ⟨isText, isPiece, isSlash, isQuote⟩ := marks_spelled mark membership
    have isSingle := List.mem_append_left Rule.brackets membership
    rw [single_reads_iff behind isSingle isText isPiece, isSlash, isQuote]
    rfl
  | opening delimiter =>
    obtain ⟨bracket, rfl⟩ := spelled
    have isBracket := (mem_brackets_iff _).mpr ⟨bracket, .inl rfl⟩
    exact iff_of_true (bracket_reads behind isBracket rfl (opening_piece _ _ _)) trivial
  | closing delimiter =>
    obtain ⟨bracket, rfl⟩ := spelled
    have isBracket := (mem_brackets_iff _).mpr ⟨bracket, .inr rfl⟩
    exact iff_of_true (bracket_reads behind isBracket rfl (closing_piece _ _ _)) trivial

/-- What the text of a piece starts with. -/
inductive Begins : Piece → UInt8 → Prop where
  | ident {name b} : Rule.startsName b = true → Begins (.ident name) b
  | int {raw b} : Rule.isDigit b = true → Begins (.literal .int raw) b
  | float {raw b} : Rule.isDigit b = true → Begins (.literal .float raw) b
  | string {raw} : Begins (.literal .string raw) (byte '"')
  | char {raw} : Begins (.literal .char raw) (byte '\'')
  | punct {mark} : mark ∈ Rule.marks → Begins (.punct (Int32.ofNat mark.toNat)) mark
  | opening {bracket} : Begins (.opening (.bracket bracket)) bracket.opener
  | closing {bracket} : Begins (.closing (.bracket bracket)) bracket.closer

theorem Spelled.begins {piece : Piece} (spelled : Spelled piece) :
    ∃ b rest, piece.text = b :: rest ∧ Begins piece b := by
  cases piece with
  | ident name =>
    obtain ⟨b, rest, starts, -, rfl⟩ := (Rule.name_iff name).mp spelled
    exact ⟨b, rest, rfl, .ident starts⟩
  | literal kind raw =>
    cases kind with
    | int =>
      obtain ⟨pattern, isInteger, matched⟩ := spelled
      obtain ⟨b, rest, digit, rfl⟩ := Rule.integer_isDigit isInteger matched
      exact ⟨b, rest, rfl, .int digit⟩
    | float =>
      cases raw with
      | nil => exact absurd spelled (not_matches_nil rfl)
      | cons b rest => exact ⟨b, rest, rfl, .float (Rule.floatLiteral_cons spelled)⟩
    | string =>
      obtain ⟨b, rest, rfl⟩ := Rule.onlySeq_shape rfl spelled
      exact ⟨byte '"', b :: rest, rfl, .string⟩
    | char =>
      obtain ⟨b, rest, rfl⟩ := Rule.onlySeq_shape rfl spelled
      exact ⟨byte '\'', b :: rest, rfl, .char⟩
    | unknown tag => exact spelled.elim
  | punct char =>
    obtain ⟨mark, membership, rfl⟩ := spelled
    exact ⟨mark, [], (marks_spelled mark membership).1, .punct membership⟩
  | opening delimiter =>
    obtain ⟨bracket, rfl⟩ := spelled
    exact ⟨bracket.opener, [], rfl, .opening⟩
  | closing delimiter =>
    obtain ⟨bracket, rfl⟩ := spelled
    exact ⟨bracket.closer, [], rfl, .closing⟩

theorem Begins.not_isSpace {piece : Piece} {b : UInt8} (begins : Begins piece b) :
    Rule.isSpace b = false := by
  cases begins with
  | ident starts => exact (Rule.startsName_apart starts).2.1
  | int digit | float digit => exact (Rule.isDigit_apart digit).2.1
  | string | char => decide
  | punct membership => exact (Rule.single_apart b (List.mem_append_left _ membership)).2.2.1
  | @opening bracket | @closing bracket => cases bracket <;> decide

/-- The lexeme of a token is the text of its piece. -/
theorem spelled_of_matches {rule : Rule} (membership : rule ∈ Rule.all) {kind : Kind}
    (emits : rule.action = .emit kind) {lexeme : Bytes} (matched : Matches rule.pattern lexeme)
    (span : Span) : Spelled (Token.piece ⟨kind, lexeme, span⟩) ∧
      text (Token.piece ⟨kind, lexeme, span⟩) = lexeme := by
  rcases (Rule.mem_all_iff rule).mp membership with
    rfl | rfl | rfl | rfl | rfl | rfl | rfl | rfl | rfl | rfl | rfl | ⟨character, isSingle, rfl⟩
  · cases emits
  · cases emits
  · cases emits
  · cases emits
    exact ⟨matched, rfl⟩
  · cases emits
    exact ⟨matched, rfl⟩
  · cases emits
    exact ⟨matched, rfl⟩
  · cases emits
    exact ⟨⟨_, by simp [Rule.integers], matched⟩, rfl⟩
  · cases emits
    exact ⟨⟨_, by simp [Rule.integers], matched⟩, rfl⟩
  · cases emits
    exact ⟨⟨_, by simp [Rule.integers], matched⟩, rfl⟩
  · cases emits
    exact ⟨⟨_, by simp [Rule.integers], matched⟩, rfl⟩
  · cases emits
    exact ⟨matched, rfl⟩
  · cases emits
    rw [(Rule.single_iff _ _).mp matched]
    rcases List.mem_append.mp isSingle with isMark | isBracket
    · obtain ⟨isText, isPiece, -⟩ := marks_spelled character isMark
      have samePiece : Token.piece ⟨.ofByte character, [character], span⟩ =
        .punct (Int32.ofNat character.toNat) := isPiece
      rw [samePiece]
      exact ⟨⟨character, isMark, rfl⟩, isText⟩
    · obtain ⟨bracket, rfl | rfl⟩ := (mem_brackets_iff _).mp isBracket
      · rw [opening_piece]
        exact ⟨⟨bracket, rfl⟩, rfl⟩
      · rw [closing_piece]
        exact ⟨⟨bracket, rfl⟩, rfl⟩

end Piece

/-! Scanning a written word. -/

namespace Scans

theorem spelled {offset stop : Nat} {text rest : Bytes} {tokens : List Token}
    (scanned : Scans offset text tokens stop rest) : ∀ token ∈ tokens, token.piece.Spelled := by
  induction scanned with
  | stay => simp
  | skip _ _ inductionHypothesis => exact inductionHypothesis
  | emit matched _ inductionHypothesis =>
    obtain ⟨rule, membership, emits, inRule⟩ :=
      (longestMatch?_eq_some_iff.mp matched).takes.exists_mem
    exact List.forall_mem_cons.mpr
      ⟨(Piece.spelled_of_matches membership emits inRule _).1, inductionHypothesis⟩

theorem lexeme {lexeme behind : Bytes} {kind : Kind}
    (matched : longestMatch? Rule.all (lexeme ++ behind) = some ⟨lexeme.length, .emit kind⟩)
    (offset : Nat) :
    Scans offset (lexeme ++ behind) [⟨kind, lexeme, ⟨offset, offset + lexeme.length⟩⟩]
      (offset + lexeme.length) behind := by
  have step : Scans offset (lexeme ++ behind) _ _ _ := .emit matched .stay
  rwa [List.take_left, List.drop_left] at step

theorem blank {behind : Bytes} (noSpace : ∀ b ∈ behind.head?, Rule.isSpace b = false)
    (offset : Nat) : Scans offset (Bytes.blank :: behind) [] (offset + 1) behind :=
  .skip (longestMatch?_blank noSpace) .stay

theorem name {name behind : Bytes} (isName : Matches Rule.name name)
    (boundary : Piece.Boundary behind) (offset : Nat) :
    Scans offset (name ++ behind) [⟨.ident, name, ⟨offset, offset + name.length⟩⟩]
      (offset + name.length) behind := by
  obtain ⟨kind, matched, isPiece⟩ := Piece.ident_reads isName boundary
  cases kind with
  | ident => exact lexeme matched offset
  | eof | int | float | string | char | opening | closing | mark => cases isPiece

theorem integer {pattern : Pattern} (isInteger : pattern ∈ Rule.integers) {raw behind : Bytes}
    (spelled : Matches pattern raw) (boundary : Piece.Boundary behind)
    (noFloat : ¬ Piece.OpensFloat raw behind) (offset : Nat) :
    Scans offset (raw ++ behind) [⟨.int, raw, ⟨offset, offset + raw.length⟩⟩]
      (offset + raw.length) behind := by
  obtain ⟨kind, matched, isPiece⟩ := (Piece.int_reads_iff isInteger spelled boundary).mpr noFloat
  cases kind with
  | int => exact lexeme matched offset
  | eof | ident | float | string | char | opening | closing | mark => cases isPiece

end Scans

end Unroll
