import Mathlib.Computability.Language
import Unroll.Proofs.ScanPartition

set_option autoImplicit false

/-!
# The lexicon

The words of a source as a list of regular languages, with nothing said about how they are
recognised. At every offset that a scanner reaches it takes the longest word there, on behalf of the
first language that has it, and it stops where there is no word.
-/

namespace Unroll

open Computability

/-! Languages in the notation of regular expressions. -/

namespace Lexeme

/-- The texts of one byte of a class. -/
def oneByte (accepts : UInt8 → Prop) : Language UInt8 :=
  { text | ∃ single, accepts single ∧ text = [single] }

def text (characters : List Char) : Language UInt8 := { word characters }

def range (low high : Char) : Language UInt8 := oneByte fun b => byte low ≤ b ∧ b ≤ byte high

def between (low high : UInt8) : Language UInt8 := oneByte fun b => low ≤ b ∧ b ≤ high

def noneOf (characters : List Char) : Language UInt8 := oneByte fun b => b ∉ word characters

def anyByte : Language UInt8 := oneByte fun _ => True

def maybe (language : Language UInt8) : Language UInt8 := language + 1

def repeated (language : Language UInt8) : Language UInt8 := language * language∗

/-- As an expression, `//[^\n]*\n?`. -/
def lineComment : Language UInt8 := text ['/', '/'] * (noneOf ['\n'])∗ * maybe (text ['\n'])

/-- As an expression, `/\*([^*]|\*+[^*/])*\*+/`. -/
def blockComment : Language UInt8 :=
  text ['/', '*'] * (noneOf ['*'] + repeated (text ['*']) * noneOf ['*', '/'])∗ *
    repeated (text ['*']) * text ['/']

/-- As an expression, `( |\t|\n|\r)+`. -/
def whiteSpace : Language UInt8 :=
  repeated (text [' '] + text ['\t'] + text ['\n'] + text ['\r'])

/-- As an expression, `"([^"\\]|\\.)*"`. -/
def stringLiteral : Language UInt8 :=
  text ['"'] * (noneOf ['"', '\\'] + text ['\\'] * anyByte)∗ * text ['"']

/-- The bytes of a character outside ASCII, by the ranges of its first byte alone. -/
def multibyte : Language UInt8 :=
  between 0xc2 0xdf * between 0x80 0xbf +
    between 0xe0 0xef * between 0x80 0xbf * between 0x80 0xbf +
    between 0xf0 0xf4 * between 0x80 0xbf * between 0x80 0xbf * between 0x80 0xbf

/-- As an expression with the one above in it, `'([^'\\\x80-\xff]|\\.|multibyte)'`. -/
def charLiteral : Language UInt8 :=
  text ['\''] * (oneByte (fun b => b ∉ word ['\'', '\\'] ∧ ¬ (0x80 ≤ b ∧ b ≤ 0xff)) +
    text ['\\'] * anyByte + multibyte) * text ['\'']

/-- As an expression, `([a-z]|[A-Z]|_)([a-z]|[A-Z]|[0-9]|_)*`. -/
def name : Language UInt8 :=
  (range 'a' 'z' + range 'A' 'Z' + text ['_']) *
    (range 'a' 'z' + range 'A' 'Z' + range '0' '9' + text ['_'])∗

def integerSuffix : Language UInt8 :=
  text ['u', '8'] + text ['u', '1', '6'] + text ['u', '3', '2'] + text ['u', '6', '4'] +
    text ['u', '1', '2', '8'] + text ['u', 's', 'i', 'z', 'e'] + text ['i', '8'] +
    text ['i', '1', '6'] + text ['i', '3', '2'] + text ['i', '6', '4'] +
    text ['i', '1', '2', '8'] + text ['i', 's', 'i', 'z', 'e']

/-- As an expression, `[0-9]([0-9]|_)*`. -/
def digits : Language UInt8 := range '0' '9' * (range '0' '9' + text ['_'])∗

def decimalLiteral : Language UInt8 := digits * maybe integerSuffix

/-- As an expression, `0x([0-9]|[a-f]|[A-F]|_)+` and perhaps a suffix. -/
def hexLiteral : Language UInt8 :=
  text ['0', 'x'] * repeated (range '0' '9' + range 'a' 'f' + range 'A' 'F' + text ['_']) *
    maybe integerSuffix

def octalLiteral : Language UInt8 :=
  text ['0', 'o'] * repeated (range '0' '7' + text ['_']) * maybe integerSuffix

def binaryLiteral : Language UInt8 :=
  text ['0', 'b'] * repeated (text ['0'] + text ['1'] + text ['_']) * maybe integerSuffix

/-- As an expression, `digits\.digits((e|E)(\+|\-)?[0-9]+)?(f32|f64)?`. -/
def floatLiteral : Language UInt8 :=
  digits * text ['.'] * digits *
    maybe ((text ['e'] + text ['E']) * maybe (text ['+'] + text ['-']) *
      repeated (range '0' '9')) *
    maybe (text ['f', '3', '2'] + text ['f', '6', '4'])

end Lexeme

/-- Languages with what becomes of their words. Of two that have a word, the one in front wins. -/
abbrev Lexicon := List (Language UInt8 × Action)

namespace Lexicon

/-- A mark is its own kind, numbered by its code. -/
def ofMark (character : Char) : Language UInt8 × Action :=
  (Lexeme.text [character], .emit (.mark (Int64.ofNat character.toNat)))

def marks : List Char :=
  ['~', '!', '@', '#', '$', '%', '^', '&', '*', '-', '+', '=', '|', '\\', ':', ';', ',', '.', '<',
    '>', '/', '?', '\'']

def ofBracket (bracket : Bracket) : Lexicon :=
  [(Lexeme.oneByte (· = bracket.opener), .emit (.opening bracket)),
    (Lexeme.oneByte (· = bracket.closer), .emit (.closing bracket))]

def standard : Lexicon :=
  [(Lexeme.lineComment, .skip), (Lexeme.blockComment, .skip), (Lexeme.whiteSpace, .skip),
    (Lexeme.stringLiteral, .emit .string), (Lexeme.charLiteral, .emit .char),
    (Lexeme.name, .emit .ident), (Lexeme.decimalLiteral, .emit .int),
    (Lexeme.hexLiteral, .emit .int), (Lexeme.octalLiteral, .emit .int),
    (Lexeme.binaryLiteral, .emit .int), (Lexeme.floatLiteral, .emit .float)] ++
    marks.map ofMark ++ [Bracket.round, Bracket.square, Bracket.curly].flatMap ofBracket

variable (lexicon : Lexicon)

/-- The longest start of a text that is a word has this size, and the first language that has it
this action. -/
structure Reads (text : Bytes) (size : Nat) (action : Action) : Prop where
  within : size ≤ text.length
  attributed : ∃ earlier language later, lexicon = earlier ++ (language, action) :: later ∧
    text.take size ∈ language ∧ ∀ entry ∈ earlier, text.take size ∉ entry.1
  longest : ∀ entry ∈ lexicon, ∀ lexeme ∈ entry.1, lexeme <+: text → lexeme.length ≤ size

/-- No start of a text is a word, the empty one apart. -/
def Refuses (text : Bytes) : Prop :=
  ∀ entry ∈ lexicon, ∀ lexeme ∈ entry.1, lexeme <+: text → lexeme = []

/-- What a source yields from an offset on, word by word. -/
inductive Yields (source : Bytes) : Nat → List Event → Prop where
  | finished : Yields source source.length [.token Token.ending]
  | skip {offset size events} : lexicon.Reads (source.drop offset) size .skip →
      Yields source (offset + size) events → Yields source offset events
  | emit {offset size kind events} : lexicon.Reads (source.drop offset) size (.emit kind) →
      Yields source (offset + size) events →
      Yields source offset
        (.token ⟨kind, source.slice offset (offset + size), ⟨offset, offset + size⟩⟩ :: events)
  | stuck {offset} : offset < source.length → lexicon.Refuses (source.drop offset) → (read : Nat) →
      Yields source offset [.report (unscannableAt source offset read),
        .token ⟨.eof, [], ⟨offset, offset + read + 1⟩⟩]

end Lexicon

/-! The languages of patterns. -/

namespace Pattern

def language (pattern : Pattern) : Language UInt8 := { text | Matches pattern text }

@[simp] theorem mem_language_iff (pattern : Pattern) (text : Bytes) :
    text ∈ pattern.language ↔ Matches pattern text := Iff.rfl

@[simp] theorem language_empty : language .empty = 1 := by
  ext text
  simp

@[simp] theorem language_byte (accepts : UInt8 → Bool) :
    language (.byte accepts) = Lexeme.oneByte fun b => accepts b = true := by
  ext text
  exact matches_byte_iff accepts text

@[simp] theorem language_seq (first second : Pattern) :
    language (.seq first second) = first.language * second.language := by
  ext text
  simp [Language.mem_mul, eq_comm]

@[simp] theorem language_alt (left right : Pattern) :
    language (.alt left right) = left.language + right.language := by
  ext text
  exact matches_alt_iff left right text

@[simp] theorem language_star (body : Pattern) : language (.star body) = body.language∗ := by
  ext text
  simp [Language.mem_kstar, matches_star_iff, and_comm]

@[simp] theorem language_literal (characters : List Char) :
    language (literal (word characters)) = Lexeme.text characters := by
  ext text
  exact matches_literal_iff (word characters) text

@[simp] theorem language_optional (body : Pattern) :
    language (optional body) = Lexeme.maybe body.language := by
  simp [optional, Lexeme.maybe]

@[simp] theorem language_plus (body : Pattern) :
    language (plus body) = Lexeme.repeated body.language := by
  simp [plus, Lexeme.repeated]

@[simp] theorem language_oneOf (patterns : List Pattern) :
    language (oneOf patterns) = (patterns.map language).sum := by
  ext text
  induction patterns with
  | nil => simp [oneOf]
  | cons first rest inductionHypothesis =>
    rw [List.map_cons, List.sum_cons, Language.mem_add, ← inductionHypothesis]
    simp

@[simp] theorem language_inOrder (patterns : List Pattern) :
    language (inOrder patterns) = (patterns.map language).prod := by
  induction patterns with
  | nil => simp [inOrder]
  | cons first rest inductionHypothesis =>
    rw [List.map_cons, List.prod_cons, ← inductionHypothesis, ← language_seq]
    ext text
    rw [mem_language_iff, mem_language_iff, matches_inOrder_cons_iff, matches_seq_iff]

end Pattern

namespace Lexeme

theorem mem_oneByte_iff (accepts : UInt8 → Prop) (lexeme : Bytes) :
    lexeme ∈ oneByte accepts ↔ ∃ single, accepts single ∧ lexeme = [single] := Iff.rfl

theorem mem_text_iff (characters : List Char) (lexeme : Bytes) :
    lexeme ∈ text characters ↔ lexeme = word characters := Iff.rfl

theorem text_cons (first second : Char) (rest : List Char) :
    text (first :: second :: rest) = text [first] * text (second :: rest) := by
  ext lexeme
  simp [mem_text_iff, Language.mem_mul, word, eq_comm]

theorem text_single (character : Char) : text [character] = oneByte (· = byte character) := by
  ext lexeme
  simp [mem_text_iff, mem_oneByte_iff, word]

@[simp] theorem oneByte_or (left right : UInt8 → Prop) :
    (oneByte fun b => left b ∨ right b) = oneByte left + oneByte right := by
  ext lexeme
  simp only [Language.mem_add, mem_oneByte_iff, or_and_right, exists_or]

end Lexeme

namespace Rule

open Pattern

@[simp] theorem language_only (character : Char) :
    (only character).language = Lexeme.text [character] := by
  rw [only, language_byte, Lexeme.text_single]
  simp

/-! The rules, one by one. -/

theorem language_lineComment : lineComment.language = Lexeme.lineComment := by
  simp [lineComment, Lexeme.lineComment, Lexeme.text_cons, Lexeme.noneOf, word, byte,
    Bytes.newline, mul_assoc]

theorem language_blockComment : blockComment.language = Lexeme.blockComment := by
  simp [blockComment, Lexeme.blockComment, Lexeme.text_cons, Lexeme.noneOf, word, mul_assoc]

theorem language_whiteSpace : whiteSpace.language = Lexeme.whiteSpace := by
  simp [whiteSpace, Lexeme.whiteSpace, isSpace, Lexeme.text_single, byte]

@[simp] theorem language_escapePair :
    escapePair.language = Lexeme.text ['\\'] * Lexeme.anyByte := by
  simp [escapePair, Lexeme.anyByte]

theorem language_stringLiteral : stringLiteral.language = Lexeme.stringLiteral := by
  simp [stringLiteral, Lexeme.stringLiteral, Lexeme.noneOf, word, mul_assoc]

@[simp] theorem language_between (low high : UInt8) :
    (between low high).language = Lexeme.between low high := by
  simp [between, Lexeme.between]

@[simp] theorem language_multibyte : multibyte.language = Lexeme.multibyte := by
  simp [multibyte, Lexeme.multibyte, mul_assoc, sup_assoc]

theorem language_charLiteral : charLiteral.language = Lexeme.charLiteral := by
  have inAscii : ∀ b : UInt8, (0x80 ≤ b → 0xff < b) ↔ b < 0x80 := by
    intro b
    rw [UInt8.lt_iff_toNat_lt, UInt8.lt_iff_toNat_lt, UInt8.le_iff_toNat_le]
    have below := b.toNat_lt
    simp only [UInt8.toNat_ofNat, Nat.reducePow, Nat.reduceMod]
    omega
  simp [charLiteral, Lexeme.charLiteral, inAscii, word, mul_assoc, sup_assoc]

theorem language_name : name.language = Lexeme.name := by
  simp [name, Lexeme.name, startsName, continuesName, isLower, isUpper, isDigit, isUnderscore,
    Lexeme.range, Lexeme.text_single, byte]

@[simp] theorem language_integerSuffix :
    integerSuffix.language = Lexeme.maybe Lexeme.integerSuffix := by
  simp [integerSuffix, Lexeme.integerSuffix, integerSuffixes, sup_assoc]

@[simp] theorem language_digits : digits.language = Lexeme.digits := by
  simp [digits, Lexeme.digits, continuesNumber, isDigit, isUnderscore, Lexeme.range,
    Lexeme.text_single, byte]

theorem language_decimalLiteral : decimalLiteral.language = Lexeme.decimalLiteral := by
  simp [decimalLiteral, Lexeme.decimalLiteral]

theorem language_basedLiteral (letter : Char) (isBaseDigit : UInt8 → Bool) :
    (basedLiteral letter isBaseDigit).language =
      Lexeme.text ['0', letter] *
        Lexeme.repeated ((Lexeme.oneByte fun b => isBaseDigit b = true) + Lexeme.text ['_']) *
        Lexeme.maybe Lexeme.integerSuffix := by
  simp [basedLiteral, isUnderscore, Lexeme.text_cons, Lexeme.text_single, byte, mul_assoc]

theorem language_hexLiteral : hexLiteral.language = Lexeme.hexLiteral := by
  rw [hexLiteral, language_basedLiteral, Lexeme.hexLiteral]
  simp [isHexDigit, isDigit, Lexeme.range, byte]

theorem language_octalLiteral : octalLiteral.language = Lexeme.octalLiteral := by
  rw [octalLiteral, language_basedLiteral, Lexeme.octalLiteral]
  simp [isOctalDigit, Lexeme.range, byte]

theorem language_binaryLiteral : binaryLiteral.language = Lexeme.binaryLiteral := by
  rw [binaryLiteral, language_basedLiteral, Lexeme.binaryLiteral]
  simp [isBinaryDigit, Lexeme.text_single, byte]

theorem language_floatLiteral : floatLiteral.language = Lexeme.floatLiteral := by
  simp [floatLiteral, exponent, Lexeme.floatLiteral, isDigit, Lexeme.range, Lexeme.text_single, byte,
    mul_assoc]

/-- A rule without the way in which it is recognised. -/
def entry (rule : Rule) : Language UInt8 × Action := (rule.pattern.language, rule.action)

theorem entry_single (character : UInt8) :
    (single character).entry = (Lexeme.oneByte (· = character), .emit (.ofByte character)) := by
  simp [single, entry]

theorem marks_map_entry : marks.map (entry ∘ single) = Lexicon.marks.map Lexicon.ofMark := by
  have kinds : Lexicon.marks.map (fun character => Kind.ofByte (byte character)) =
      Lexicon.marks.map fun character => .mark (Int64.ofNat character.toNat) := by decide
  rw [List.map_inj_left] at kinds
  have isMarks : marks = word Lexicon.marks := rfl
  rw [isMarks, word, List.map_map]
  apply List.map_congr_left
  intro character membership
  simp only [Function.comp_apply, entry_single, kinds character membership, Lexicon.ofMark,
    Lexeme.text_single]

theorem brackets_map_entry :
    brackets.map (entry ∘ single) =
      [Bracket.round, Bracket.square, Bracket.curly].flatMap Lexicon.ofBracket := by
  have kinds : ∀ bracket : Bracket, Kind.ofByte bracket.opener = .opening bracket ∧
      Kind.ofByte bracket.closer = .closing bracket := by
    intro bracket
    cases bracket <;> decide
  rw [brackets, List.map_flatMap]
  apply List.flatMap_congr
  intro bracket _
  simp [entry_single, Lexicon.ofBracket, kinds]

/-- The languages of the rules are those of the lexicon, in the same order. -/
theorem all_map_entry : all.map entry = Lexicon.standard := by
  rw [all, List.map_append, List.map_map, List.map_append, marks_map_entry, brackets_map_entry,
    ← List.append_assoc, Lexicon.standard]
  simp only [List.map_cons, List.map_nil, entry, language_lineComment, language_blockComment,
    language_whiteSpace, language_stringLiteral, language_charLiteral, language_name,
    language_decimalLiteral, language_hexLiteral, language_octalLiteral, language_binaryLiteral,
    language_floatLiteral]

theorem takes_iff (rules : List Rule) (text : Bytes) (action : Action) :
    Takes rules text action ↔ ∃ earlier language later,
      rules.map entry = earlier ++ (language, action) :: later ∧ text ∈ language ∧
        ∀ own ∈ earlier, text ∉ own.1 := by
  constructor
  · intro taken
    induction taken with
    | @here rule rules text matched =>
      exact ⟨[], rule.pattern.language, rules.map entry, rfl, matched, List.forall_mem_nil _⟩
    | @later rule rules text action refused _ inductionHypothesis =>
      obtain ⟨earlier, language, later, isList, matched, notEarlier⟩ := inductionHypothesis
      refine ⟨rule.entry :: earlier, language, later, ?_, matched, ?_⟩
      · rw [List.map_cons, isList, List.cons_append]
      · exact List.forall_mem_cons.mpr ⟨refused, notEarlier⟩
  · rintro ⟨earlier, language, later, isList, matched, notEarlier⟩
    induction earlier generalizing rules with
    | nil =>
      obtain ⟨rule, rest, rfl, isEntry, -⟩ := List.map_eq_cons_iff.mp isList
      cases isEntry
      exact .here matched
    | cons own earlier inductionHypothesis =>
      obtain ⟨rule, rest, rfl, rfl, isRest⟩ := List.map_eq_cons_iff.mp isList
      obtain ⟨refused, notEarlier⟩ := List.forall_mem_cons.mp notEarlier
      exact .later refused (inductionHypothesis rest isRest notEarlier)

theorem not_matches_nil_of_mem {rule : Rule} (membership : rule ∈ all) :
    ¬ Matches rule.pattern [] := by
  have proper : ∀ rule ∈ all, rule.pattern.nullable = false := by decide
  exact not_matches_nil (proper rule membership)

end Rule

namespace Lexicon

open Pattern

theorem reads_iff (text : Bytes) (found : Match) :
    standard.Reads text found.size found.action ↔ IsLongestMatch Rule.all text found := by
  rw [← Rule.all_map_entry]
  constructor
  · rintro ⟨within, attributed, longest⟩
    have taken := (Rule.takes_iff _ _ _).mpr attributed
    refine ⟨?_, within, taken, ?_⟩
    · obtain ⟨rule, membership, -, matched⟩ := taken.exists_mem
      apply Nat.pos_of_ne_zero
      intro isZero
      rw [isZero, List.take_zero] at matched
      exact Rule.not_matches_nil_of_mem membership matched
    · intro rule membership lexeme isStart longer matched
      have bound := longest rule.entry (List.mem_map_of_mem membership) lexeme matched isStart
      omega
  · rintro ⟨positive, within, taken, longest⟩
    refine ⟨within, (Rule.takes_iff _ _ _).mp taken, ?_⟩
    intro own membership lexeme matched isStart
    obtain ⟨rule, inRules, rfl⟩ := List.mem_map.mp membership
    by_contra longer
    exact longest rule inRules lexeme isStart (Nat.lt_of_not_le longer) matched

theorem refuses_iff (text : Bytes) : standard.Refuses text ↔ Unmatched Rule.all text := by
  rw [← Rule.all_map_entry]
  constructor
  · intro refuses rule membership lexeme isStart nonempty matched
    exact nonempty (refuses rule.entry (List.mem_map_of_mem membership) lexeme matched isStart)
  · intro unmatched own membership lexeme matched isStart
    obtain ⟨rule, inRules, rfl⟩ := List.mem_map.mp membership
    by_contra nonempty
    exact unmatched rule inRules lexeme isStart nonempty matched

theorem longestMatch?_eq_some_iff_reads (text : Bytes) (found : Match) :
    longestMatch? Rule.all text = some found ↔ standard.Reads text found.size found.action :=
  longestMatch?_eq_some_iff.trans (reads_iff text found).symm

theorem longestMatch?_eq_none_iff_refuses (text : Bytes) :
    longestMatch? Rule.all text = none ↔ standard.Refuses text :=
  longestMatch?_eq_none_iff.trans (refuses_iff text).symm

/-- Where reading halts the last answer is yielded. -/
theorem yields_lastAnswer {source rest : Bytes} {stop : Nat} (halted : Scanner.Halted rest)
    (isRest : rest = source.drop stop) (within : stop ≤ source.length) :
    standard.Yields source stop (Scanner.eventsOf (Scanner.lastAnswer source stop rest)) := by
  by_cases empty : rest = []
  · have reached : source.length ≤ stop := List.drop_eq_nil_iff.mp (isRest ▸ empty)
    obtain rfl : stop = source.length := Nat.le_antisymm within reached
    rw [empty]
    exact .finished
  · rw [Scanner.lastAnswer_of_ne_nil source stop empty]
    refine .stuck ?_ ?_ _
    · rw [isRest, List.drop_eq_nil_iff] at empty
      omega
    · rcases halted with impossible | unmatched
      · exact absurd impossible empty
      · rw [← isRest]
        exact (longestMatch?_eq_none_iff_refuses rest).mp unmatched

end Lexicon

/-- What is scanned from an offset is yielded there, in front of what is yielded behind it. -/
theorem Scans.yields {source text rest : Bytes} {offset stop : Nat} {tokens : List Token}
    {events : List Event} (scanned : Scans offset text tokens stop rest)
    (isText : text = source.drop offset) (behind : Lexicon.standard.Yields source stop events) :
    Lexicon.standard.Yields source offset (tokens.map .token ++ events) := by
  induction scanned with
  | stay => exact behind
  | @skip offset text size tokens stop rest matched _ inductionHypothesis =>
    have reads := (Lexicon.longestMatch?_eq_some_iff_reads _ _).mp matched
    rw [isText] at reads
    refine .skip reads (inductionHypothesis ?_ behind)
    rw [isText, List.drop_drop]
  | @emit offset text size kind tokens stop rest matched _ inductionHypothesis =>
    have reads := (Lexicon.longestMatch?_eq_some_iff_reads _ _).mp matched
    rw [isText] at reads
    rw [List.map_cons, List.cons_append, ← Bytes.slice_of_drop_eq isText]
    refine .emit reads (inductionHypothesis ?_ behind)
    rw [isText, List.drop_drop]

/-- A match is the longest word at the start of the text, by the first language that has it, and
there is none only if there is no word. So a scanner yields the words of its source. -/
theorem scanner_yields_lexicon :
    (∀ text found, longestMatch? Rule.all text = some found ↔
      Lexicon.standard.Reads text found.size found.action) ∧
    (∀ text, longestMatch? Rule.all text = none ↔ Lexicon.standard.Refuses text) ∧
    ∀ source, Lexicon.standard.Yields source 0 (Scanner.ofSource source).events := by
  refine ⟨Lexicon.longestMatch?_eq_some_iff_reads, Lexicon.longestMatch?_eq_none_iff_refuses, ?_⟩
  intro source
  obtain ⟨tokens, stop, rest, scanned, halted, events⟩ :=
    Scanner.events_eq (Scanner.ofSource source) rfl
  have isSource : source = source.drop 0 := rfl
  obtain ⟨partition, isRest⟩ := scanned.partition isSource (Nat.zero_le _)
  rw [events]
  exact scanned.yields isSource
    (Lexicon.yields_lastAnswer halted isRest partition.stop_le_length.2)

end Unroll
