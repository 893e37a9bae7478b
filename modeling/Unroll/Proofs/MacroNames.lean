import Unroll.Proofs.HeaderText
import Unroll.Proofs.Lexicon
import Unroll.Settings.Basic

set_option autoImplicit false

/-!
# Names of invocations

A macro name is checked by parsing it as a source. The only sources that parse to a single
identifier and coincide with it are the texts that the rule of names matches as a whole: blanks and
comments are skipped and missing in the identifier, and whatever else stands beside a name is a node
of its own or cannot be scanned.
-/

namespace Unroll

open Pattern

theorem Node.eq_ident_of_isIdent {node : Node} {name : Bytes} (isIdent : node.isIdent name = true) :
    ∃ span, node = .ident name span := by
  cases node with
  | ident own span =>
    rw [Node.isIdent, beq_iff_eq] at isIdent
    exact ⟨span, by rw [isIdent]⟩
  | literal | punct | group => cases isIdent

theorem Lexeme.mem_name_iff (text : Bytes) : text ∈ Lexeme.name ↔ Matches Rule.name text := by
  rw [← Rule.language_name, mem_language_iff]

/-- A name is parsed to itself. -/
theorem Stream.parse_name {name : Bytes} (isName : Matches Rule.name name) :
    Stream.parse name = .ok [.ident name ⟨0, name.length⟩] := by
  have scanned := Scans.name isName Piece.boundary_nil 0
  rw [List.append_nil, Nat.zero_add] at scanned
  apply Stream.parse_of_scans scanned
  intro token membership
  rw [List.mem_singleton.mp membership]
  rfl

namespace Settings

theorem isIdentifier_iff (text : Bytes) :
    isIdentifier text = true ↔ text ∈ Lexeme.name := by
  rw [Lexeme.mem_name_iff]
  constructor
  · intro accepted
    unfold isIdentifier at accepted
    split at accepted
    · rename_i node parsed
      obtain ⟨span, rfl⟩ := Node.eq_ident_of_isIdent accepted
      have spelled := (Stream.spelled_cons_iff _ _).mp (Stream.spelled_of_parse parsed)
      exact (Node.spelled_ident_iff _ _).mp spelled.1
    · cases accepted
  · intro isName
    rw [isIdentifier, Stream.parse_name isName]
    exact beq_self_eq_true text

/-- All settings but the macro name can be used. -/
structure OthersUsable (settings : Settings) : Prop where
  trace : (TraceLevel.ofName? settings.trace).isSome = true
  marker : Utf8.length settings.marker = 1
  continuation : Utf8.length settings.continuation = 1
  paste : Utf8.length settings.paste = 1
  depth : 0 < settings.maxDepth

theorem OthersUsable.validate_eq {settings : Settings} (usable : settings.OthersUsable) :
    settings.validate =
      if isIdentifier settings.macroName then .ok settings
      else .error (.diagnosed Span.null (.macroName settings.macroName)) := by
  obtain ⟨level, isLevel⟩ := Option.isSome_iff_exists.mp usable.trace
  simp only [validate, checkTrace, isLevel, checkCharacter, usable.marker, usable.continuation,
    usable.paste, checkDepth, usable.depth, checkMacroName, if_true]
  by_cases accepted : isIdentifier settings.macroName = true
  · rw [if_pos accepted, if_pos accepted]
    rfl
  · rw [if_neg accepted, if_neg accepted]
    rfl

end Settings

/-- If the other settings can be used, a macro name is accepted exactly if it is a letter or an
underscore with letters, digits and underscores behind it. Everything else is refused as a macro
name: a text with any other byte, one that cannot be parsed, and one that is parsed to no node or
to several. -/
theorem macro_accepted_iff_name (settings : Settings) (usable : settings.OthersUsable)
    (macroName : Bytes) :
    let chosen := { settings with macroName }
    let refused := chosen.validate = .error (.diagnosed Span.null (.macroName macroName))
    (chosen.validate = .ok chosen ↔ macroName ∈ Lexeme.name) ∧
      (refused ↔ macroName ∉ Lexeme.name) ∧
      (∀ b ∈ macroName, Rule.continuesName b = false → refused) ∧
      (∀ fault, Stream.parse macroName = .error fault → refused) ∧
      ∀ stream, Stream.parse macroName = .ok stream → stream.length ≠ 1 → refused := by
  intro chosen refused
  have others : chosen.OthersUsable := ⟨usable.1, usable.2, usable.3, usable.4, usable.5⟩
  have validated : chosen.validate = if Settings.isIdentifier macroName then .ok chosen
      else .error (.diagnosed Span.null (.macroName macroName)) := others.validate_eq
  have accepted_iff : chosen.validate = .ok chosen ↔ macroName ∈ Lexeme.name := by
    rw [← Settings.isIdentifier_iff, validated]
    split <;> simp [*]
  have refused_iff : refused ↔ macroName ∉ Lexeme.name := by
    dsimp only [refused]
    rw [← Settings.isIdentifier_iff, validated]
    split <;> simp [*]
  have refused_of_not_name (noName : ¬ Matches Rule.name macroName) : refused := by
    rwa [refused_iff, Lexeme.mem_name_iff]
  refine ⟨accepted_iff, refused_iff, ?_, ?_, ?_⟩
  · intro b membership foreign
    apply refused_of_not_name
    intro isName
    have continues := Rule.name_continuesName isName b membership
    rw [foreign] at continues
    cases continues
  · intro fault failed
    apply refused_of_not_name
    intro isName
    rw [Stream.parse_name isName] at failed
    cases failed
  · intro stream parsed several
    apply refused_of_not_name
    intro isName
    rw [Stream.parse_name isName] at parsed
    cases parsed
    exact several rfl

/-- A name with a comment behind it. -/
def commentedName : Bytes := word ['s', 'e', 'q', '/', '*', '*', '/']

theorem commentedName_refused :
    Settings.standard.OthersUsable ∧
      { Settings.standard with macroName := word ['_', '9'] }.validate =
        .ok { Settings.standard with macroName := word ['_', '9'] } ∧
      (∃ span, Stream.parse commentedName = .ok [.ident (word ['s', 'e', 'q']) span]) ∧
      { Settings.standard with macroName := commentedName }.validate =
        .error (.diagnosed Span.null (.macroName commentedName)) := by
  have usable : Settings.standard.OthersUsable := by
    constructor
    all_goals with_unfolding_all decide
  refine ⟨usable, ?_, ⟨⟨0, 3⟩, by with_unfolding_all rfl⟩, ?_⟩
  · apply (macro_accepted_iff_name _ usable _).1.mpr
    rw [Lexeme.mem_name_iff, Rule.name_iff]
    exact ⟨byte '_', [byte '9'], by decide, List.forall_mem_singleton.mpr (by decide), rfl⟩
  · exact (macro_accepted_iff_name _ usable _).2.2.1 (byte '/') (by decide) (by decide)

end Unroll
