import Mathlib.Tactic.Common
import Unroll.Token.Pattern

set_option autoImplicit false

/-!
# The language of a pattern

`Matches` read constructor by constructor, and the laws of its executable counterpart: a derivative
matches what the pattern matches behind the byte, so reading a text byte by byte decides the
language.
-/

namespace Unroll.Pattern

@[simp] theorem not_matches_void (text : Bytes) : ¬ Matches .void text := by
  intro matched
  cases matched

@[simp] theorem matches_empty_iff (text : Bytes) : Matches .empty text ↔ text = [] := by
  constructor
  · intro matched
    cases matched
    rfl
  · rintro rfl
    exact .empty

@[simp] theorem matches_byte_iff (accepts : UInt8 → Bool) (text : Bytes) :
    Matches (.byte accepts) text ↔ ∃ single, accepts single = true ∧ text = [single] := by
  constructor
  · intro matched
    cases matched with
    | byte accepted => exact ⟨_, accepted, rfl⟩
  · rintro ⟨single, accepted, rfl⟩
    exact .byte accepted

@[simp] theorem matches_seq_iff (first second : Pattern) (text : Bytes) :
    Matches (.seq first second) text ↔
      ∃ head tail, Matches first head ∧ Matches second tail ∧ text = head ++ tail := by
  constructor
  · intro matched
    cases matched with
    | seq inFirst inSecond => exact ⟨_, _, inFirst, inSecond, rfl⟩
  · rintro ⟨head, tail, inFirst, inSecond, rfl⟩
    exact .seq inFirst inSecond

@[simp] theorem matches_alt_iff (left right : Pattern) (text : Bytes) :
    Matches (.alt left right) text ↔ Matches left text ∨ Matches right text := by
  constructor
  · intro matched
    cases matched with
    | left inLeft => exact .inl inLeft
    | right inRight => exact .inr inRight
  · rintro (inLeft | inRight)
    · exact .left inLeft
    · exact .right inRight

/-- A repetition is a list of parts, each of which the body matches. -/
theorem matches_star_iff (body : Pattern) (text : Bytes) :
    Matches (.star body) text ↔
      ∃ parts : List Bytes, (∀ part ∈ parts, Matches body part) ∧ text = parts.flatten := by
  constructor
  · intro matched
    generalize shape : Pattern.star body = pattern at matched
    induction matched with
    | empty | byte _ | seq _ _ | left _ | right _ => cases shape
    | done => exact ⟨[], by simp, rfl⟩
    | @more own head tail inBody _ _ inductionHypothesis =>
      cases shape
      obtain ⟨parts, inParts, rfl⟩ := inductionHypothesis rfl
      refine ⟨head :: parts, ?_, rfl⟩
      intro part membership
      rcases List.mem_cons.mp membership with rfl | inTail
      · exact inBody
      · exact inParts part inTail
  · rintro ⟨parts, inParts, rfl⟩
    induction parts with
    | nil => exact .done
    | cons part parts inductionHypothesis =>
      rw [List.flatten_cons]
      exact .more (inParts part (by simp))
        (inductionHypothesis fun other membership => inParts other (by simp [membership]))

theorem matches_star_byte_iff (accepts : UInt8 → Bool) (text : Bytes) :
    Matches (.star (.byte accepts)) text ↔ ∀ single ∈ text, accepts single = true := by
  rw [matches_star_iff]
  constructor
  · rintro ⟨parts, inParts, rfl⟩ single membership
    obtain ⟨part, partMembership, singleMembership⟩ := List.mem_flatten.mp membership
    obtain ⟨only, accepted, rfl⟩ := (matches_byte_iff _ _).mp (inParts part partMembership)
    rw [List.mem_singleton.mp singleMembership]
    exact accepted
  · intro accepted
    refine ⟨text.map fun single => [single], ?_, ?_⟩
    · intro part membership
      obtain ⟨single, singleMembership, rfl⟩ := List.mem_map.mp membership
      exact .byte (accepted single singleMembership)
    · rw [← List.flatMap_def, List.flatMap_singleton']

/-- Parts of a repetition that are empty can be left out, so a text that is not empty starts with a
part that is not. -/
theorem matches_star_cons_iff (body : Pattern) (single : UInt8) (text : Bytes) :
    Matches (.star body) (single :: text) ↔
      ∃ head tail, Matches body (single :: head) ∧ Matches (.star body) tail ∧
        text = head ++ tail := by
  constructor
  · intro matched
    obtain ⟨parts, inParts, split⟩ := (matches_star_iff _ _).mp matched
    induction parts with
    | nil => cases split
    | cons part parts inductionHypothesis =>
      have inRest : ∀ other ∈ parts, Matches body other :=
        fun other membership => inParts other (by simp [membership])
      cases part with
      | nil => exact inductionHypothesis inRest split
      | cons first part =>
        rw [List.flatten_cons, List.cons_append, List.cons.injEq] at split
        obtain ⟨rfl, rfl⟩ := split
        exact ⟨part, parts.flatten, inParts _ (by simp),
          (matches_star_iff _ _).mpr ⟨parts, inRest, rfl⟩, rfl⟩
  · rintro ⟨head, tail, inBody, inStar, rfl⟩
    exact .more inBody inStar

/-- One part more in front of a repetition and what follows it. -/
theorem Matches.starThen {body ending : Pattern} {part text : Bytes} (inPart : Matches body part)
    (matched : Matches (.seq (.star body) ending) text) :
    Matches (.seq (.star body) ending) (part ++ text) := by
  obtain ⟨inside, tail, inStar, inEnding, rfl⟩ := (matches_seq_iff _ _ _).mp matched
  rw [← List.append_assoc]
  exact .seq (.more inPart inStar) inEnding

/-! Patterns built from others. -/

@[simp] theorem matches_literal_iff (word text : Bytes) :
    Matches (literal word) text ↔ text = word := by
  induction word generalizing text with
  | nil => simp [literal]
  | cons single rest inductionHypothesis =>
    simp only [literal, matches_seq_iff, matches_byte_iff, beq_iff_eq, inductionHypothesis]
    constructor
    · rintro ⟨head, tail, ⟨own, rfl, rfl⟩, rfl, rfl⟩
      rfl
    · rintro rfl
      exact ⟨[single], rest, ⟨single, rfl, rfl⟩, rfl, rfl⟩

@[simp] theorem matches_optional_iff (body : Pattern) (text : Bytes) :
    Matches (optional body) text ↔ Matches body text ∨ text = [] := by
  simp [optional]

theorem matches_plus_byte_iff (accepts : UInt8 → Bool) (text : Bytes) :
    Matches (plus (.byte accepts)) text ↔
      text ≠ [] ∧ ∀ single ∈ text, accepts single = true := by
  simp only [plus, matches_seq_iff, matches_byte_iff, matches_star_byte_iff]
  constructor
  · rintro ⟨head, tail, ⟨single, accepted, rfl⟩, inStar, rfl⟩
    exact ⟨by simp, by simpa using ⟨accepted, inStar⟩⟩
  · rintro ⟨nonempty, accepted⟩
    cases text with
    | nil => exact absurd rfl nonempty
    | cons single rest =>
      exact ⟨[single], rest, ⟨single, accepted single (by simp), rfl⟩,
        fun other membership => accepted other (by simp [membership]), rfl⟩

@[simp] theorem matches_oneOf_iff (patterns : List Pattern) (text : Bytes) :
    Matches (oneOf patterns) text ↔ ∃ pattern ∈ patterns, Matches pattern text := by
  induction patterns with
  | nil => simp [oneOf]
  | cons first rest inductionHypothesis =>
    cases rest with
    | nil => simp [oneOf]
    | cons second rest =>
      simp only [oneOf, matches_alt_iff, inductionHypothesis]
      simp

@[simp] theorem matches_inOrder_nil_iff (text : Bytes) : Matches (inOrder []) text ↔ text = [] := by
  simp [inOrder]

@[simp] theorem matches_inOrder_cons_iff (first : Pattern) (rest : List Pattern) (text : Bytes) :
    Matches (inOrder (first :: rest)) text ↔
      ∃ head tail, Matches first head ∧ Matches (inOrder rest) tail ∧ text = head ++ tail := by
  cases rest with
  | nil => simp [inOrder]
  | cons second rest => simp only [inOrder, matches_seq_iff]

theorem matches_byteSeq_iff (accepts : UInt8 → Bool) (second : Pattern) (text : Bytes) :
    Matches (.seq (.byte accepts) second) text ↔
      ∃ single rest, accepts single = true ∧ Matches second rest ∧ text = single :: rest := by
  rw [matches_seq_iff]
  constructor
  · rintro ⟨head, tail, inFirst, inSecond, rfl⟩
    obtain ⟨single, accepted, rfl⟩ := (matches_byte_iff _ _).mp inFirst
    exact ⟨single, tail, accepted, inSecond, rfl⟩
  · rintro ⟨single, rest, accepted, inSecond, rfl⟩
    exact ⟨[single], rest, .byte accepted, inSecond, rfl⟩

/-! The executable counterpart. -/

theorem nullable_iff (pattern : Pattern) : pattern.nullable = true ↔ Matches pattern [] := by
  induction pattern with
  | void => simp [nullable]
  | empty => simp [nullable]
  | byte accepts => simp [nullable]
  | seq first second inFirst inSecond => simp [nullable, inFirst, inSecond]
  | alt left right inLeft inRight => simp [nullable, inLeft, inRight]
  | star body _ => exact ⟨fun _ => .done, fun _ => rfl⟩

theorem eq_void_of_isVoid {pattern : Pattern} (isVoid : pattern.isVoid = true) :
    pattern = .void := by
  cases pattern with
  | void => rfl
  | empty | byte _ | seq _ _ | alt _ _ | star _ => cases isVoid

theorem matches_followedBy_iff (first second : Pattern) (text : Bytes) :
    Matches (first.followedBy second) text ↔ Matches (.seq first second) text := by
  unfold followedBy
  split <;> simp

theorem matches_either_iff (left right : Pattern) (text : Bytes) :
    Matches (left.either right) text ↔ Matches (.alt left right) text := by
  unfold either
  split <;> simp

/-- A text that starts with a byte is matched by a sequence in its first part, or in its second part
if the first one may be empty. -/
theorem matches_seq_cons_iff (first second : Pattern) (single : UInt8) (text : Bytes) :
    Matches (.seq first second) (single :: text) ↔
      (∃ head tail, Matches first (single :: head) ∧ Matches second tail ∧ text = head ++ tail) ∨
        first.nullable = true ∧ Matches second (single :: text) := by
  rw [matches_seq_iff, nullable_iff]
  constructor
  · rintro ⟨head, tail, inFirst, inSecond, split⟩
    cases head with
    | nil =>
      rw [List.nil_append] at split
      subst split
      exact .inr ⟨inFirst, inSecond⟩
    | cons own head =>
      rw [List.cons_append, List.cons.injEq] at split
      obtain ⟨rfl, rfl⟩ := split
      exact .inl ⟨head, tail, inFirst, inSecond, rfl⟩
  · rintro (⟨head, tail, inFirst, inSecond, rfl⟩ | ⟨inFirst, inSecond⟩)
    · exact ⟨single :: head, tail, inFirst, inSecond, rfl⟩
    · exact ⟨[], single :: text, inFirst, inSecond, rfl⟩

/-- The derivative matches what may follow the byte. -/
theorem matches_derive_iff (single : UInt8) (pattern : Pattern) (text : Bytes) :
    Matches (pattern.derive single) text ↔ Matches pattern (single :: text) := by
  induction pattern generalizing text with
  | void => simp [derive]
  | empty => simp [derive]
  | byte accepts =>
    unfold derive
    split
    · rename_i accepted
      simp [accepted]
    · rename_i refused
      simp [refused]
  | seq first second inFirst inSecond =>
    rw [matches_seq_cons_iff]
    by_cases nullable : first.nullable = true
    · simp [derive, nullable, matches_either_iff, matches_followedBy_iff, inFirst, inSecond]
    · simp [derive, nullable, matches_followedBy_iff, inFirst]
  | alt left right inLeft inRight =>
    simp [derive, matches_either_iff, inLeft, inRight]
  | star body inBody =>
    rw [matches_star_cons_iff]
    simp [derive, matches_followedBy_iff, inBody]

/-- Reads a whole text. -/
def accepts (pattern : Pattern) : Bytes → Bool
  | [] => pattern.nullable
  | single :: text => (pattern.derive single).accepts text

theorem accepts_iff (pattern : Pattern) (text : Bytes) :
    pattern.accepts text = true ↔ Matches pattern text := by
  induction text generalizing pattern with
  | nil => exact nullable_iff pattern
  | cons single text inductionHypothesis =>
    rw [accepts, inductionHypothesis, matches_derive_iff]

instance (pattern : Pattern) (text : Bytes) : Decidable (Matches pattern text) :=
  decidable_of_iff (pattern.accepts text = true) (accepts_iff pattern text)

/-! Patterns whose words end where they end, whatever follows. -/

/-- No word of the pattern goes on as another one. -/
def PrefixFree (pattern : Pattern) : Prop :=
  ∀ text more, Matches pattern text → Matches pattern (text ++ more) → more = []

/-- No byte starts words of both patterns. -/
def StartApart (left right : Pattern) : Prop :=
  ∀ single head tail, Matches left (single :: head) → ¬ Matches right (single :: tail)

theorem PrefixFree.eq_of_append_eq {pattern : Pattern} (prefixFree : PrefixFree pattern)
    {text text' rest rest' : Bytes} (matched : Matches pattern text)
    (matched' : Matches pattern text') (same : text ++ rest = text' ++ rest') : text = text' := by
  rcases List.append_eq_append_iff.mp same with ⟨more, rfl, -⟩ | ⟨more, rfl, -⟩
  · rw [prefixFree text more matched matched', List.append_nil]
  · rw [prefixFree text' more matched' matched, List.append_nil]

theorem not_matches_nil {pattern : Pattern} (proper : pattern.nullable = false) :
    ¬ Matches pattern [] := by
  intro matched
  rw [← nullable_iff, proper] at matched
  cases matched

theorem StartApart.append_ne {left right : Pattern} (apart : StartApart left right)
    (leftProper : left.nullable = false) (rightProper : right.nullable = false)
    {text text' rest rest' : Bytes} (inLeft : Matches left text) (inRight : Matches right text') :
    text ++ rest ≠ text' ++ rest' := by
  intro same
  cases text with
  | nil => exact not_matches_nil leftProper inLeft
  | cons single head =>
    cases text' with
    | nil => exact not_matches_nil rightProper inRight
    | cons single' tail =>
      rw [List.cons_append, List.cons_append, List.cons.injEq] at same
      obtain ⟨rfl, -⟩ := same
      exact apart single head tail inLeft inRight

theorem prefixFree_byte (accepts : UInt8 → Bool) : PrefixFree (.byte accepts) := by
  intro text more matched matched'
  obtain ⟨single, -, rfl⟩ := (matches_byte_iff _ _).mp matched
  obtain ⟨single', -, same⟩ := (matches_byte_iff _ _).mp matched'
  rw [List.singleton_append, List.cons.injEq] at same
  exact same.2

theorem PrefixFree.seq {first second : Pattern} (inFirst : PrefixFree first)
    (inSecond : PrefixFree second) : PrefixFree (.seq first second) := by
  intro text more matched matched'
  obtain ⟨head, tail, headMatched, tailMatched, rfl⟩ := (matches_seq_iff _ _ _).mp matched
  obtain ⟨head', tail', headMatched', tailMatched', same⟩ := (matches_seq_iff _ _ _).mp matched'
  rw [List.append_assoc] at same
  have heads := inFirst.eq_of_append_eq headMatched headMatched' same
  subst heads
  rw [← List.append_cancel_left same] at tailMatched'
  exact inSecond tail more tailMatched tailMatched'

theorem PrefixFree.alt {left right : Pattern} (inLeft : PrefixFree left)
    (inRight : PrefixFree right) (leftProper : left.nullable = false)
    (rightProper : right.nullable = false) (apart : StartApart left right) :
    PrefixFree (.alt left right) := by
  intro text more matched matched'
  rcases (matches_alt_iff _ _ _).mp matched with inThis | inThis
  · rcases (matches_alt_iff _ _ _).mp matched' with inThat | inThat
    · exact inLeft text more inThis inThat
    · exact absurd (List.append_nil (text ++ more)).symm
        (apart.append_ne leftProper rightProper inThis inThat)
  · rcases (matches_alt_iff _ _ _).mp matched' with inThat | inThat
    · exact absurd (List.append_nil (text ++ more))
        (apart.append_ne leftProper rightProper inThat inThis)
    · exact inRight text more inThis inThat

section Repetition

variable {body ending : Pattern} (inBody : PrefixFree body) (inEnding : PrefixFree ending)
  (bodyProper : body.nullable = false) (endingProper : ending.nullable = false)
  (apart : StartApart body ending)

include inBody inEnding bodyProper endingProper apart

/-- Two readings of one text agree part by part, and so end together. -/
theorem PrefixFree.parts_aligned (parts : List Bytes) {parts' : List Bytes}
    {last last' more : Bytes}
    (inParts : ∀ part ∈ parts, Matches body part) (inParts' : ∀ part ∈ parts', Matches body part)
    (lastMatched : Matches ending last) (lastMatched' : Matches ending last')
    (same : parts.flatten ++ (last ++ more) = parts'.flatten ++ last') : more = [] := by
  induction parts generalizing parts' with
  | nil =>
    cases parts' with
    | nil =>
      rw [List.flatten_nil, List.nil_append, List.nil_append] at same
      rw [← same] at lastMatched'
      exact inEnding last more lastMatched lastMatched'
    | cons part' parts' =>
      rw [List.flatten_nil, List.nil_append, List.flatten_cons, List.append_assoc] at same
      have first := inParts' part' (by simp)
      exact absurd same.symm (apart.append_ne bodyProper endingProper first lastMatched)
  | cons part parts inductionHypothesis =>
    obtain ⟨first, others⟩ := List.forall_mem_cons.mp inParts
    rw [List.flatten_cons, List.append_assoc] at same
    cases parts' with
    | nil =>
      rw [List.flatten_nil, List.nil_append, ← List.append_nil last'] at same
      exact absurd same (apart.append_ne bodyProper endingProper first lastMatched')
    | cons part' parts' =>
      obtain ⟨first', others'⟩ := List.forall_mem_cons.mp inParts'
      rw [List.flatten_cons, List.append_assoc] at same
      have heads := inBody.eq_of_append_eq first first' same
      subst heads
      exact inductionHypothesis others others' (List.append_cancel_left same)

/-- A repetition with an end that no part can start with. -/
theorem PrefixFree.starThen : PrefixFree (.seq (.star body) ending) := by
  intro text more matched matched'
  obtain ⟨head, last, inStar, lastMatched, rfl⟩ := (matches_seq_iff _ _ _).mp matched
  obtain ⟨head', last', inStar', lastMatched', same⟩ := (matches_seq_iff _ _ _).mp matched'
  obtain ⟨parts, inParts, rfl⟩ := (matches_star_iff _ _).mp inStar
  obtain ⟨parts', inParts', rfl⟩ := (matches_star_iff _ _).mp inStar'
  rw [List.append_assoc] at same
  exact inBody.parts_aligned inEnding bodyProper endingProper apart parts inParts inParts'
    lastMatched lastMatched' same

end Repetition

end Unroll.Pattern
