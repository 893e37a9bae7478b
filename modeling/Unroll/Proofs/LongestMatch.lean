import Unroll.Proofs.PatternLanguage
import Unroll.Token.Rules

set_option autoImplicit false

/-!
# The longest match

What the search for a match finds, in terms of the languages of the rules alone: the longest start
of the text that some rule matches, with the action of the first rule that matches it.
-/

namespace Unroll

open Pattern

namespace Rule

/-- The first rule that matches a whole text has this action. -/
inductive Takes : List Rule → Bytes → Action → Prop where
  | here {rule rules text} : Matches rule.pattern text → Takes (rule :: rules) text rule.action
  | later {rule rules text action} : ¬ Matches rule.pattern text → Takes rules text action →
      Takes (rule :: rules) text action

theorem Takes.exists_mem {rules : List Rule} {text : Bytes} {action : Action}
    (taken : Takes rules text action) :
    ∃ rule ∈ rules, rule.action = action ∧ Matches rule.pattern text := by
  induction taken with
  | here matched => exact ⟨_, by simp, rfl, matched⟩
  | later _ _ inductionHypothesis =>
    obtain ⟨rule, membership, action, matched⟩ := inductionHypothesis
    exact ⟨rule, by simp [membership], action, matched⟩

theorem Takes.unique {rules : List Rule} {text : Bytes} {action action' : Action}
    (taken : Takes rules text action) (taken' : Takes rules text action') : action = action' := by
  induction taken with
  | here matched =>
    cases taken' with
    | here _ => rfl
    | later refused _ => exact absurd matched refused
  | later refused _ inductionHypothesis =>
    cases taken' with
    | here matched => exact absurd matched refused
    | later _ rest => exact inductionHypothesis rest

/-- If some rule matches, then all that counts is that every matching rule has this action. -/
theorem takes_of_forall {rules : List Rule} {text : Bytes} {action : Action} {rule : Rule}
    (membership : rule ∈ rules) (matched : Matches rule.pattern text)
    (agree : ∀ other ∈ rules, Matches other.pattern text → other.action = action) :
    Takes rules text action := by
  induction rules with
  | nil => cases membership
  | cons first rest inductionHypothesis =>
    by_cases inFirst : Matches first.pattern text
    · rw [← agree first (by simp) inFirst]
      exact .here inFirst
    · refine .later inFirst (inductionHypothesis ?_ ?_)
      · rcases List.mem_cons.mp membership with rfl | inRest
        · exact absurd matched inFirst
        · exact inRest
      · intro other inRest
        exact agree other (by simp [inRest])

/-- The rules that are left after a byte match what the rules match behind it. -/
theorem exists_afterByte_iff (b : UInt8) (rules : List Rule) (text : Bytes) :
    (∃ rule ∈ afterByte b rules, Matches rule.pattern text) ↔
      ∃ rule ∈ rules, Matches rule.pattern (b :: text) := by
  constructor
  · rintro ⟨rule, membership, matched⟩
    obtain ⟨own, ownMembership, derived⟩ := List.mem_filterMap.mp membership
    dsimp only at derived
    split at derived
    · cases derived
    · cases derived
      exact ⟨own, ownMembership, (matches_derive_iff _ _ _).mp matched⟩
  · rintro ⟨rule, membership, matched⟩
    have derived := (matches_derive_iff b rule.pattern text).mpr matched
    have alive : ¬ (rule.pattern.derive b).isVoid = true := by
      intro isVoid
      rw [eq_void_of_isVoid isVoid] at derived
      exact not_matches_void _ derived
    refine ⟨⟨rule.pattern.derive b, rule.action⟩, ?_, derived⟩
    exact List.mem_filterMap.mpr ⟨rule, membership, by simp [alive]⟩

theorem takes_afterByte_iff (b : UInt8) (rules : List Rule) (text : Bytes) (action : Action) :
    Takes (afterByte b rules) text action ↔ Takes rules (b :: text) action := by
  induction rules with
  | nil =>
    constructor
    · intro taken
      cases taken
    · intro taken
      cases taken
  | cons rule rules inductionHypothesis =>
    have derived := matches_derive_iff b rule.pattern text
    by_cases isVoid : (rule.pattern.derive b).isVoid = true
    · -- a void derivative matches nothing, so the rule is passed over on both sides
      have refused : ¬ Matches rule.pattern (b :: text) := by
        rw [← derived, eq_void_of_isVoid isVoid]
        exact not_matches_void _
      have dropped : afterByte b (rule :: rules) = afterByte b rules := by
        simp [afterByte, isVoid]
      rw [dropped, inductionHypothesis]
      constructor
      · exact .later refused
      · intro taken
        cases taken with
        | here matched => exact absurd matched refused
        | later _ rest => exact rest
    · have kept : afterByte b (rule :: rules) =
          ⟨rule.pattern.derive b, rule.action⟩ :: afterByte b rules := by
        simp [afterByte, isVoid]
      rw [kept]
      constructor
      · intro taken
        cases taken with
        | here matched => exact .here (derived.mp matched)
        | later refused rest =>
          exact .later (fun matched => refused (derived.mpr matched)) (inductionHypothesis.mp rest)
      · intro taken
        cases taken with
        | here matched => exact @Takes.here ⟨_, _⟩ _ _ (derived.mpr matched)
        | later refused rest =>
          exact .later (fun matched => refused (derived.mp matched)) (inductionHypothesis.mpr rest)

theorem find?_nullable_eq_some {rules : List Rule} {rule : Rule}
    (found : rules.find? (·.pattern.nullable) = some rule) : Takes rules [] rule.action := by
  induction rules with
  | nil => cases found
  | cons first rest inductionHypothesis =>
    by_cases nullable : first.pattern.nullable = true
    · simp only [List.find?_cons, nullable, Option.some.injEq] at found
      subst found
      exact .here ((nullable_iff _).mp nullable)
    · simp only [List.find?_cons, nullable] at found
      exact .later (fun matched => nullable ((nullable_iff _).mpr matched))
        (inductionHypothesis found)

end Rule

/-- The declarative reading of a match at the start of a text. -/
structure IsLongestMatch (rules : List Rule) (text : Bytes) (found : Match) : Prop where
  positive : 0 < found.size
  within : found.size ≤ text.length
  takes : Rule.Takes rules (text.take found.size) found.action
  longest : ∀ rule ∈ rules, ∀ lexeme, lexeme <+: text → found.size < lexeme.length →
    ¬ Matches rule.pattern lexeme

/-- No rule matches a start of the text, the empty one apart. -/
def Unmatched (rules : List Rule) (text : Bytes) : Prop :=
  ∀ rule ∈ rules, ∀ lexeme, lexeme <+: text → lexeme ≠ [] → ¬ Matches rule.pattern lexeme

theorem IsLongestMatch.not_unmatched {rules : List Rule} {text : Bytes} {found : Match}
    (longest : IsLongestMatch rules text found) : ¬ Unmatched rules text := by
  intro unmatched
  obtain ⟨rule, membership, -, matched⟩ := longest.takes.exists_mem
  refine unmatched rule membership _ (List.take_prefix _ _) ?_ matched
  intro empty
  have lengths := congrArg List.length empty
  rw [List.length_take, List.length_nil] at lengths
  have positive := longest.positive
  have within := longest.within
  omega

theorem IsLongestMatch.unique {rules : List Rule} {text : Bytes} {found found' : Match}
    (longest : IsLongestMatch rules text found) (longest' : IsLongestMatch rules text found') :
    found = found' := by
  have notLonger : ∀ {one two : Match}, IsLongestMatch rules text one →
      IsLongestMatch rules text two → ¬ one.size < two.size := by
    intro one two first second shorter
    obtain ⟨rule, membership, -, matched⟩ := second.takes.exists_mem
    refine first.longest rule membership _ (List.take_prefix _ _) ?_ matched
    rw [List.length_take]
    have within := second.within
    omega
  have sizes : found.size = found'.size := by
    have below := notLonger longest longest'
    have above := notLonger longest' longest
    omega
  have taken := longest.takes
  rw [sizes] at taken
  have actions := taken.unique longest'.takes
  cases found
  cases found'
  cases sizes
  cases actions
  rfl

/-- What holds of the text behind a byte and the rules left after it carries over to the text with
the byte. -/
theorem IsLongestMatch.cons {rules : List Rule} {b : UInt8} {rest : Bytes} {found : Match}
    (longest : IsLongestMatch (Rule.afterByte b rules) rest found) :
    IsLongestMatch rules (b :: rest) { found with size := found.size + 1 } where
  positive := Nat.succ_pos _
  within := Nat.succ_le_succ longest.within
  takes := (Rule.takes_afterByte_iff _ _ _ _).mp longest.takes
  longest := by
    intro rule membership lexeme isStart longer matched
    cases lexeme with
    | nil => exact absurd longer (Nat.not_lt_zero _)
    | cons own lexeme =>
      obtain ⟨rfl, tailStart⟩ := List.cons_prefix_cons.mp isStart
      obtain ⟨other, otherMembership, otherMatched⟩ :=
        (Rule.exists_afterByte_iff own rules lexeme).mpr ⟨rule, membership, matched⟩
      exact longest.longest other otherMembership lexeme tailStart (Nat.lt_of_succ_lt_succ longer)
        otherMatched

/-- If no rule left after a byte goes on, a rule matches the byte alone or nothing. -/
theorem Unmatched.eq_singleton {rules : List Rule} {b : UInt8} {rest lexeme : Bytes} {rule : Rule}
    (unmatched : Unmatched (Rule.afterByte b rules) rest) (membership : rule ∈ rules)
    (isStart : lexeme <+: b :: rest) (nonempty : lexeme ≠ [])
    (matched : Matches rule.pattern lexeme) : lexeme = [b] := by
  cases lexeme with
  | nil => exact absurd rfl nonempty
  | cons own lexeme =>
    obtain ⟨rfl, tailStart⟩ := List.cons_prefix_cons.mp isStart
    obtain ⟨other, otherMembership, otherMatched⟩ :=
      (Rule.exists_afterByte_iff own rules lexeme).mpr ⟨rule, membership, matched⟩
    by_cases empty : lexeme = []
    · rw [empty]
    · exact absurd otherMatched (unmatched other otherMembership lexeme tailStart empty)

/-- The outcome of the search, whichever it is. -/
def MatchOutcome (rules : List Rule) (text : Bytes) : Option Match → Prop
  | some found => IsLongestMatch rules text found
  | none => Unmatched rules text

theorem longestMatch?_outcome (rules : List Rule) (text : Bytes) :
    MatchOutcome rules text (longestMatch? rules text) := by
  induction text generalizing rules with
  | nil =>
    intro rule _ lexeme isStart nonempty
    exact absurd (List.prefix_nil.mp isStart) nonempty
  | cons b rest inductionHypothesis =>
    have behind := inductionHypothesis (Rule.afterByte b rules)
    simp only [longestMatch?]
    split
    · -- every rule has died with this byte
      rename_i isEmpty
      intro rule membership lexeme isStart nonempty matched
      cases lexeme with
      | nil => exact nonempty rfl
      | cons own lexeme =>
        obtain ⟨rfl, tailStart⟩ := List.cons_prefix_cons.mp isStart
        obtain ⟨other, otherMembership, -⟩ :=
          (Rule.exists_afterByte_iff own rules lexeme).mpr ⟨rule, membership, matched⟩
        rw [List.isEmpty_iff.mp isEmpty] at otherMembership
        cases otherMembership
    · split
      · rename_i found matched
        rw [matched] at behind
        exact IsLongestMatch.cons behind
      · rename_i failed
        rw [failed] at behind
        cases nullable : (Rule.afterByte b rules).find? (·.pattern.nullable) with
        | none =>
          intro rule membership lexeme isStart nonempty matched
          have single := Unmatched.eq_singleton behind membership isStart nonempty matched
          subst single
          obtain ⟨other, otherMembership, otherMatched⟩ :=
            (Rule.exists_afterByte_iff b rules []).mpr ⟨rule, membership, matched⟩
          exact List.find?_eq_none.mp nullable other otherMembership
            ((nullable_iff _).mpr otherMatched)
        | some rule =>
          refine ⟨Nat.one_pos, by simp, ?_, ?_⟩
          · exact (Rule.takes_afterByte_iff _ _ _ _).mp (Rule.find?_nullable_eq_some nullable)
          · intro other membership lexeme isStart longer matched
            have nonempty : lexeme ≠ [] := by
              rintro rfl
              exact absurd longer (Nat.not_lt_zero _)
            have single := Unmatched.eq_singleton behind membership isStart nonempty matched
            subst single
            exact absurd longer (Nat.lt_irrefl _)

theorem longestMatch?_eq_some_iff {rules : List Rule} {text : Bytes} {found : Match} :
    longestMatch? rules text = some found ↔ IsLongestMatch rules text found := by
  have outcome := longestMatch?_outcome rules text
  cases result : longestMatch? rules text with
  | none =>
    rw [result] at outcome
    constructor
    · intro impossible
      cases impossible
    · intro longest
      exact absurd outcome longest.not_unmatched
  | some other =>
    rw [result] at outcome
    rw [Option.some.injEq]
    constructor
    · rintro rfl
      exact outcome
    · exact fun longest => outcome.unique longest

theorem longestMatch?_eq_none_iff {rules : List Rule} {text : Bytes} :
    longestMatch? rules text = none ↔ Unmatched rules text := by
  have outcome := longestMatch?_outcome rules text
  cases result : longestMatch? rules text with
  | none =>
    rw [result] at outcome
    exact ⟨fun _ => outcome, fun _ => rfl⟩
  | some other =>
    rw [result] at outcome
    constructor
    · intro impossible
      cases impossible
    · intro unmatched
      exact absurd unmatched outcome.not_unmatched

end Unroll
