import Mathlib.Data.List.Induction
import Unroll.Proofs.Scanning
import Unroll.Proofs.TreeAssembly

set_option autoImplicit false

/-!
# Which fault is answered

While tokens are read, faults may be reported, brackets may be closed that are not open, and at the
end brackets may be open still. A closing bracket that has no partner is answered at once, whatever
was reported before. Without one everything up to the end is read, and the first reported fault is
answered, or else the innermost bracket that is open.

Which brackets are open behind some tokens is said without reading them: they are the openers with
well-nested tokens in front of, between and behind them.
-/

namespace Unroll

/-- The openers that wait for their partners behind some tokens, the innermost one first. -/
inductive Pending : List Token → List Token → Prop
  | none {tokens : List Token} (nested : WellNested (delimiters tokens)) : Pending tokens []
  | opener {tokens inner pending : List Token} {opening : Token} {bracket : Bracket}
      (around : Pending tokens pending) (opens : opening.kind = .opening bracket)
      (nested : WellNested (delimiters inner)) :
      Pending (tokens ++ opening :: inner) (opening :: pending)

/-- A closing token that has no partner among the tokens in front of it, and what is wrong: nothing
is open, or the innermost opener is one of another bracket. -/
inductive Stray (before : List Token) (token : Token) : Problem → Prop
  | unopened {bracket : Bracket} (closes : token.kind = .closing bracket)
      (pending : Pending before []) : Stray before token (.unexpectedCloser token.lexeme)
  | mismatched {bracket waiting : Bracket} {opener : Token} {outer : List Token}
      (closes : token.kind = .closing bracket) (pending : Pending before (opener :: outer))
      (opens : opener.kind = .opening waiting) (differ : bracket ≠ waiting) :
      Stray before token (.mismatchedCloser waiting token.lexeme)

/-- Some closing token has no partner. It is the first one, since what is pending in front of it is
told. -/
def HasStray (tokens : List Token) : Prop :=
  ∃ before token behind problem, tokens = before ++ token :: behind ∧ Stray before token problem

theorem Stray.code_eq {before : List Token} {token : Token} {problem : Problem}
    (stray : Stray before token problem) : problem.code = .delimiter := by
  cases stray with
  | unopened => rfl
  | mismatched => rfl

namespace Pending

/-- Well-nested tokens close what they open. -/
theorem append {tokens pending more : List Token} (isPending : Pending tokens pending)
    (nested : WellNested (delimiters more)) : Pending (tokens ++ more) pending := by
  cases isPending with
  | none inFront =>
    apply Pending.none
    rw [delimiters_append]
    exact inFront.append nested
  | opener around opens inside =>
    rw [List.append_assoc, List.cons_append]
    apply Pending.opener around opens
    rw [delimiters_append]
    exact inside.append nested

theorem leaf {tokens pending : List Token} {token : Token} (isPending : Pending tokens pending)
    (isLeaf : token.kind.isDelimiter = false) : Pending (tokens ++ [token]) pending := by
  apply isPending.append
  rw [delimiters_cons_of_not_isDelimiter isLeaf]
  exact .nil

theorem openGroup {tokens pending : List Token} {token : Token} {bracket : Bracket}
    (isPending : Pending tokens pending) (opens : token.kind = .opening bracket) :
    Pending (tokens ++ [token]) (token :: pending) :=
  .opener isPending opens .nil

theorem closeGroup {tokens pending : List Token} {opener token : Token} {bracket : Bracket}
    (isPending : Pending tokens (opener :: pending)) (opens : opener.kind = .opening bracket)
    (closes : token.kind = .closing bracket) : Pending (tokens ++ [token]) pending := by
  cases isPending with
  | @opener front inner _ _ _ around _ nested =>
    rw [List.append_assoc]
    apply around.append
    rw [List.cons_append, delimiters_cons_of_isDelimiter (by rw [opens]; rfl), delimiters_append,
      delimiters_cons_of_isDelimiter (by rw [closes]; rfl), opens, closes]
    exact .wrap nested .nil

theorem exists_opens {tokens outer : List Token} {opener : Token}
    (isPending : Pending tokens (opener :: outer)) : ∃ bracket, opener.kind = .opening bracket := by
  cases isPending with
  | opener _ opens _ => exact ⟨_, opens⟩

end Pending

theorem HasStray.append {tokens : List Token} (hasStray : HasStray tokens) (more : List Token) :
    HasStray (tokens ++ more) := by
  obtain ⟨before, token, behind, problem, rfl, stray⟩ := hasStray
  exact ⟨before, token, behind ++ more, problem, by simp, stray⟩

/-- Token by token, something is pending as long as no closing token is stray. -/
theorem hasStray_or_exists_pending (tokens : List Token) :
    HasStray tokens ∨ ∃ pending, Pending tokens pending := by
  induction tokens using List.reverseRecOn with
  | nil => exact .inr ⟨[], .none .nil⟩
  | append_singleton tokens token inductionHypothesis =>
    rcases inductionHypothesis with hasStray | ⟨pending, isPending⟩
    · exact .inl (hasStray.append [token])
    · cases kind : token.kind with
      | opening bracket => exact .inr ⟨_, isPending.openGroup kind⟩
      | closing bracket =>
        cases isPending with
        | none nested => exact .inl ⟨tokens, token, [], _, rfl, .unopened kind (.none nested)⟩
        | @opener front inner outer opening waiting around opens nested =>
          have isPending := Pending.opener around opens nested
          by_cases same : bracket = waiting
          · rw [same] at kind
            exact .inr ⟨outer, isPending.closeGroup opens kind⟩
          · exact .inl ⟨_, token, [], _, rfl, .mismatched kind isPending opens same⟩
      | eof | ident | int | float | string | char | mark =>
        exact .inr ⟨pending, isPending.leaf (by rw [kind]; rfl)⟩

namespace Event

theorem mem_faults_iff {events : List Event} {fault : Fault} :
    fault ∈ faults events ↔ .report fault ∈ events := by
  rw [faults, List.mem_filterMap]
  constructor
  · rintro ⟨event, membership, isFault⟩
    cases event with
    | token => cases isFault
    | report own =>
      cases isFault
      exact membership
  · intro reported
    exact ⟨_, reported, rfl⟩

theorem exists_of_tokens_append {events : List Event} {first second : List Token} {token : Token}
    (split : tokens events = first ++ token :: second) :
    ∃ before behind, events = before ++ .token token :: behind ∧ tokens before = first ∧
      tokens behind = second := by
  obtain ⟨front, rest, isAll, inFront, inRest⟩ := List.filterMap_eq_append_iff.mp split
  obtain ⟨reports, own, behind, isRest, noTokens, isToken, inBehind⟩ :=
    List.filterMap_eq_cons_iff.mp inRest
  cases own with
  | report => cases isToken
  | token own =>
    cases isToken
    refine ⟨front ++ reports, behind, ?_, ?_, inBehind⟩
    · rw [isAll, isRest, List.append_assoc]
    · have inReports : tokens reports = [] := List.filterMap_eq_nil_iff.mpr noTokens
      rw [tokens_append, inReports, List.append_nil]
      exact inFront

end Event

namespace Assembly

/-- An open group waits for the partner of this opener. -/
def OpenedBy (group : OpenGroup) (opener : Token) : Prop :=
  opener.kind = .opening group.bracket ∧ opener.span = group.opener

/-- Events whose tokens leave openers pending are read, and the open groups behind them are those of
the openers. -/
theorem run_of_pending {tokens pending : List Token} (isPending : Pending tokens pending)
    {events : List Event} (isTokens : Event.tokens events = tokens)
    (running : ∀ event ∈ events, event.isEnd = false) :
    ∃ stack nodes, List.Forall₂ OpenedBy stack pending ∧
      ∀ rest, run 0 none [] [] (events ++ rest) =
        run events.length (Event.faults events).head? stack nodes rest := by
  induction isPending generalizing events with
  | none nested =>
    rw [← isTokens] at nested
    obtain ⟨nodes, read⟩ := run_of_wellNested events running nested 0 none [] []
    refine ⟨[], nodes, .nil, fun rest => ?_⟩
    rw [read, Nat.zero_add, Option.none_or]
  | @opener front inner outer opening bracket around opens nested inductionHypothesis =>
    obtain ⟨before, behind, rfl, inBefore, inBehind⟩ := Event.exists_of_tokens_append isTokens
    obtain ⟨runningBefore, -, runningBehind⟩ := by
      simpa only [List.forall_mem_append, List.forall_mem_cons] using running
    obtain ⟨stack, nodes, isStack, read⟩ := inductionHypothesis inBefore runningBefore
    rw [← inBehind] at nested
    obtain ⟨nodes', readBehind⟩ := run_of_wellNested behind runningBehind nested
      (before.length + 1) (Event.faults before).head? (⟨bracket, opening.span, nodes⟩ :: stack) []
    refine ⟨⟨bracket, opening.span, nodes⟩ :: stack, nodes', .cons ⟨opens, rfl⟩ isStack, ?_⟩
    intro rest
    rw [List.append_assoc, read, List.cons_append]
    simp only [run, opens]
    rw [readBehind, Event.faults_append, Event.faults_token, List.head?_append,
      List.length_append, List.length_cons]
    congr 1
    omega

/-- A stray closing token is answered when it is read. -/
theorem run_of_stray {before : List Event} {token : Token} {problem : Problem}
    (stray : Stray (Event.tokens before) token problem)
    (running : ∀ event ∈ before, event.isEnd = false) (rest : List Event) :
    run 0 none [] [] (before ++ .token token :: rest) =
      ⟨before.length + 1, .error (.diagnosed token.span problem)⟩ := by
  cases stray with
  | unopened closes pending =>
    obtain ⟨stack, nodes, isStack, read⟩ := run_of_pending pending rfl running
    cases isStack
    rw [read]
    simp only [run, closes]
  | @mismatched bracket waiting opener outer closes pending opens differ =>
    obtain ⟨stack, nodes, isStack, read⟩ := run_of_pending pending rfl running
    cases isStack with
    | @cons group _ _ _ openedBy _ =>
      have isWaiting : group.bracket = waiting := by
        have sameKind := openedBy.1.symm.trans opens
        exact Kind.opening.inj sameKind
      rw [read]
      simp only [run, closes, isWaiting, if_neg differ]

theorem ofEvents_of_stray {events before behind : List Event} {token : Token} {problem : Problem}
    (split : Event.untilEnd events = before ++ .token token :: behind)
    (stray : Stray (Event.tokens before) token problem) :
    ofEvents events = ⟨before.length + 1, .error (.diagnosed token.span problem)⟩ := by
  have running : ∀ event ∈ before, event.isEnd = false := by
    intro event membership
    apply Event.not_isEnd_of_mem_untilEnd
    rw [split]
    exact List.mem_append_left _ membership
  have inFront : before ++ [.token token] <+: Event.untilEnd events := by
    rw [split]
    exact ⟨behind, List.append_assoc _ _ _⟩
  obtain ⟨later, isAll⟩ := inFront.trans (List.takeWhile_prefix _)
  rw [← isAll, List.append_assoc, List.singleton_append]
  exact run_of_stray stray running later

/-- Without a stray closing token all events up to the end are read. -/
theorem ofEvents_of_pending {events : List Event} {pending : List Token}
    (isPending : Pending (Event.tokens (Event.untilEnd events)) pending) :
    ∃ stack nodes, List.Forall₂ OpenedBy stack pending ∧
      ofEvents events = ⟨min ((Event.untilEnd events).length + 1) events.length,
        finish (Event.faults (Event.untilEnd events)).head? stack nodes⟩ := by
  obtain ⟨stack, nodes, isStack, read⟩ :=
    run_of_pending isPending rfl Event.not_isEnd_of_mem_untilEnd
  have shorter : (Event.untilEnd events).length ≤ events.length :=
    (List.takeWhile_prefix _).length_le
  refine ⟨stack, nodes, isStack, ?_⟩
  rw [ofEvents, run_of_untilEnd read]
  congr 1
  omega

/-- The answer to events whose closing tokens all have their partners: the first reported fault,
else the innermost opener that waits for its partner, else a stream. -/
structure Answers (events : List Event) (assembly : Assembly) : Prop where
  pulled : assembly.pulled = min ((Event.untilEnd events).length + 1) events.length
  reported : ∀ fault ∈ (Event.faults (Event.untilEnd events)).head?,
    assembly.result = .error fault
  unclosed : Event.faults (Event.untilEnd events) = [] → ∀ opener outer bracket,
    Pending (Event.tokens (Event.untilEnd events)) (opener :: outer) →
    opener.kind = .opening bracket →
    assembly.result = .error (.diagnosed opener.span (.unclosed bracket))
  complete : Event.faults (Event.untilEnd events) = [] →
    Pending (Event.tokens (Event.untilEnd events)) [] → ∃ stream, assembly.result = .ok stream

theorem answers_of_not_hasStray {events : List Event}
    (noStray : ¬ HasStray (Event.tokens (Event.untilEnd events))) :
    Answers events (ofEvents events) := by
  obtain ⟨pending, isPending⟩ := (hasStray_or_exists_pending _).resolve_left noStray
  obtain ⟨stack, nodes, -, read⟩ := ofEvents_of_pending isPending
  constructor
  · rw [read]
  · intro fault isFirst
    rw [read, Option.mem_def.mp isFirst]
    rfl
  · intro noFaults opener outer bracket isPending opens
    obtain ⟨stack, nodes, isStack, read⟩ := ofEvents_of_pending isPending
    cases isStack with
    | @cons group _ _ _ openedBy _ =>
      have sameKind := openedBy.1.symm.trans opens
      rw [read, noFaults, openedBy.2, ← Kind.opening.inj sameKind]
      rfl
  · intro noFaults isPending
    obtain ⟨stack, nodes, isStack, read⟩ := ofEvents_of_pending isPending
    cases isStack
    rw [read, noFaults]
    exact ⟨nodes.reverse, rfl⟩

theorem exists_ofEvents_of_hasStray {events : List Event}
    (hasStray : HasStray (Event.tokens (Event.untilEnd events))) :
    ∃ fault, (ofEvents events).result = .error fault ∧ fault.code = .delimiter := by
  obtain ⟨before, token, behind, problem, split, stray⟩ := hasStray
  obtain ⟨front, later, isAll, isBefore, -⟩ := Event.exists_of_tokens_append split
  rw [← isBefore] at stray
  rw [ofEvents_of_stray isAll stray]
  exact ⟨_, rfl, stray.code_eq⟩

/-- What is read of tokens alone tells pending openers from a stray closing token. -/
theorem not_hasStray_of_pending {tokens pending : List Token}
    (running : ∀ token ∈ tokens, token.kind ≠ .eof) (isPending : Pending tokens pending) :
    ¬ HasStray tokens := by
  rintro ⟨before, token, behind, problem, rfl, stray⟩
  have notEnd : ∀ event ∈ (before ++ token :: behind).map Event.token, event.isEnd = false := by
    intro event membership
    obtain ⟨own, inTokens, rfl⟩ := List.mem_map.mp membership
    exact beq_eq_false_iff_ne.mpr (running own inTokens)
  obtain ⟨stack, nodes, -, read⟩ :=
    run_of_pending isPending (Event.tokens_map_token _) notEnd
  have answered := congrArg Assembly.result (read [])
  rw [List.append_nil, Event.faults_map_token, List.map_append, List.map_cons] at answered
  rw [← Event.tokens_map_token before] at stray
  rw [run_of_stray stray] at answered
  · cases stack with
    | nil => cases answered
    | cons =>
      have isUnclosed := (Fault.diagnosed.inj (Except.error.inj answered)).2
      rw [isUnclosed] at stray
      cases stray
  · intro event membership
    apply notEnd
    rw [List.map_append]
    exact List.mem_append_left _ membership

/-- Openers are pending behind events exactly if no closing token is stray. -/
theorem not_hasStray_iff (events : List Event) :
    ¬ HasStray (Event.tokens (Event.untilEnd events)) ↔
      ∃ pending, Pending (Event.tokens (Event.untilEnd events)) pending := by
  constructor
  · exact (hasStray_or_exists_pending _).resolve_left
  · rintro ⟨pending, isPending⟩
    refine not_hasStray_of_pending (fun token membership => ?_) isPending
    obtain ⟨event, inFront, isToken⟩ := List.mem_filterMap.mp membership
    have running := Event.not_isEnd_of_mem_untilEnd event inFront
    cases event with
    | report => cases isToken
    | token own =>
      cases isToken
      exact beq_eq_false_iff_ne.mp running

end Assembly

/-- What a scanner reports stands in front of its end, and is that it cannot read on. -/
theorem Scanner.report_mem_untilEnd {source : Bytes} {fault : Fault}
    (reported : .report fault ∈ (ofSource source).events) :
    .report fault ∈ Event.untilEnd (ofSource source).events ∧ fault.code = .lexical := by
  obtain ⟨tokens, stop, rest, scanned, -, isEvents⟩ := (ofSource source).events_eq rfl
  have running : ∀ event ∈ tokens.map Event.token, (! event.isEnd) = true := by
    intro event membership
    obtain ⟨token, inTokens, rfl⟩ := List.mem_map.mp membership
    simpa [Event.isEnd] using scanned.kind_ne_eof token inTokens
  have noReport : .report fault ∉ tokens.map Event.token := by simp
  rw [isEvents] at reported ⊢
  have inLast := (List.mem_append.mp reported).resolve_left noReport
  rcases event_of_lastAnswer inLast with ⟨_, isToken, -⟩ | ⟨nonempty, isReport⟩
  · cases isToken
  · cases isReport
    refine ⟨?_, rfl⟩
    rw [Event.untilEnd, List.takeWhile_append_of_pos running, lastAnswer_of_ne_nil _ _ nonempty]
    exact List.mem_append_right _ List.mem_cons_self

/-- A source is refused as unreadable exactly if its scanner reports a fault and no closing token in
front of that place is stray. -/
theorem Stream.parse_lexical_iff (source : Bytes) :
    (∃ fault, Stream.parse source = .error fault ∧ fault.code = .lexical) ↔
      (∃ fault, .report fault ∈ (Scanner.ofSource source).events) ∧
        ¬ HasStray (Event.tokens (Event.untilEnd (Scanner.ofSource source).events)) := by
  generalize yielded : (Scanner.ofSource source).events = events
  have areUnreadable : ∀ fault, .report fault ∈ events →
      fault ∈ Event.faults (Event.untilEnd events) ∧ fault.code = .lexical := by
    intro fault reported
    rw [← yielded] at reported ⊢
    obtain ⟨inFront, isLexical⟩ := Scanner.report_mem_untilEnd reported
    exact ⟨Event.mem_faults_iff.mpr inFront, isLexical⟩
  have isParse : Stream.parse source = (Assembly.ofEvents events).result := by
    rw [Stream.parse, yielded]
  rw [isParse]
  constructor
  · rintro ⟨fault, refused, isLexical⟩
    have noStray : ¬ HasStray (Event.tokens (Event.untilEnd events)) := by
      intro hasStray
      obtain ⟨own, isOwn, isDelimiter⟩ := Assembly.exists_ofEvents_of_hasStray hasStray
      cases refused.symm.trans isOwn
      cases isLexical.symm.trans isDelimiter
    have answers := Assembly.answers_of_not_hasStray noStray
    refine ⟨?_, noStray⟩
    cases reports : Event.faults (Event.untilEnd events) with
    | cons first others =>
      have inFront : first ∈ Event.faults (Event.untilEnd events) := by
        rw [reports]
        exact List.mem_cons_self
      exact ⟨first, (List.takeWhile_prefix _).subset (Event.mem_faults_iff.mp inFront)⟩
    | nil =>
      obtain ⟨pending, isPending⟩ := (hasStray_or_exists_pending _).resolve_left noStray
      cases pending with
      | nil =>
        obtain ⟨stream, success⟩ := answers.complete reports isPending
        cases refused.symm.trans success
      | cons opener outer =>
        obtain ⟨bracket, opens⟩ := isPending.exists_opens
        cases refused.symm.trans (answers.unclosed reports opener outer bracket isPending opens)
        cases isLexical
  · rintro ⟨⟨fault, reported⟩, noStray⟩
    have answers := Assembly.answers_of_not_hasStray noStray
    cases reports : Event.faults (Event.untilEnd events) with
    | nil =>
      have inFront := (areUnreadable fault reported).1
      rw [reports] at inFront
      cases inFront
    | cons first others =>
      have isFirst : first ∈ (Event.faults (Event.untilEnd events)).head? := by
        rw [reports]
        rfl
      have inFront := Event.mem_faults_iff.mp (List.mem_of_mem_head? isFirst)
      refine ⟨first, answers.reported first isFirst, ?_⟩
      exact (areUnreadable first ((List.takeWhile_prefix _).subset inFront)).2

/-- The first closing token without a partner is answered at its span, and nothing behind it is
read. If there is none, openers are pending, and everything up to the end is read: the answer is the
first reported fault, else the innermost pending opener, else a stream. So a source is refused as
unreadable exactly if its scanner reports a fault behind tokens none of which is stray. -/
theorem assembly_fault_decided :
    (∀ events : List Event,
      (∀ before token behind problem,
        Event.untilEnd events = before ++ .token token :: behind →
        Stray (Event.tokens before) token problem →
        problem.code = .delimiter ∧ Assembly.ofEvents events =
          ⟨before.length + 1, .error (.diagnosed token.span problem)⟩) ∧
      (¬ HasStray (Event.tokens (Event.untilEnd events)) ↔
        ∃ pending, Pending (Event.tokens (Event.untilEnd events)) pending) ∧
      (¬ HasStray (Event.tokens (Event.untilEnd events)) →
        Assembly.Answers events (Assembly.ofEvents events))) ∧
    ∀ source : Bytes,
      (∃ fault, Stream.parse source = .error fault ∧ fault.code = .lexical) ↔
        (∃ fault, .report fault ∈ (Scanner.ofSource source).events) ∧
          ¬ HasStray (Event.tokens (Event.untilEnd (Scanner.ofSource source).events)) := by
  refine ⟨fun events => ⟨?_, Assembly.not_hasStray_iff events,
    Assembly.answers_of_not_hasStray⟩, Stream.parse_lexical_iff⟩
  intro before token behind problem split stray
  exact ⟨stray.code_eq, Assembly.ofEvents_of_stray split stray⟩

def roundOpener : Token := ⟨.opening .round, word ['('], ⟨0, 1⟩⟩

def squareCloser : Token := ⟨.closing .square, word [']'], ⟨1, 2⟩⟩

/-- Brackets that cross each other, with a report between them. -/
def crossedBrackets : List Event :=
  [.token roundOpener, .report (.plain (word ['?'])), .token squareCloser,
    .token ⟨.closing .round, word [')'], ⟨2, 3⟩⟩]

/-- A bracket that is open at the end, and one behind the end. -/
def endedEarly : List Event :=
  [.token roundOpener, .token Token.ending, .token squareCloser]

theorem crossedBrackets_fault_decided :
    Stray [roundOpener] squareCloser (.mismatchedCloser .round (word [']'])) ∧
    Assembly.ofEvents crossedBrackets =
      ⟨3, .error (.diagnosed ⟨1, 2⟩ (.mismatchedCloser .round (word [']'])))⟩ ∧
    ¬ HasStray (Event.tokens (Event.untilEnd endedEarly)) ∧
    (Assembly.ofEvents endedEarly).pulled = 2 ∧
    (Assembly.ofEvents endedEarly).result = .error (.diagnosed ⟨0, 1⟩ (.unclosed .round)) := by
  have nothing : Pending [] [] := .none .nil
  have pending : Pending [roundOpener] [roundOpener] := nothing.openGroup rfl
  have stray : Stray [roundOpener] squareCloser (.mismatchedCloser .round (word [']'])) :=
    .mismatched rfl pending rfl (by decide)
  obtain ⟨decided, -, -⟩ := assembly_fault_decided.1 crossedBrackets
  obtain ⟨-, noStray, answers⟩ := assembly_fault_decided.1 endedEarly
  have crossed := decided [.token roundOpener, .report (.plain (word ['?']))] squareCloser
    [.token ⟨.closing .round, word [')'], ⟨2, 3⟩⟩] _ rfl stray
  have ended := answers (noStray.mpr ⟨_, pending⟩)
  exact ⟨stray, crossed.2, noStray.mpr ⟨_, pending⟩, ended.pulled,
    ended.unclosed rfl roundOpener [] .round pending rfl⟩

end Unroll
