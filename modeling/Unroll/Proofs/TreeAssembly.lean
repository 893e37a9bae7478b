import Unroll.Proofs.Flattening
import Unroll.Token.Assembly

set_option autoImplicit false

/-!
# Tokens fold into trees without loss

`Folds` relates tokens to the stream they make: every leaf stands for one token, every group for the
tokens between two brackets of the same kind. The stack of open groups is related to the tokens read
so far, and each token keeps that relation. Reading succeeds for exactly the well-nested sequences.
-/

namespace Unroll

/-- A leaf with the content and the span of a token. A number that names no kind becomes a
punctuation character of 32 bits. -/
inductive LeafOf : Token → Node → Prop where
  | ident {lexeme span} : LeafOf ⟨.ident, lexeme, span⟩ (.ident lexeme span)
  | int {lexeme span} : LeafOf ⟨.int, lexeme, span⟩ (.literal .int lexeme span)
  | float {lexeme span} : LeafOf ⟨.float, lexeme, span⟩ (.literal .float lexeme span)
  | string {lexeme span} : LeafOf ⟨.string, lexeme, span⟩ (.literal .string lexeme span)
  | char {lexeme span} : LeafOf ⟨.char, lexeme, span⟩ (.literal .char lexeme span)
  | mark {code lexeme span spacing} :
      LeafOf ⟨.mark code, lexeme, span⟩ (.punct code.toInt32 spacing span)

inductive Folds : List Token → List Node → Prop where
  | nil : Folds [] []
  | leaf {token node tokens nodes} : LeafOf token node → Folds tokens nodes →
      Folds (token :: tokens) (node :: nodes)
  | group {opening closing bracket inner children tokens nodes} :
      opening.kind = .opening bracket → closing.kind = .closing bracket →
      Folds inner children → Folds tokens nodes →
      Folds (opening :: inner ++ closing :: tokens)
        (.group (.bracket bracket) children (opening.span.extend closing.span) :: nodes)

namespace Kind

def isDelimiter : Kind → Bool
  | .opening _ | .closing _ => true
  | _ => false

end Kind

/-- The brackets of a sequence of tokens. -/
def delimiters (tokens : List Token) : List Kind :=
  (tokens.map (·.kind)).filter Kind.isDelimiter

@[simp] theorem delimiters_append (tokens tokens' : List Token) :
    delimiters (tokens ++ tokens') = delimiters tokens ++ delimiters tokens' := by
  simp [delimiters]

theorem delimiters_cons_of_isDelimiter {token : Token} (isDelimiter : token.kind.isDelimiter = true)
    (tokens : List Token) : delimiters (token :: tokens) = token.kind :: delimiters tokens := by
  simp [delimiters, isDelimiter]

theorem delimiters_cons_of_not_isDelimiter {token : Token}
    (isLeaf : token.kind.isDelimiter = false) (tokens : List Token) :
    delimiters (token :: tokens) = delimiters tokens := by
  simp [delimiters, isLeaf]

inductive WellNested : List Kind → Prop where
  | nil : WellNested []
  | wrap {bracket inner rest} : WellNested inner → WellNested rest →
      WellNested (.opening bracket :: inner ++ .closing bracket :: rest)

theorem WellNested.append {kinds kinds' : List Kind} (first : WellNested kinds)
    (second : WellNested kinds') : WellNested (kinds ++ kinds') := by
  induction first with
  | nil => exact second
  | wrap inside _ _ inductionHypothesis =>
    rw [List.append_assoc, List.cons_append]
    exact .wrap inside inductionHypothesis

/-- The tokens in front of the first end. -/
def untilEnd (tokens : List Token) : List Token := tokens.takeWhile (·.kind != .eof)

namespace Event

def token? : Event → Option Token
  | .token own => some own
  | .report _ => none

def fault? : Event → Option Fault
  | .token _ => none
  | .report fault => some fault

def isEnd : Event → Bool
  | .token own => own.kind == .eof
  | .report _ => false

/-- The tokens among events. -/
def tokens (events : List Event) : List Token := events.filterMap token?

/-- The faults that are reported among events. -/
def faults (events : List Event) : List Fault := events.filterMap fault?

@[simp] theorem tokens_token (own : Token) (events : List Event) :
    tokens (.token own :: events) = own :: tokens events := rfl

@[simp] theorem faults_token (own : Token) (events : List Event) :
    faults (.token own :: events) = faults events := rfl

@[simp] theorem tokens_append (events events' : List Event) :
    tokens (events ++ events') = tokens events ++ tokens events' := List.filterMap_append

@[simp] theorem faults_append (events events' : List Event) :
    faults (events ++ events') = faults events ++ faults events' := List.filterMap_append

@[simp] theorem tokens_map_token (own : List Token) : tokens (own.map .token) = own := by
  rw [tokens, List.filterMap_map]
  exact List.filterMap_some

@[simp] theorem faults_map_token (own : List Token) : faults (own.map .token) = [] := by
  rw [faults, List.filterMap_map]
  exact List.filterMap_eq_nil_iff.mpr fun _ _ => rfl

/-- The events in front of the first end. -/
def untilEnd (events : List Event) : List Event := events.takeWhile (! ·.isEnd)

theorem not_isEnd_of_mem_untilEnd {events : List Event} :
    ∀ event ∈ untilEnd events, event.isEnd = false := by
  intro event membership
  have running := List.all_eq_true.mp List.all_takeWhile event membership
  rwa [Bool.not_eq_true'] at running

/-- The first end, if there is one, stands behind the events in front of it. -/
theorem exists_untilEnd_append (events : List Event) :
    events = untilEnd events ∨ ∃ last behind, last.kind = .eof ∧
      events = untilEnd events ++ .token last :: behind := by
  have split : untilEnd events ++ events.dropWhile (! ·.isEnd) = events :=
    List.takeWhile_append_dropWhile
  cases rest : events.dropWhile (! ·.isEnd) with
  | nil =>
    rw [rest, List.append_nil] at split
    exact .inl split.symm
  | cons last behind =>
    have isEnd := List.head?_dropWhile_not (! ·.isEnd) events
    rw [rest] at isEnd split
    simp only [List.head?_cons, Bool.not_eq_false'] at isEnd
    cases last with
    | report => cases isEnd
    | token last => exact .inr ⟨last, behind, beq_iff_eq.mp isEnd, split.symm⟩

end Event

theorem LeafOf.piece_eq {token : Token} {node : Node} (leaf : LeafOf token node) :
    node.pieces = [token.piece] := by
  cases leaf <;> rfl

theorem LeafOf.not_isDelimiter {token : Token} {node : Node} (leaf : LeafOf token node) :
    token.kind.isDelimiter = false := by
  cases leaf <;> rfl

namespace Folds

theorem append {tokens tokens' : List Token} {nodes nodes' : List Node}
    (first : Folds tokens nodes) (second : Folds tokens' nodes') :
    Folds (tokens ++ tokens') (nodes ++ nodes') := by
  induction first with
  | nil => exact second
  | leaf isLeaf _ inductionHypothesis => exact .leaf isLeaf inductionHypothesis
  | group opens closes inside _ _ inductionHypothesis =>
    rw [List.append_assoc, List.cons_append]
    exact .group opens closes inside inductionHypothesis

theorem pieces_eq {tokens : List Token} {nodes : List Node} (folds : Folds tokens nodes) :
    Stream.pieces nodes = tokens.map Token.piece := by
  induction folds with
  | nil => rfl
  | leaf isLeaf _ inductionHypothesis =>
    rw [Stream.pieces, isLeaf.piece_eq, inductionHypothesis]
    rfl
  | @group opening closing bracket inner children tokens nodes opens closes _ _ inside behind =>
    have openingPiece : opening.piece = .opening (.bracket bracket) := by
      simp [Token.piece, opens]
    have closingPiece : closing.piece = .closing (.bracket bracket) := by
      simp [Token.piece, closes]
    simp [Stream.pieces, Node.pieces, inside, behind, openingPiece, closingPiece]

theorem wellNested {tokens : List Token} {nodes : List Node} (folds : Folds tokens nodes) :
    WellNested (delimiters tokens) := by
  induction folds with
  | nil => exact .nil
  | leaf isLeaf _ inductionHypothesis =>
    rw [delimiters_cons_of_not_isDelimiter isLeaf.not_isDelimiter]
    exact inductionHypothesis
  | group opens closes _ _ inside behind =>
    rw [List.cons_append, delimiters_cons_of_isDelimiter (by rw [opens]; rfl), delimiters_append,
      delimiters_cons_of_isDelimiter (by rw [closes]; rfl), opens, closes]
    exact .wrap inside behind

/-- The spacing of the last node does not matter. -/
theorem respace {tokens : List Token} {nodes : List Node} {char : Int32} {spacing : Spacing}
    {span : Span} (folds : Folds tokens (nodes ++ [.punct char spacing span]))
    (spacing' : Spacing) : Folds tokens (nodes ++ [.punct char spacing' span]) := by
  generalize shape : nodes ++ [Node.punct char spacing span] = all at folds
  induction folds generalizing nodes with
  | nil => simp at shape
  | leaf isLeaf rest inductionHypothesis =>
    cases nodes with
    | nil =>
      rw [List.nil_append, List.cons.injEq] at shape
      obtain ⟨rfl, rfl⟩ := shape
      cases isLeaf
      exact .leaf .mark rest
    | cons first nodes =>
      rw [List.cons_append, List.cons.injEq] at shape
      obtain ⟨rfl, shape⟩ := shape
      exact .leaf isLeaf (inductionHypothesis shape)
  | group opens closes inside rest _ inductionHypothesis =>
    cases nodes with
    | nil => simp at shape
    | cons first nodes =>
      rw [List.cons_append, List.cons.injEq] at shape
      obtain ⟨rfl, shape⟩ := shape
      exact .group opens closes inside (inductionHypothesis shape)

theorem join {tokens : List Token} {before : List Node} (folds : Folds tokens before.reverse)
    (nextStart : Nat) : Folds tokens (Assembly.join nextStart before).reverse := by
  unfold Assembly.join
  split
  · rw [List.reverse_cons] at folds ⊢
    exact folds.respace _
  · exact folds

/-- A leaf behind the nodes read so far stands for its token. -/
theorem addLeaf {tokens : List Token} {before : List Node} (folds : Folds tokens before.reverse)
    {token : Token} (notEnd : token.kind ≠ .eof) (notDelimiter : token.kind.isDelimiter = false) :
    Folds (tokens ++ [token]) (Assembly.addLeaf token before).reverse := by
  obtain ⟨kind, lexeme, span⟩ := token
  cases kind with
  | eof => exact absurd rfl notEnd
  | opening | closing => cases notDelimiter
  | ident =>
    simp only [Assembly.addLeaf, List.reverse_cons]
    exact folds.append (.leaf .ident .nil)
  | int =>
    simp only [Assembly.addLeaf, List.reverse_cons]
    exact folds.append (.leaf .int .nil)
  | float =>
    simp only [Assembly.addLeaf, List.reverse_cons]
    exact folds.append (.leaf .float .nil)
  | string =>
    simp only [Assembly.addLeaf, List.reverse_cons]
    exact folds.append (.leaf .string .nil)
  | char =>
    simp only [Assembly.addLeaf, List.reverse_cons]
    exact folds.append (.leaf .char .nil)
  | mark code =>
    simp only [Assembly.addLeaf, List.reverse_cons]
    exact (folds.join span.start).append (.leaf .mark .nil)

end Folds

/-- The tokens read so far, with the groups that are open behind them, innermost first, and the
nodes of the innermost one, the last one first. -/
inductive Opened : List Token → List OpenGroup → List Node → Prop where
  | outermost {tokens nodes} : Folds tokens nodes.reverse → Opened tokens [] nodes
  | inside {tokens opening inner bracket before stack nodes} :
      Opened tokens stack before → opening.kind = .opening bracket →
      Folds inner nodes.reverse →
      Opened (tokens ++ opening :: inner) (⟨bracket, opening.span, before⟩ :: stack) nodes

namespace Opened

/-- What folds the nodes of the innermost group further keeps the groups around it. -/
theorem extend {tokens more : List Token} {stack : List OpenGroup} {nodes nodes' : List Node}
    (opened : Opened tokens stack nodes)
    (folding : ∀ inner, Folds inner nodes.reverse → Folds (inner ++ more) nodes'.reverse) :
    Opened (tokens ++ more) stack nodes' := by
  cases opened with
  | outermost folds => exact .outermost (folding _ folds)
  | inside around opens folds =>
    rw [List.append_assoc, List.cons_append]
    exact .inside around opens (folding _ folds)

theorem folds {tokens : List Token} {nodes : List Node} (opened : Opened tokens [] nodes) :
    Folds tokens nodes.reverse := by
  cases opened with
  | outermost folds => exact folds

theorem openGroup {tokens : List Token} {stack : List OpenGroup} {nodes : List Node}
    (opened : Opened tokens stack nodes) {token : Token} {bracket : Bracket}
    (opens : token.kind = .opening bracket) :
    Opened (tokens ++ [token]) (⟨bracket, token.span, nodes⟩ :: stack) [] :=
  .inside opened opens .nil

theorem closeGroup {tokens : List Token} {innermost : OpenGroup} {stack : List OpenGroup}
    {nodes : List Node} (opened : Opened tokens (innermost :: stack) nodes) {token : Token}
    (closes : token.kind = .closing innermost.bracket) :
    Opened (tokens ++ [token]) stack
      (.group (.bracket innermost.bracket) nodes.reverse (innermost.opener.extend token.span) ::
        innermost.before) := by
  cases opened with
  | @inside tokens opening inner bracket before stack nodes around opens folds =>
    rw [List.append_assoc]
    refine around.extend ?_
    intro outer outerFolds
    rw [List.reverse_cons]
    exact outerFolds.append (.group opens closes folds .nil)

end Opened

namespace Assembly

theorem run_end {token : Token} (isEnd : token.kind = .eof) (pulled : Nat)
    (reported : Option Fault) (stack : List OpenGroup) (nodes : List Node) (events : List Event) :
    (run pulled reported stack nodes (.token token :: events)).result =
      finish reported stack nodes := by
  simp only [run, isEnd]

/-- Whatever follows it, a token is refused as a bracket, or it is read. The only group that it can
open starts at the token. -/
theorem run_token {token : Token} (notEnd : token.kind ≠ .eof) (stack : List OpenGroup)
    (nodes : List Node) :
    (∃ problem : Problem, problem.code = .delimiter ∧ ∀ pulled reported events,
      (run pulled reported stack nodes (.token token :: events)).result =
        .error (.diagnosed token.span problem)) ∨
    ∃ stack' nodes', (∀ group ∈ stack', group.opener = token.span ∨ group ∈ stack) ∧
      ∀ pulled reported events, run pulled reported stack nodes (.token token :: events) =
        run (pulled + 1) reported stack' nodes' events := by
  cases kind : token.kind with
  | eof => exact absurd kind notEnd
  | opening bracket =>
    refine .inr ⟨⟨bracket, token.span, nodes⟩ :: stack, [], ?_, ?_⟩
    · exact List.forall_mem_cons.mpr ⟨.inl rfl, fun _ membership => .inr membership⟩
    · intro pulled reported events
      simp only [run, kind]
  | closing bracket =>
    cases stack with
    | nil =>
      refine .inl ⟨.unexpectedCloser token.lexeme, rfl, ?_⟩
      intro pulled reported events
      simp only [run, kind]
    | cons innermost outer =>
      by_cases same : bracket = innermost.bracket
      · let group := Node.group (.bracket innermost.bracket) nodes.reverse
          (innermost.opener.extend token.span)
        refine .inr ⟨outer, group :: innermost.before, ?_, ?_⟩
        · exact fun _ membership => .inr (.tail _ membership)
        · intro pulled reported events
          simp only [run, kind, same, if_true, group]
      · refine .inl ⟨.mismatchedCloser innermost.bracket token.lexeme, rfl, ?_⟩
        intro pulled reported events
        simp only [run, kind, same, if_false]
  | ident | int | float | string | char | mark =>
    refine .inr ⟨stack, addLeaf token nodes, fun _ membership => .inr membership, ?_⟩
    intro pulled reported events
    simp only [run, kind]

/-- What holds of the nodes on each level while they are read, the last one first: it is true of no
nodes, and one more leaf or one more group keeps it. -/
structure Invariant (holds : List Node → Prop) : Prop where
  nil : holds []
  leaf : ∀ token before, holds before → holds (addLeaf token before)
  group : ∀ bracket children before span, holds children → holds before →
    holds (.group (.bracket bracket) children.reverse span :: before)

theorem Invariant.of_run {holds : List Node → Prop} (invariant : Invariant holds)
    (events : List Event) {pulled : Nat} {reported : Option Fault} {stack : List OpenGroup}
    {nodes : List Node} {stream : Stream} (around : ∀ group ∈ stack, holds group.before)
    (inside : holds nodes)
    (success : (run pulled reported stack nodes events).result = .ok stream) :
    holds stream.reverse := by
  have finished : ∀ {reported stack nodes}, holds nodes →
      finish reported stack nodes = .ok stream → holds stream.reverse := by
    intro reported stack nodes inside success
    unfold finish at success
    split at success
    · cases success
    · cases success
    · cases success
      rwa [List.reverse_reverse]
  induction events generalizing pulled reported stack nodes with
  | nil => exact finished inside success
  | cons event events inductionHypothesis =>
    cases event with
    | report fault => exact inductionHypothesis around inside success
    | token token =>
      cases kind : token.kind with
      | eof =>
        rw [run_end kind] at success
        exact finished inside success
      | opening bracket =>
        simp only [run, kind] at success
        apply inductionHypothesis _ invariant.nil success
        exact List.forall_mem_cons.mpr ⟨inside, around⟩
      | closing bracket =>
        simp only [run, kind] at success
        cases stack with
        | nil => cases success
        | cons innermost stack =>
          obtain ⟨inBefore, around⟩ := List.forall_mem_cons.mp around
          dsimp only at success
          split at success
          · exact inductionHypothesis around (invariant.group _ _ _ _ inside inBefore) success
          · cases success
      | ident | int | float | string | char | mark =>
        simp only [run, kind] at success
        exact inductionHypothesis around (invariant.leaf _ _ inside) success

theorem Invariant.of_parse {holds : List Node → Prop} (invariant : Invariant holds)
    {source : Bytes} {stream : Stream} (parsed : Stream.parse source = .ok stream) :
    holds stream.reverse :=
  invariant.of_run _ (fun _ membership => absurd membership List.not_mem_nil) invariant.nil parsed

/-- What each token keeps true of the tokens read so far, the groups that are open behind them and
the nodes of the innermost one. -/
structure Tracks (holds : List Token → List OpenGroup → List Node → Prop) : Prop where
  opening : ∀ {tokens stack nodes token bracket}, holds tokens stack nodes →
    token.kind = .opening bracket →
    holds (tokens ++ [token]) (⟨bracket, token.span, nodes⟩ :: stack) []
  closing : ∀ {tokens innermost stack nodes token}, holds tokens (innermost :: stack) nodes →
    token.kind = .closing innermost.bracket →
    holds (tokens ++ [token]) stack
      (.group (.bracket innermost.bracket) nodes.reverse (innermost.opener.extend token.span) ::
        innermost.before)
  leaf : ∀ {tokens stack nodes token}, holds tokens stack nodes → token.kind ≠ .eof →
    token.kind.isDelimiter = false → holds (tokens ++ [token]) stack (addLeaf token nodes)

theorem eq_of_finish {stack : List OpenGroup} {nodes : List Node} {stream : Stream}
    (success : finish none stack nodes = .ok stream) : stack = [] ∧ nodes = stream.reverse := by
  cases stack with
  | nil =>
    cases success
    exact ⟨rfl, (List.reverse_reverse nodes).symm⟩
  | cons => cases success

theorem Tracks.of_run {holds : List Token → List OpenGroup → List Node → Prop}
    (tracks : Tracks holds) (tokens : List Token) {consumed : List Token} {pulled : Nat}
    {stack : List OpenGroup} {nodes : List Node} {stream : Stream}
    (held : holds consumed stack nodes)
    (success : (run pulled none stack nodes (tokens.map .token)).result = .ok stream) :
    holds (consumed ++ untilEnd tokens) [] stream.reverse := by
  have finished : ∀ {consumed stack nodes}, holds consumed stack nodes →
      finish none stack nodes = .ok stream → holds (consumed ++ []) [] stream.reverse := by
    intro consumed stack nodes held success
    obtain ⟨rfl, rfl⟩ := eq_of_finish success
    rwa [List.append_nil]
  induction tokens generalizing consumed pulled stack nodes with
  | nil => exact finished held success
  | cons token tokens inductionHypothesis =>
    by_cases isEnd : token.kind = .eof
    · have isLast : untilEnd (token :: tokens) = [] := by simp [untilEnd, isEnd]
      rw [List.map_cons, run_end isEnd] at success
      rw [isLast]
      exact finished held success
    · have isRead : untilEnd (token :: tokens) = token :: untilEnd tokens := by
        simp [untilEnd, isEnd]
      rw [isRead, ← List.singleton_append, ← List.append_assoc]
      cases kind : token.kind with
      | eof => exact absurd kind isEnd
      | opening bracket =>
        simp only [List.map_cons, run, kind] at success
        exact inductionHypothesis (tracks.opening held kind) success
      | closing bracket =>
        simp only [List.map_cons, run, kind] at success
        cases stack with
        | nil => cases success
        | cons innermost stack =>
          dsimp only at success
          split at success
          · rename_i same
            subst same
            exact inductionHypothesis (tracks.closing held kind) success
          · cases success
      | ident | int | float | string | char | mark =>
        have notDelimiter : token.kind.isDelimiter = false := by rw [kind]; rfl
        simp only [List.map_cons, run, kind] at success
        exact inductionHypothesis (tracks.leaf held isEnd notDelimiter) success

theorem opened_tracks : Tracks Opened where
  opening := fun opened opens => opened.openGroup opens
  closing := fun opened closes => opened.closeGroup closes
  leaf := fun opened notEnd notDelimiter =>
    opened.extend fun _ folds => folds.addLeaf notEnd notDelimiter

/-- Whether a sequence of brackets closes the open ones and its own, each by its partner. -/
def closes : List Bracket → List Kind → Bool
  | [], [] => true
  | _ :: _, [] => false
  | stack, .opening bracket :: rest => closes (bracket :: stack) rest
  | innermost :: stack, .closing bracket :: rest => bracket == innermost && closes stack rest
  | [], .closing _ :: _ => false
  | stack, _ :: rest => closes stack rest

theorem closes_append {kinds : List Kind} (nested : WellNested kinds) (stack : List Bracket)
    (rest : List Kind) : closes stack (kinds ++ rest) = closes stack rest := by
  induction nested generalizing stack rest with
  | nil => rfl
  | @wrap bracket inner behind _ _ inside outside =>
    simp only [List.cons_append, List.append_assoc, closes]
    rw [inside, closes, outside]
    simp

/-- Events that close the innermost groups and their own leave the groups around them as they were,
whatever follows. -/
theorem run_of_closes (events : List Event) (running : ∀ event ∈ events, event.isEnd = false)
    (pulled : Nat) (reported : Option Fault) (opened stack : List OpenGroup) (nodes : List Node)
    (closed : closes (opened.map (·.bracket)) (delimiters (Event.tokens events)) = true) :
    ∃ nodes', ∀ rest, run pulled reported (opened ++ stack) nodes (events ++ rest) =
      run (pulled + events.length) (reported.or (Event.faults events).head?) stack nodes' rest := by
  induction events generalizing pulled reported opened nodes with
  | nil =>
    cases opened with
    | nil => exact ⟨nodes, fun rest => by simp [Event.faults]⟩
    | cons => cases closed
  | cons event events inductionHypothesis =>
    obtain ⟨notEnd, laterRunning⟩ := List.forall_mem_cons.mp running
    have count : pulled + (event :: events).length = pulled + 1 + events.length := by
      rw [List.length_cons]
      omega
    rw [count]
    cases event with
    | report fault =>
      obtain ⟨nodes', read⟩ := inductionHypothesis laterRunning (pulled + 1)
        (reported.or (some fault)) opened nodes closed
      refine ⟨nodes', fun rest => ?_⟩
      rw [List.cons_append, run, read, Option.or_assoc]
      rfl
    | token token =>
      rw [Event.tokens_token] at closed
      rw [Event.faults_token]
      cases kind : token.kind with
      | eof => simp [Event.isEnd, kind] at notEnd
      | opening bracket =>
        rw [delimiters_cons_of_isDelimiter (by rw [kind]; rfl), kind, closes] at closed
        simp only [List.cons_append, run, kind]
        exact inductionHypothesis laterRunning _ _ (⟨bracket, token.span, nodes⟩ :: opened) _ closed
      | closing bracket =>
        rw [delimiters_cons_of_isDelimiter (by rw [kind]; rfl), kind] at closed
        cases opened with
        | nil => cases closed
        | cons innermost opened =>
          simp only [List.map_cons, closes, Bool.and_eq_true, beq_iff_eq] at closed
          simp only [List.cons_append, run, kind, closed.1, if_true]
          exact inductionHypothesis laterRunning _ _ opened _ closed.2
      | ident | int | float | string | char | mark =>
        rw [delimiters_cons_of_not_isDelimiter (by rw [kind]; rfl)] at closed
        simp only [List.cons_append, run, kind]
        exact inductionHypothesis laterRunning _ _ opened _ closed

/-- Well-nested events add nodes to the innermost group. -/
theorem run_of_wellNested (events : List Event) (running : ∀ event ∈ events, event.isEnd = false)
    (nested : WellNested (delimiters (Event.tokens events))) (pulled : Nat)
    (reported : Option Fault) (stack : List OpenGroup) (nodes : List Node) :
    ∃ nodes', ∀ rest, run pulled reported stack nodes (events ++ rest) =
      run (pulled + events.length) (reported.or (Event.faults events).head?) stack nodes' rest := by
  have closed := closes_append nested [] []
  rw [List.append_nil] at closed
  exact run_of_closes events running pulled reported [] stack nodes closed

/-- What is read of the events in front of the end decides what is answered. -/
theorem run_of_untilEnd {events : List Event} {pulled pulled' : Nat}
    {reported reported' : Option Fault} {stack stack' : List OpenGroup} {nodes nodes' : List Node}
    (read : ∀ rest, run pulled reported stack nodes (Event.untilEnd events ++ rest) =
      run pulled' reported' stack' nodes' rest) :
    run pulled reported stack nodes events =
      ⟨pulled' + min 1 (events.length - (Event.untilEnd events).length),
        finish reported' stack' nodes'⟩ := by
  rcases Event.exists_untilEnd_append events with isAll | ⟨last, behind, isEnd, isAll⟩
  · have nothing : events.length - (Event.untilEnd events).length = 0 := by
      rw [← isAll, Nat.sub_self]
    have readAll := read []
    rw [List.append_nil, ← isAll] at readAll
    rw [nothing, readAll]
    rfl
  · have one : min 1 (events.length - (Event.untilEnd events).length) = 1 := by
      have total := congrArg List.length isAll
      rw [List.length_append, List.length_cons] at total
      omega
    have readAll := read (.token last :: behind)
    rw [← isAll] at readAll
    rw [one, readAll]
    simp only [run, isEnd]

theorem exists_ofEvents_of_wellNested {tokens : List Token}
    (nested : WellNested (delimiters (untilEnd tokens))) :
    ∃ stream, (ofEvents (tokens.map .token)).result = .ok stream := by
  have isFront : Event.untilEnd (tokens.map .token) = (untilEnd tokens).map .token := by
    rw [Event.untilEnd, List.takeWhile_map]
    rfl
  have isTokens : Event.tokens (Event.untilEnd (tokens.map .token)) = untilEnd tokens := by
    rw [isFront, Event.tokens_map_token]
  rw [← isTokens] at nested
  obtain ⟨nodes, read⟩ :=
    run_of_wellNested _ Event.not_isEnd_of_mem_untilEnd nested 0 none [] []
  rw [isFront, Event.faults_map_token, ← isFront] at read
  refine ⟨nodes.reverse, ?_⟩
  rw [ofEvents, run_of_untilEnd read]
  rfl

theorem folds_of_ofEvents {tokens : List Token} {stream : Stream}
    (success : (ofEvents (tokens.map .token)).result = .ok stream) :
    Folds (untilEnd tokens) stream := by
  have start : Opened [] [] [] := .outermost .nil
  have folds := (opened_tracks.of_run tokens start success).folds
  rwa [List.reverse_reverse] at folds

end Assembly

/-- Tokens up to the first end make a tree if and only if their brackets are well nested, and the
tree holds each of them once and in order: it flattens to their pieces, leaves have the content and
the span of their tokens, and groups cover the spans of their two brackets. -/
theorem assembly_lossless (tokens : List Token) :
    ((∃ stream, (Assembly.ofEvents (tokens.map .token)).result = .ok stream) ↔
      WellNested (delimiters (untilEnd tokens))) ∧
    ∀ stream, (Assembly.ofEvents (tokens.map .token)).result = .ok stream →
      Stream.pieces stream = (untilEnd tokens).map Token.piece ∧
        Folds (untilEnd tokens) stream := by
  refine ⟨⟨?_, Assembly.exists_ofEvents_of_wellNested⟩, ?_⟩
  · rintro ⟨stream, success⟩
    exact (Assembly.folds_of_ofEvents success).wellNested
  · intro stream success
    have folds := Assembly.folds_of_ofEvents success
    exact ⟨folds.pieces_eq, folds⟩

end Unroll
