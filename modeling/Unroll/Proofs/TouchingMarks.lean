import Unroll.Proofs.Levels
import Unroll.Proofs.TreeAssembly

set_option autoImplicit false

/-!
# Punctuation that touches

Read from left to right, a stream has a place for each token it was assembled from: its leaves, and
empty places for brackets. What stands at a place is decided by the token there and the one directly
behind it, which counts only for punctuation: the hint is joint exactly if the next token is
punctuation too and starts where this one ends. An assembly sets the hint late, when the next token
has been read, but by then the character is still the last place, whatever is opened or closed.
-/

namespace Unroll

/-! Places of a stream. -/

mutual

def Node.places : Node → List (Option Node)
  | .group _ children _ => none :: Stream.places children ++ [none]
  | node => [some node]

/-- The leaves of a stream from left to right, with an empty place for each bracket. -/
def Stream.places : Stream → List (Option Node)
  | [] => []
  | node :: rest => node.places ++ Stream.places rest

end

theorem Stream.places_append (first second : List Node) :
    Stream.places (first ++ second) = Stream.places first ++ Stream.places second := by
  induction first with
  | nil => rfl
  | cons node rest inductionHypothesis =>
    rw [List.cons_append, Stream.places, Stream.places, inductionHypothesis, List.append_assoc]

theorem Node.IsLeaf.places_eq {node : Node} (isLeaf : node.IsLeaf) : node.places = [some node] := by
  cases node with
  | ident | literal | punct => rfl
  | group => cases isLeaf

/-- The leaves on all levels, and nothing else, have a place. -/
theorem Stream.mem_places_iff (stream : List Node) (node : Node) :
    some node ∈ Stream.places stream ↔
      node.IsLeaf ∧ ∃ level, Stream.Level stream level ∧ node ∈ level := by
  cases stream with
  | nil =>
    constructor
    · intro membership
      cases membership
    · rintro ⟨-, level, isLevel, membership⟩
      rw [isLevel.of_nil] at membership
      cases membership
  | cons first rest =>
    have inRest := Stream.mem_places_iff rest node
    rw [Stream.places, List.mem_append]
    constructor
    · rintro (atFirst | atRest)
      · cases first with
        | ident | literal | punct =>
          cases List.mem_singleton.mp atFirst
          exact ⟨trivial, _, .top _, List.mem_cons_self⟩
        | group delimiter children span =>
          have inChildren : some node ∈ Stream.places children := by
            simpa [Node.places] using atFirst
          obtain ⟨isLeaf, level, below, membership⟩ :=
            (Stream.mem_places_iff children node).mp inChildren
          exact ⟨isLeaf, level, .inside List.mem_cons_self below, membership⟩
      · obtain ⟨isLeaf, level, isLevel, membership⟩ := inRest.mp atRest
        refine ⟨isLeaf, ?_⟩
        cases isLevel with
        | top => exact ⟨_, .top _, .tail _ membership⟩
        | inside isGroup below => exact ⟨level, .inside (.tail _ isGroup) below, membership⟩
    · rintro ⟨isLeaf, level, isLevel, membership⟩
      rcases isLevel.of_cons with rfl | ⟨delimiter, children, span, rfl, below⟩ | below
      · rcases List.mem_cons.mp membership with rfl | inOthers
        · left
          rw [isLeaf.places_eq]
          exact List.mem_cons_self
        · exact .inr (inRest.mpr ⟨isLeaf, rest, .top rest, inOthers⟩)
      · have inChildren :=
          (Stream.mem_places_iff children node).mpr ⟨isLeaf, level, below, membership⟩
        left
        simpa [Node.places] using inChildren
      · exact .inr (inRest.mpr ⟨isLeaf, level, below, membership⟩)

/-! Places of tokens. -/

def Kind.isMark : Kind → Bool
  | .mark _ => true
  | _ => false

namespace Token

/-- The next token is punctuation and starts where this one ends. -/
def TouchedBy (token next : Token) : Prop :=
  next.kind.isMark = true ∧ token.span.stop = next.span.start

instance (token next : Token) : Decidable (token.TouchedBy next) :=
  inferInstanceAs (Decidable (_ ∧ _))

/-- The hint of punctuation by the token behind it. -/
def hint (token : Token) (behind : Option Token) : Spacing :=
  if ∃ next ∈ behind, token.TouchedBy next then .joint else .alone

theorem hint_eq_joint_iff (token : Token) (behind : Option Token) :
    token.hint behind = .joint ↔ ∃ next ∈ behind, token.TouchedBy next := by
  simp [hint]

/-- What stands at the place of a token in front of another. -/
def place (token : Token) (behind : Option Token) : Option Node :=
  match token.kind with
  | .ident => some (.ident token.lexeme token.span)
  | .int => some (.literal .int token.lexeme token.span)
  | .float => some (.literal .float token.lexeme token.span)
  | .string => some (.literal .string token.lexeme token.span)
  | .char => some (.literal .char token.lexeme token.span)
  | .mark code => some (.punct code.toInt32 (token.hint behind) token.span)
  | .eof | .opening _ | .closing _ => none

/-- The places of tokens in front of another. -/
def places (behind : Option Token) : List Token → List (Option Node)
  | [] => []
  | token :: rest => token.place (rest.head?.or behind) :: places behind rest

theorem places_append (behind : Option Token) (tokens tokens' : List Token) :
    places behind (tokens ++ tokens') =
      places (tokens'.head?.or behind) tokens ++ places behind tokens' := by
  induction tokens with
  | nil => rfl
  | cons token tokens inductionHypothesis =>
    rw [List.cons_append, places, places, inductionHypothesis, List.head?_append, Option.or_assoc,
      List.cons_append]

theorem getElem?_places (behind : Option Token) (tokens : List Token) (index : Nat) :
    (places behind tokens)[index]? =
      tokens[index]?.map fun token => token.place (tokens[index + 1]?.or behind) := by
  induction tokens generalizing index with
  | nil => rfl
  | cons token tokens inductionHypothesis =>
    cases index with
    | zero => simp [places, List.head?_eq_getElem?]
    | succ index => simpa [places] using inductionHypothesis index

theorem length_places (behind : Option Token) (tokens : List Token) :
    (places behind tokens).length = tokens.length := by
  induction tokens with
  | nil => rfl
  | cons token tokens inductionHypothesis =>
    rw [places, List.length_cons, List.length_cons, inductionHypothesis]

end Token

/-! Setting a hint late. -/

/-- A node in front of punctuation that starts at an offset. -/
def Node.joined (nextStart : Nat) : Node → Node
  | .punct char spacing span =>
    .punct char (if span.stop = nextStart then .joint else spacing) span
  | node => node

theorem Assembly.join_eq (nextStart : Nat) (nodes : List Node) :
    Assembly.join nextStart nodes = nodes.modifyHead (Node.joined nextStart) := by
  cases nodes with
  | nil => rfl
  | cons node nodes => cases node <;> rfl

namespace Token

theorem place_of_isMark (token : Token) {next : Token} (isMark : next.kind.isMark = true) :
    token.place (some next) = (token.place none).map (Node.joined next.span.start) := by
  unfold place
  cases token.kind with
  | mark code => simp [hint, TouchedBy, isMark, Node.joined]
  | eof | ident | int | float | string | char | opening | closing => rfl

theorem place_of_not_isMark (token : Token) {next : Token} (noMark : next.kind.isMark = false) :
    token.place (some next) = token.place none := by
  unfold place
  cases token.kind with
  | mark code => simp [hint, TouchedBy, noMark]
  | eof | ident | int | float | string | char | opening | closing => rfl

/-- A token read behind others decides what stands at the last place, and at no other. -/
theorem reverse_places_some (next : Token) (tokens : List Token) :
    (places (some next) tokens).reverse =
      if next.kind.isMark then
        (places none tokens).reverse.modifyHead (Option.map (Node.joined next.span.start))
      else (places none tokens).reverse := by
  rcases List.eq_nil_or_concat tokens with rfl | ⟨front, last, rfl⟩
  · simp [places]
  · have ends : ∀ behind, (places behind (front ++ [last])).reverse =
        last.place behind :: (places (some last) front).reverse := by
      intro behind
      simp [places_append, places]
    rw [List.concat_eq_append, ends, ends]
    split
    · rename_i isMark
      rw [last.place_of_isMark isMark]
      rfl
    · rename_i noMark
      rw [last.place_of_not_isMark (Bool.eq_false_iff.mpr noMark)]

theorem reverse_places_concat (tokens : List Token) (token : Token) :
    (places none (tokens ++ [token])).reverse = token.place none ::
      if token.kind.isMark then
        (places none tokens).reverse.modifyHead (Option.map (Node.joined token.span.start))
      else (places none tokens).reverse := by
  rw [← reverse_places_some, places_append, List.reverse_append]
  rfl

/-- A bracket adds an empty place. -/
theorem reverse_places_delimiter (tokens : List Token) {token : Token}
    (isDelimiter : token.kind.isDelimiter = true) :
    (places none (tokens ++ [token])).reverse = none :: (places none tokens).reverse := by
  rw [reverse_places_concat, place]
  cases kind : token.kind with
  | opening | closing => rfl
  | eof | ident | int | float | string | char | mark =>
    rw [kind] at isDelimiter
    cases isDelimiter

end Token

namespace Assembly

/-- The places read so far, the last one first. -/
def trail : List OpenGroup → List Node → List (Option Node)
  | [], nodes => (Stream.places nodes.reverse).reverse
  | innermost :: outer, nodes =>
    (Stream.places nodes.reverse).reverse ++ none :: trail outer innermost.before

theorem trail_cons (stack : List OpenGroup) (node : Node) (nodes : List Node) :
    trail stack (node :: nodes) = node.places.reverse ++ trail stack nodes := by
  cases stack <;> simp [trail, Stream.places_append, Stream.places]

theorem trail_open (bracket : Bracket) (opener : Span) (nodes : List Node)
    (stack : List OpenGroup) :
    trail (⟨bracket, opener, nodes⟩ :: stack) [] = none :: trail stack nodes := by
  rfl

theorem trail_close (innermost : OpenGroup) (stack : List OpenGroup) (nodes : List Node)
    (delimiter : Delimiter) (span : Span) :
    trail stack (.group delimiter nodes.reverse span :: innermost.before) =
      none :: trail (innermost :: stack) nodes := by
  simp [trail_cons, trail, Node.places]

theorem trail_join (stack : List OpenGroup) (nextStart : Nat) (nodes : List Node) :
    trail stack (join nextStart nodes) =
      (trail stack nodes).modifyHead (Option.map (Node.joined nextStart)) := by
  rw [join_eq]
  cases nodes with
  | nil => cases stack <;> rfl
  | cons node nodes =>
    rw [List.modifyHead_cons, trail_cons, trail_cons]
    cases node with
    | ident | literal | punct => rfl
    | group => simp [Node.joined, Node.places]

/-- A leaf adds the place of its token, and punctuation sets the hint of the place before. -/
theorem trail_addLeaf {token : Token} (notEnd : token.kind ≠ .eof)
    (notDelimiter : token.kind.isDelimiter = false) (stack : List OpenGroup) (nodes : List Node) :
    trail stack (addLeaf token nodes) = token.place none ::
      if token.kind.isMark then
        (trail stack nodes).modifyHead (Option.map (Node.joined token.span.start))
      else trail stack nodes := by
  unfold addLeaf Token.place
  cases kind : token.kind with
  | eof => exact absurd kind notEnd
  | opening | closing =>
    rw [kind] at notDelimiter
    cases notDelimiter
  | ident | int | float | string | char => exact trail_cons _ _ _
  | mark code =>
    dsimp only
    rw [trail_cons, trail_join]
    rfl

/-- The places read so far are those of the tokens. -/
theorem trail_tracks :
    Tracks fun tokens stack nodes => trail stack nodes = (Token.places none tokens).reverse where
  opening := by
    intro tokens stack nodes token bracket held opens
    have isDelimiter : token.kind.isDelimiter = true := by rw [opens]; rfl
    rw [trail_open, held, Token.reverse_places_delimiter tokens isDelimiter]
  closing := by
    intro tokens innermost stack nodes token held closes
    have isDelimiter : token.kind.isDelimiter = true := by rw [closes]; rfl
    rw [trail_close, held, Token.reverse_places_delimiter tokens isDelimiter]
  leaf := by
    intro tokens stack nodes token held notEnd notDelimiter
    rw [trail_addLeaf notEnd notDelimiter, held, Token.reverse_places_concat]

theorem places_of_ofEvents {tokens : List Token} {stream : Stream}
    (success : (ofEvents (tokens.map .token)).result = .ok stream) :
    stream.places = Token.places none (untilEnd tokens) := by
  have start : trail [] [] = (Token.places none []).reverse := rfl
  have read := trail_tracks.of_run tokens start success
  simpa [trail] using read

end Assembly

/-! The token behind another in the whole list. -/

theorem getElem?_untilEnd {tokens : List Token} {index : Nat} {token : Token}
    (within : index ≤ (untilEnd tokens).length) (notEnd : token.kind ≠ .eof) :
    (untilEnd tokens)[index]? = some token ↔ tokens[index]? = some token := by
  induction tokens generalizing index with
  | nil => rfl
  | cons first rest inductionHypothesis =>
    by_cases isEnd : first.kind = .eof
    · have isLast : untilEnd (first :: rest) = [] := by simp [untilEnd, isEnd]
      rw [isLast] at within ⊢
      rw [Nat.le_zero.mp within]
      refine iff_of_false (fun impossible => by cases impossible) ?_
      intro isFirst
      cases isFirst
      exact notEnd isEnd
    · have isRead : untilEnd (first :: rest) = first :: untilEnd rest := by
        simp [untilEnd, isEnd]
      rw [isRead] at within ⊢
      cases index with
      | zero => rfl
      | succ index => exact inductionHypothesis (Nat.le_of_succ_le_succ within)

theorem Token.hint_untilEnd {tokens : List Token} {index : Nat} {token : Token}
    (isRead : (untilEnd tokens)[index]? = some token) :
    token.hint (untilEnd tokens)[index + 1]? = .joint ↔
      ∃ next, tokens[index + 1]? = some next ∧ token.TouchedBy next := by
  have within : index + 1 ≤ (untilEnd tokens).length := (List.getElem?_eq_some_iff.mp isRead).1
  rw [token.hint_eq_joint_iff]
  refine exists_congr fun next => and_congr_left fun touched => ?_
  have notEnd : next.kind ≠ .eof := by
    intro isEnd
    have isMark := touched.1
    rw [isEnd] at isMark
    cases isMark
  exact getElem?_untilEnd within notEnd

theorem Token.place_eq_punct_iff (token : Token) (behind : Option Token) (char : Int32)
    (spacing : Spacing) (span : Span) :
    token.place behind = some (.punct char spacing span) ↔
      (∃ code, token.kind = .mark code ∧ char = code.toInt32) ∧ span = token.span ∧
        (spacing = .joint ↔ token.hint behind = .joint) := by
  have sameHint : token.hint behind = spacing ↔
      (spacing = .joint ↔ token.hint behind = .joint) := by
    cases spacing <;> cases token.hint behind <;> decide
  rw [← sameHint]
  unfold place
  cases token.kind with
  | mark code => simp [eq_comm, and_comm, and_left_comm]
  | eof | ident | int | float | string | char | opening | closing => simp

/-- The leaves of an assembled stream stand at the places of their tokens. Punctuation stands where
the token is punctuation, with its span, and it is joint exactly if the token directly behind it in
the list is punctuation too and starts where it ends. -/
theorem joint_marks_touch (tokens : List Token) (stream : Stream)
    (success : (Assembly.ofEvents (tokens.map .token)).result = .ok stream) :
    (∀ node, some node ∈ stream.places ↔
      node.IsLeaf ∧ ∃ level, stream.Level level ∧ node ∈ level) ∧
    stream.places.length = (untilEnd tokens).length ∧
    ∀ index token, (untilEnd tokens)[index]? = some token → ∀ char spacing span,
      stream.places[index]? = some (some (.punct char spacing span)) ↔
        (∃ code, token.kind = .mark code ∧ char = code.toInt32) ∧ span = token.span ∧
          (spacing = .joint ↔
            ∃ next, tokens[index + 1]? = some next ∧ token.TouchedBy next) := by
  have isPlaces := Assembly.places_of_ofEvents success
  refine ⟨Stream.mem_places_iff stream, ?_, ?_⟩
  · rw [isPlaces, Token.length_places]
  · intro index token isRead char spacing span
    rw [isPlaces, Token.getElem?_places, isRead, Option.map_some, Option.some.injEq,
      Option.or_none, Token.place_eq_punct_iff, Token.hint_untilEnd isRead]

/-- Marks that touch each other, a bracket, or only the end: `..=(-)-`. -/
def guardedMarks : List Token :=
  [⟨.mark 46, word ['.'], ⟨0, 1⟩⟩, ⟨.mark 46, word ['.'], ⟨1, 2⟩⟩, ⟨.mark 61, word ['='], ⟨2, 3⟩⟩,
    ⟨.opening .round, word ['('], ⟨3, 4⟩⟩, ⟨.mark 45, word ['-'], ⟨4, 5⟩⟩,
    ⟨.closing .round, word [')'], ⟨5, 6⟩⟩, ⟨.mark 45, word ['-'], ⟨6, 7⟩⟩, Token.ending]

def guardedMarksStream : Stream :=
  [.punct (charCode '.') .joint ⟨0, 1⟩, .punct (charCode '.') .joint ⟨1, 2⟩,
    .punct (charCode '=') .alone ⟨2, 3⟩,
    .group .round [.punct (charCode '-') .alone ⟨4, 5⟩] ⟨3, 6⟩,
    .punct (charCode '-') .alone ⟨6, 7⟩]

/-- The second dot is joint, so the mark behind it touches it. The equals sign is not, although the
bracket behind it starts where it ends. -/
theorem guardedMarks_touch :
    (Assembly.ofEvents (guardedMarks.map .token)).result = .ok guardedMarksStream ∧
    (∃ next, guardedMarks[2]? = some next ∧
      Token.TouchedBy ⟨.mark 46, word ['.'], ⟨1, 2⟩⟩ next) ∧
    ¬ ∃ next, guardedMarks[3]? = some next ∧
      Token.TouchedBy ⟨.mark 61, word ['='], ⟨2, 3⟩⟩ next := by
  have success : (Assembly.ofEvents (guardedMarks.map .token)).result = .ok guardedMarksStream :=
    rfl
  obtain ⟨-, -, hints⟩ := joint_marks_touch guardedMarks guardedMarksStream success
  have atDot := (hints 1 ⟨.mark 46, word ['.'], ⟨1, 2⟩⟩ rfl (charCode '.') .joint ⟨1, 2⟩).mp rfl
  have atEquals := (hints 2 ⟨.mark 61, word ['='], ⟨2, 3⟩⟩ rfl (charCode '=') .alone ⟨2, 3⟩).mp rfl
  refine ⟨success, atDot.2.2.mp rfl, ?_⟩
  intro touched
  cases atEquals.2.2.mpr touched

end Unroll
