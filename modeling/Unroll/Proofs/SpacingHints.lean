import Unroll.Proofs.RepeatedSections
import Unroll.Proofs.TreeAssembly

set_option autoImplicit false

/-!
# Spacing hints

A hint says that punctuation touches the punctuation behind it, so there has to be some. The hints
of a parsed source are truthful, and copying keeps them: a chain never takes away the punctuation
behind other punctuation, and a copy never ends in a joint character. Filling in a section does take
away its marker. A joint character in front of the marker keeps its hint, which stays truthful only
if what is filled in, or what follows it, starts with punctuation.
-/

namespace Unroll

namespace Node

def IsJoint : Node → Prop
  | .punct _ .joint _ => True
  | _ => False

/-- A joint character has punctuation behind it. -/
def FitsBefore (node : Node) (rest : Stream) : Prop := node.IsJoint → rest.Punctuated

theorem isJoint_iff (node : Node) : node.IsJoint ↔ ∃ char span, node = .punct char .joint span := by
  unfold IsJoint
  split
  · exact iff_of_true trivial ⟨_, _, rfl⟩
  · rename_i notJoint
    exact iff_of_false id fun ⟨char, span, same⟩ => notJoint char span same

theorem FitsBefore.append {node : Node} {rest : Stream} (fits : node.FitsBefore rest)
    (more : Stream) : node.FitsBefore (rest ++ more) :=
  fun isJoint => (fits isJoint).append more

end Node

namespace Stream

/-- On every level, each joint character has punctuation behind it. -/
def Truthful (stream : Stream) : Prop :=
  ∀ level, stream.Level level → ∀ node rest, node :: rest <:+ level → node.FitsBefore rest

end Stream

def Node.Truthful : Node → Prop
  | .group _ children _ => Stream.Truthful children
  | _ => True

namespace Stream

theorem truthful_nil : Truthful [] := by
  intro level isLevel node rest isSuffix
  rw [isLevel.of_nil] at isSuffix
  cases List.suffix_nil.mp isSuffix

theorem truthful_cons_iff (node : Node) (rest : List Node) :
    Truthful (node :: rest) ↔ node.FitsBefore rest ∧ node.Truthful ∧ Truthful rest := by
  constructor
  · intro truthful
    refine ⟨truthful _ (.top _) node rest (List.suffix_refl _), ?_, ?_⟩
    · cases node with
      | ident | literal | punct => trivial
      | group delimiter children span =>
        intro level isLevel
        exact truthful level (.inside List.mem_cons_self isLevel)
    · intro level isLevel inner others isSuffix
      cases isLevel with
      | top => exact truthful _ (.top _) inner others (isSuffix.trans (List.suffix_cons _ _))
      | inside membership below =>
        exact truthful level (.inside (.tail _ membership) below) inner others isSuffix
  · rintro ⟨fits, inNode, inRest⟩ level isLevel inner others isSuffix
    rcases isLevel.of_cons with rfl | ⟨delimiter, children, span, rfl, below⟩ | below
    · rcases List.suffix_cons_iff.mp isSuffix with same | isSuffix
      · cases same
        exact fits
      · exact inRest rest (.top rest) inner others isSuffix
    · exact inNode level below inner others isSuffix
    · exact inRest level below inner others isSuffix

/-- A truthful stream does not end in a joint character, so it says nothing about what is added. -/
theorem Truthful.append_iff {first : Stream} (truthful : first.Truthful) (second : Stream) :
    Truthful (first ++ second) ↔ second.Truthful := by
  induction first with
  | nil => exact Iff.rfl
  | cons node rest inductionHypothesis =>
    obtain ⟨fits, inNode, inRest⟩ := (truthful_cons_iff _ _).mp truthful
    rw [List.cons_append, truthful_cons_iff, inductionHypothesis inRest]
    exact ⟨fun all => all.2.2, fun inSecond => ⟨fits.append second, inNode, inSecond⟩⟩

theorem Truthful.concat {stream : Stream} (truthful : stream.Truthful) {node : Node}
    (notJoint : ¬ node.IsJoint) (inNode : node.Truthful) : Truthful (stream ++ [node]) := by
  rw [truthful.append_iff, truthful_cons_iff]
  exact ⟨fun isJoint => absurd isJoint notJoint, inNode, truthful_nil⟩

/-- The last character may be given any hint if more punctuation is added behind it. -/
theorem Truthful.respace {front : Stream} {char : Int32} {spacing : Spacing} {span : Span}
    (truthful : Truthful (front ++ [.punct char spacing span])) (spacing' : Spacing)
    {last : Node} (isPunctuation : last.IsPunctuation) (notJoint : ¬ last.IsJoint)
    (inLast : last.Truthful) : Truthful (front ++ [.punct char spacing' span, last]) := by
  induction front with
  | nil =>
    have lastTruthful := truthful_nil.concat notJoint inLast
    exact (truthful_cons_iff _ _).mpr ⟨fun _ => ⟨last, rfl, isPunctuation⟩, trivial, lastTruthful⟩
  | cons node front inductionHypothesis =>
    obtain ⟨fits, inNode, inFront⟩ := (truthful_cons_iff _ _).mp truthful
    refine (truthful_cons_iff _ _).mpr ⟨?_, inNode, inductionHypothesis inFront⟩
    cases front with
    | nil => exact fun _ => ⟨_, rfl, trivial⟩
    | cons next front => exact fits

end Stream

/-! Reading a source. -/

namespace Assembly

theorem truthful_addLeaf (token : Token) (before : List Node)
    (truthful : Stream.Truthful before.reverse) :
    Stream.Truthful (addLeaf token before).reverse := by
  have withMark : ∀ kind : Kind, Stream.Truthful
      (.punct kind.number.toInt32 .alone token.span :: join token.span.start before).reverse := by
    intro kind
    unfold join
    split
    · rename_i char spacing span earlier
      rw [List.reverse_cons] at truthful
      rw [List.reverse_cons, List.reverse_cons, List.append_assoc]
      exact truthful.respace _ trivial id trivial
    · rw [List.reverse_cons]
      exact truthful.concat id trivial
  unfold addLeaf
  cases token.kind with
  | ident | int | float | string | char =>
    dsimp only
    rw [List.reverse_cons]
    exact truthful.concat id trivial
  | eof | opening | closing | mark => exact withMark _

theorem truthful_invariant : Invariant fun before => Stream.Truthful before.reverse where
  nil := Stream.truthful_nil
  leaf := truthful_addLeaf
  group := by
    intro bracket children before span inChildren inBefore
    rw [List.reverse_cons]
    exact inBefore.concat id inChildren

end Assembly

theorem Stream.truthful_of_parse {source : Bytes} {stream : Stream}
    (parsed : Stream.parse source = .ok stream) : stream.Truthful := by
  have truthful := Assembly.truthful_invariant.of_parse parsed
  rwa [List.reverse_reverse] at truthful

/-! Copying. -/

section Copying

variable {paste : Int32} {binding : Binding}

theorem Chain.not_isJoint_node (chain : Chain) : ¬ (chain.node binding).IsJoint := by
  unfold Chain.node
  split <;> exact id

theorem Node.FitsBefore.substitute {node : Node} {rest copy : Stream}
    (fits : node.FitsBefore rest) (copied : Stream.Substituted paste binding rest copy) :
    (node.substitute paste binding).FitsBefore copy := by
  intro isJoint
  obtain ⟨char, span, isCopy⟩ := (Node.isJoint_iff _).mp isJoint
  rw [Node.substitute_eq_punct isCopy] at fits
  obtain ⟨next, isNext, isPunctuation⟩ := fits trivial
  obtain ⟨_, _, _, rfl⟩ := (Node.isPunctuation_iff next).mp isPunctuation
  -- Punctuation is copied as it is, so the copy goes on with the same character.
  cases copied with
  | nil | chain => cases isNext
  | other noName copied =>
    cases isNext
    exact ⟨_, rfl, trivial⟩

theorem Stream.Truthful.substitute {stream : Stream} (truthful : stream.Truthful) :
    Truthful (Stream.substitute paste binding stream) := by
  intro level isLevel node rest isSuffix
  obtain ⟨inner, innerLevel, rfl⟩ := isLevel.of_substitute
  obtain ⟨original, originalSuffix, copied⟩ := (substituted paste binding inner).of_suffix isSuffix
  cases copied with
  | chain ends copied =>
    intro isJoint
    exact absurd isJoint (Chain.not_isJoint_node _)
  | other noName copied =>
    exact (truthful inner innerLevel _ _ originalSuffix).substitute copied

theorem Stream.Truthful.copies {body : Stream} (truthful : body.Truthful) (paste : Int32)
    (header : Header) : Truthful (Stream.copies paste header body) := by
  unfold Stream.copies
  induction header.range.values with
  | nil => exact truthful_nil
  | cons value values inductionHypothesis =>
    rw [List.flatMap_cons, truthful.substitute.append_iff]
    exact inductionHypothesis

end Copying

/-! Filling in. -/

namespace Skeleton

variable (filling : Stream → Stream)

/-- A leaf in front of a hole says the truth about what comes to stand behind it. -/
def Part.FitsBefore : Part → List Part → Prop
  | .leaf node, .hole body :: rest =>
    node.FitsBefore (Skeleton.filled filling (.hole body :: rest))
  | _, _ => True

mutual

def Part.KeepsHints : Part → Prop
  | .leaf _ | .hole _ => True
  | .group _ children _ => Skeleton.KeepsHints children

/-- On every level, what comes to stand behind a joint character in front of a hole is
punctuation. -/
def KeepsHints : List Part → Prop
  | [] => True
  | part :: rest => part.FitsBefore filling rest ∧ part.KeepsHints ∧ KeepsHints rest

end

variable {filling} {marker continuation : Int32}

/-- Only in front of a hole does filling in change what stands next. -/
theorem Cuts.fitsBefore_iff {skeleton : Skeleton} {node : Node} {rest : Stream}
    (behind : Cuts marker continuation skeleton rest) (fits : node.FitsBefore rest) :
    node.FitsBefore (Skeleton.filled filling skeleton) ↔
      (Part.leaf node).FitsBefore filling skeleton := by
  cases behind with
  | nil => exact iff_of_true fits trivial
  | hole => exact Iff.rfl
  | leaf => exact iff_of_true fits trivial
  | group =>
    refine iff_of_true (fun isJoint => ?_) trivial
    obtain ⟨next, isNext, isPunctuation⟩ := fits isJoint
    cases isNext
    cases isPunctuation

theorem Cuts.truthful_filled_iff {skeleton : Skeleton} {body : Stream}
    (cuts : Cuts marker continuation skeleton body)
    (fills : ∀ part : Stream, part.Truthful → Stream.Truthful (filling part))
    (truthful : body.Truthful) :
    Stream.Truthful (Skeleton.filled filling skeleton) ↔ KeepsHints filling skeleton := by
  induction cuts with
  | nil => exact iff_of_true Stream.truthful_nil trivial
  | hole opens behind inductionHypothesis =>
    obtain ⟨spacing, span, groupSpan, spacing', span', rfl⟩ := opens
    obtain ⟨-, -, truthful⟩ := (Stream.truthful_cons_iff _ _).mp truthful
    obtain ⟨-, inBody, truthful⟩ := (Stream.truthful_cons_iff _ _).mp truthful
    obtain ⟨-, -, inRest⟩ := (Stream.truthful_cons_iff _ _).mp truthful
    have fillingTruthful := fills _ inBody
    rw [Skeleton.filled, Part.filled, fillingTruthful.append_iff, inductionHypothesis inRest]
    simp [KeepsHints, Part.KeepsHints, Part.FitsBefore]
  | leaf isLeaf closed behind inductionHypothesis =>
    obtain ⟨fits, inNode, inRest⟩ := (Stream.truthful_cons_iff _ _).mp truthful
    rw [Skeleton.filled, Part.filled, List.singleton_append, Stream.truthful_cons_iff,
      Cuts.fitsBefore_iff behind fits, inductionHypothesis inRest]
    simp [KeepsHints, Part.KeepsHints, inNode]
  | group closed inside behind insideHypothesis behindHypothesis =>
    obtain ⟨-, inGroup, inRest⟩ := (Stream.truthful_cons_iff _ _).mp truthful
    rw [Skeleton.filled, Part.filled, List.singleton_append, Stream.truthful_cons_iff,
      behindHypothesis inRest, Node.Truthful, insideHypothesis inGroup]
    simp [KeepsHints, Part.KeepsHints, Part.FitsBefore, Node.FitsBefore, Node.IsJoint]

end Skeleton

theorem Loop.Written.truthful {header : Header} {body stream : Stream}
    (written : Loop.Written header body stream) (truthful : stream.Truthful) : body.Truthful := by
  obtain ⟨nodes, span, -, rfl⟩ := written
  intro level isLevel
  exact truthful level (.inside (List.mem_append_right nodes List.mem_cons_self) isLevel)

/-- What a loop makes of a truthful body is truthful exactly if filling in keeps the hints. -/
theorem Stream.Truthful.unrolled_iff {style : Style} {body : Stream} (truthful : body.Truthful)
    (header : Header) {skeleton : Skeleton}
    (cuts : Skeleton.Cuts style.marker style.continuation skeleton body) :
    Truthful (unrolled style header body) ↔
      Skeleton.KeepsHints (Stream.copies style.paste header) skeleton := by
  have filled_iff := cuts.truthful_filled_iff
    (fun part inPart => inPart.copies style.paste header) truthful
  rw [← cuts.fill_stream] at filled_iff
  by_cases holds : body.Holds (IsSection style.marker style.continuation)
  · rw [unrolled_of_holds holds]
    exact filled_iff
  · -- Without a section there is no hole, and the whole body is copied.
    have notFound : (Stream.fill style header body).found = false := by
      rw [← Bool.not_eq_true, fill_found_iff]
      exact holds
    rw [cuts.stream_eq_of_not_found style.paste header notFound] at filled_iff
    rw [unrolled_of_not_holds holds]
    exact iff_of_true (truthful.copies style.paste header) (filled_iff.mp truthful)

/-- The hints of a parsed source are truthful. Those of what a loop makes of truthful ones are
truthful exactly if punctuation comes to stand behind each joint character whose marker is taken
away. -/
theorem expansion_truthful_iff (style : Style) :
    (∀ source stream, Stream.parse source = .ok stream → stream.Truthful) ∧
    ∀ stream out, stream.Truthful → stream.expand style = .ok out →
      ∃ header body skeleton, Loop.Written header body stream ∧
        Skeleton.Cuts style.marker style.continuation skeleton body ∧
        (out.Truthful ↔ Skeleton.KeepsHints (Stream.copies style.paste header) skeleton) := by
  refine ⟨fun source stream => Stream.truthful_of_parse, ?_⟩
  intro stream out truthful expanded
  have outcome := Stream.expand_outcome style stream
  rw [expanded] at outcome
  obtain ⟨header, body, written, rfl⟩ := outcome
  obtain ⟨skeleton, cuts⟩ := Skeleton.exists_cuts style.marker style.continuation body
  exact ⟨header, body, skeleton, written, cuts, (written.truthful truthful).unrolled_iff header cuts⟩

/-- A loop that repeats a number directly behind a minus sign. -/
def signedLoop : Bytes :=
  word ['N', ' ', 'i', 'n', ' ', '0', '.', '.', '1', ' ', '\x7b', ' ', '-', '#', '(', 'N', ')', '*',
    ' ', '\x7d']

def signedLoopStream : Stream :=
  [.ident (word ['N']) ⟨0, 1⟩, .ident (word ['i', 'n']) ⟨2, 4⟩, .literal .int (word ['0']) ⟨5, 6⟩,
    .punct (charCode '.') .joint ⟨6, 7⟩, .punct (charCode '.') .alone ⟨7, 8⟩,
    .literal .int (word ['1']) ⟨8, 9⟩,
    .group .curly [.punct (charCode '-') .joint ⟨12, 13⟩, .punct (charCode '#') .alone ⟨13, 14⟩,
      .group .round [.ident (word ['N']) ⟨15, 16⟩] ⟨14, 17⟩,
      .punct (charCode '*') .alone ⟨17, 18⟩] ⟨10, 20⟩]

/-- The sign is still joint, although its neighbour has become a number. -/
def signedExpansion : Stream :=
  [.punct (charCode '-') .joint ⟨12, 13⟩, .literal .int (word ['0']) ⟨15, 16⟩]

theorem signedExpansion_not_truthful :
    Stream.parse signedLoop = .ok signedLoopStream ∧ signedLoopStream.Truthful ∧
      signedLoopStream.expand {} = .ok signedExpansion ∧ ¬ signedExpansion.Truthful ∧
      ∃ header body skeleton, Loop.Written header body signedLoopStream ∧
        Skeleton.Cuts (charCode '#') (charCode '*') skeleton body ∧
        ¬ Skeleton.KeepsHints (Stream.copies (charCode '~') header) skeleton := by
  have parsed : Stream.parse signedLoop = .ok signedLoopStream := by with_unfolding_all rfl
  have expanded : signedLoopStream.expand {} = .ok signedExpansion := by with_unfolding_all rfl
  have inSource := (expansion_truthful_iff {}).1 _ _ parsed
  have notTruthful : ¬ signedExpansion.Truthful := by
    intro truthful
    obtain ⟨next, isNext, isPunctuation⟩ := truthful _ (.top _) _ _ (List.suffix_refl _) trivial
    cases isNext
    exact isPunctuation
  obtain ⟨header, body, skeleton, written, cuts, truthful_iff⟩ :=
    (expansion_truthful_iff {}).2 _ _ inSource expanded
  exact ⟨parsed, inSource, expanded, notTruthful, header, body, skeleton, written, cuts,
    mt truthful_iff.mpr notTruthful⟩

end Unroll
