import Mathlib.Data.Set.Defs
import Unroll.Invocation
import Unroll.Proofs.Levels

set_option autoImplicit false

/-!
# Invocations

Splicing goes from node to node: an invocation is replaced, together with a semicolon that belongs
to it, and every other node is kept. A stream that holds no invocation on any level is spliced to
itself, whatever the limit.
-/

namespace Unroll

/-- One of the given names, an exclamation mark and a group. -/
def IsInvocationOf (names : Set Bytes) : List Node → Prop
  | [.ident name _, .punct char _ _, .group _ _ _] => char = charCode '!' ∧ name ∈ names
  | _ => False

theorem isInvocationOf_iff (names : Set Bytes) (nodes : List Node) :
    IsInvocationOf names nodes ↔
      ∃ name ∈ names, ∃ span spacing markSpan delimiter arguments groupSpan,
        nodes = [.ident name span, .punct (charCode '!') spacing markSpan,
          .group delimiter arguments groupSpan] := by
  constructor
  · intro isInvocation
    unfold IsInvocationOf at isInvocation
    split at isInvocation
    · obtain ⟨rfl, named⟩ := isInvocation
      exact ⟨_, named, _, _, _, _, _, _, rfl⟩
    · cases isInvocation
  · rintro ⟨name, named, span, spacing, markSpan, delimiter, arguments, groupSpan, rfl⟩
    exact ⟨rfl, named⟩

theorem IsInvocationOf.mono {names larger : Set Bytes} (included : ∀ name ∈ names, name ∈ larger)
    {nodes : List Node} (isInvocation : IsInvocationOf names nodes) :
    IsInvocationOf larger nodes := by
  obtain ⟨name, named, shape⟩ := (isInvocationOf_iff _ _).mp isInvocation
  exact (isInvocationOf_iff _ _).mpr ⟨name, included name named, shape⟩

/-- A stream that begins with one of the names begins with an identifier. -/
theorem Stream.Opens.ident_of_invocationOf {names : Set Bytes} {node : Node} {rest : Stream}
    (opens : Stream.Opens (IsInvocationOf names) (node :: rest)) :
    ∃ name ∈ names, ∃ span, node = .ident name span := by
  obtain ⟨call, isInvocation, isPrefix⟩ := opens
  obtain ⟨name, named, span, _, _, _, _, _, rfl⟩ := (isInvocationOf_iff _ _).mp isInvocation
  exact ⟨name, named, span, (List.cons_prefix_cons.mp isPrefix).1.symm⟩

/-- The names under which a generator is registered. -/
def Generators.names (table : Generators) : Set Bytes := {name | (table.get? name).isSome = true}

theorem Generators.mem_names_iff (table : Generators) (name : Bytes) :
    name ∈ table.names ↔ ∃ generator, table.get? name = some generator :=
  Option.isSome_iff_exists

/-- The name of a registered generator, an exclamation mark and a group. -/
def IsInvocation (table : Generators) : List Node → Prop := IsInvocationOf table.names

theorem isInvocation_iff (table : Generators) (nodes : List Node) :
    IsInvocation table nodes ↔ ∃ name generator, table.get? name = some generator ∧
      ∃ span spacing markSpan delimiter arguments groupSpan,
        nodes = [.ident name span, .punct (charCode '!') spacing markSpan,
          .group delimiter arguments groupSpan] := by
  rw [IsInvocation, isInvocationOf_iff]
  simp only [Generators.mem_names_iff, exists_and_right]

/-- A table with one generator finds no other. -/
theorem Generators.eq_of_get?_register {name own : Bytes} {generator found : Generator}
    (registered : (register name generator []).get? own = some found) : found = generator := by
  obtain ⟨front, back, isTable, -⟩ := List.lookup_eq_some_iff.mp registered
  have membership : (own, found) ∈ register name generator [] := by
    rw [isTable]
    exact List.mem_append_right _ List.mem_cons_self
  cases List.mem_singleton.mp membership
  rfl

namespace Invocation

variable {table : Generators}

theorem shape_of_ofNodes? {first second third : Node} {invocation : Invocation}
    (found : ofNodes? table first second third = some invocation) :
    ∃ name span spacing markSpan groupSpan, table.get? name = some invocation.generator ∧
      first = .ident name span ∧ second = .punct (charCode '!') spacing markSpan ∧
        third = .group invocation.delimiter invocation.arguments groupSpan := by
  unfold ofNodes? at found
  split at found
  · rename_i name span delimiter children groupSpan
    rw [Option.ite_none_right_eq_some] at found
    obtain ⟨isMark, found⟩ := found
    obtain ⟨generator, registered, rfl⟩ := Option.map_eq_some_iff.mp found
    obtain ⟨spacing, markSpan, rfl⟩ := Node.eq_punct_of_isPunct isMark
    exact ⟨name, span, spacing, markSpan, groupSpan, registered, rfl, rfl, rfl⟩
  · cases found

theorem isInvocation_of_ofNodes? {first second third : Node} {invocation : Invocation}
    (found : ofNodes? table first second third = some invocation) :
    IsInvocation table [first, second, third] := by
  obtain ⟨name, span, spacing, markSpan, groupSpan, registered, rfl, rfl, rfl⟩ :=
    shape_of_ofNodes? found
  exact ⟨rfl, Option.isSome_of_eq_some registered⟩

theorem ofNodes?_eq_some {name : Bytes} {generator : Generator}
    (registered : table.get? name = some generator) (span : Span) (spacing : Spacing)
    (markSpan : Span) (delimiter : Delimiter) (children : Stream) (groupSpan : Span) :
    ofNodes? table (.ident name span) (.punct (charCode '!') spacing markSpan)
        (.group delimiter children groupSpan) =
      some ⟨generator, delimiter, children, span.extend groupSpan⟩ := by
  simp [ofNodes?, Node.isPunct, registered]

/-- What stands behind an invocation and a semicolon that belongs to it. -/
def behind (invocation : Invocation) : List Node → List Node
  | [] => []
  | node :: rest => if invocation.ownsSemicolon node then rest else node :: rest

theorem behind_cases (invocation : Invocation) (rest : List Node) :
    invocation.behind rest = rest ∨
      ∃ spacing span, rest = .punct (charCode ';') spacing span :: invocation.behind rest := by
  cases rest with
  | nil => exact .inl rfl
  | cons node rest =>
    rw [behind]
    split
    · rename_i owned
      rw [ownsSemicolon, Bool.and_eq_true] at owned
      obtain ⟨spacing, span, rfl⟩ := Node.eq_punct_of_isPunct owned.2
      exact .inr ⟨spacing, span, rfl⟩
    · exact .inl rfl

theorem behind_suffix (invocation : Invocation) (rest : List Node) :
    invocation.behind rest <:+ rest := by
  rcases invocation.behind_cases rest with same | ⟨spacing, span, isRest⟩
  · rw [same]
  · exact ⟨[.punct (charCode ';') spacing span], isRest.symm⟩

end Invocation

namespace Stream

theorem opens_invocation_iff (table : Generators) (stream : Stream) :
    stream.Opens (IsInvocation table) ↔ ∃ first second third rest invocation,
      Invocation.ofNodes? table first second third = some invocation ∧
        stream = first :: second :: third :: rest := by
  constructor
  · rintro ⟨nodes, isInvocation, rest, rfl⟩
    obtain ⟨name, generator, registered, span, spacing, markSpan, delimiter, arguments, groupSpan,
      rfl⟩ := (isInvocation_iff _ _).mp isInvocation
    exact ⟨_, _, _, rest, _, Invocation.ofNodes?_eq_some registered span spacing markSpan delimiter
      arguments groupSpan, rfl⟩
  · rintro ⟨first, second, third, rest, invocation, found, rfl⟩
    exact ⟨_, Invocation.isInvocation_of_ofNodes? found, List.prefix_append _ rest⟩

end Stream

namespace Stream

variable {table : Generators} {replace : Invocation → Except Fault Stream}

theorem spliceWith_invocation {first second third : Node} {invocation : Invocation}
    (found : Invocation.ofNodes? table first second third = some invocation) (rest : List Node) :
    Stream.spliceWith table replace (first :: second :: third :: rest) = do
      let output ← replace invocation
      return output ++ (← Stream.spliceWith table replace (invocation.behind rest)) := by
  rw [Stream.spliceWith, found]
  cases rest with
  | nil =>
    simp only [Invocation.behind, Stream.spliceWith]
    cases replace invocation with
    | ok output => exact congrArg Except.ok (List.append_nil output).symm
    | error fault => rfl
  | cons fourth rest =>
    simp only [Invocation.behind]
    split <;> rfl

theorem spliceWith_cons {node : Node} {rest : List Node}
    (noInvocation : ¬ Stream.Opens (IsInvocation table) (node :: rest)) :
    Stream.spliceWith table replace (node :: rest) = do
      let node ← node.spliceWith table replace
      return node :: (← Stream.spliceWith table replace rest) := by
  match rest with
  | [] | [_] => simp only [Stream.spliceWith]
  | second :: third :: others =>
    cases found : Invocation.ofNodes? table node second third with
    | some invocation =>
      exact absurd ⟨_, Invocation.isInvocation_of_ofNodes? found, List.prefix_append _ others⟩
        noInvocation
    | none => rw [Stream.spliceWith, found]

/-- Parts that are spliced one by one, whatever follows, are spliced one behind the other. -/
theorem spliceWith_flatMap {α : Type} {values : List α} {part output : α → Stream}
    (spliced : ∀ value ∈ values, ∀ rest, Stream.spliceWith table replace (part value ++ rest) =
      (Stream.spliceWith table replace rest).map (output value ++ ·)) :
    Stream.spliceWith table replace (values.flatMap part) = .ok (values.flatMap output) := by
  induction values with
  | nil => rfl
  | cons value values inductionHypothesis =>
    have behind := inductionHypothesis fun value membership => spliced value (.tail _ membership)
    rw [List.flatMap_cons, spliced value List.mem_cons_self, behind]
    rfl

end Stream

mutual

theorem Node.spliceWith_of_not_holds {table : Generators}
    (replace : Invocation → Except Fault Stream) (node : Node)
    (notHolds : ¬ node.Holds (IsInvocation table)) : node.spliceWith table replace = .ok node := by
  cases node with
  | ident | literal | punct => rfl
  | group delimiter children span =>
    rw [Node.spliceWith, Stream.spliceWith_of_not_holds replace children notHolds]
    rfl

theorem Stream.spliceWith_of_not_holds {table : Generators}
    (replace : Invocation → Except Fault Stream) (stream : List Node)
    (notHolds : ¬ Stream.Holds (IsInvocation table) stream) :
    Stream.spliceWith table replace stream = .ok stream := by
  cases stream with
  | nil => rfl
  | cons node rest =>
    rw [Stream.holds_cons_iff, not_or, not_or] at notHolds
    obtain ⟨noInvocation, notInNode, notInRest⟩ := notHolds
    rw [Stream.spliceWith_cons noInvocation, Node.spliceWith_of_not_holds replace node notInNode,
      Stream.spliceWith_of_not_holds replace rest notInRest]
    rfl

end

namespace Stream

theorem spliceLevels_of_not_holds {table : Generators} {stream : Stream}
    (notHolds : ¬ stream.Holds (IsInvocation table)) (limit : Int) (levels : Nat) :
    Stream.spliceLevels table limit levels stream = .ok stream := by
  cases levels <;> exact Stream.spliceWith_of_not_holds _ stream notHolds

/-- An invocation has an exclamation mark. -/
theorem Holds.mark_of_invocation {table : Generators} {stream : Stream}
    (holds : stream.Holds (IsInvocation table)) : stream.Holds (IsPunct (charCode '!')) := by
  apply holds.mono
  intro nodes isInvocation
  obtain ⟨name, generator, -, span, spacing, markSpan, delimiter, arguments, groupSpan, rfl⟩ :=
    (isInvocation_iff _ _).mp isInvocation
  exact ⟨[.punct (charCode '!') spacing markSpan], rfl, [_], [_], rfl⟩

end Stream

end Unroll
