import Unroll.Proofs.Invocations

set_option autoImplicit false

/-!
# Runs of splicing

A run of splicing reads a stream from left to right. If it comes to an end, it has put together a
patchwork: nodes that were kept, and in the place of each invocation the patchwork that its output
became. If it does not, it stopped at an invocation, because the generator refused the input or
because there was no level left. Splicing with so many levels ends as the run with so many levels
does. A run that ends, or that a generator stops, is the same run with more levels.
-/

namespace Unroll

/-- A part of a patchwork: a leaf, a group around a patchwork, or the patchwork inserted for an
invocation. -/
inductive Patch where
  | leaf (node : Node)
  | group (delimiter : Delimiter) (children : List Patch) (span : Span)
  | insertion (patches : List Patch)

abbrev Patchwork := List Patch

mutual

def Patch.nodes : Patch → Stream
  | .leaf node => [node]
  | .group delimiter children span => [.group delimiter (Patchwork.nodes children) span]
  | .insertion patches => Patchwork.nodes patches

/-- The stream that a patchwork makes. -/
def Patchwork.nodes : List Patch → Stream
  | [] => []
  | patch :: rest => patch.nodes ++ Patchwork.nodes rest

end

/-- Why a run stops: a generator returns a fault, or an invocation is found with no level left. -/
inductive Failure where
  | refused (fault : Fault)
  | tooDeep (span : Span)

def Failure.fault (limit : Int) : Failure → Fault
  | .refused fault => fault
  | .tooDeep span => .diagnosed span (.tooDeep limit)

namespace Stream

/-- The runs that come to an end with so many levels. -/
inductive Splices (table : Generators) : Nat → Stream → Patchwork → Prop
  | nil {levels : Nat} : Splices table levels [] []
  | leaf {levels : Nat} {node : Node} {rest : Stream} {patches : Patchwork} (isLeaf : node.IsLeaf)
      (noInvocation : ¬ Stream.Opens (IsInvocation table) (node :: rest))
      (behind : Splices table levels rest patches) :
      Splices table levels (node :: rest) (.leaf node :: patches)
  | group {levels : Nat} {delimiter : Delimiter} {children rest : Stream} {span : Span}
      {inner patches : Patchwork} (inside : Splices table levels children inner)
      (behind : Splices table levels rest patches) :
      Splices table levels (.group delimiter children span :: rest)
        (.group delimiter inner span :: patches)
  | invocation {levels : Nat} {first second third : Node} {rest generated : Stream}
      {invocation : Invocation} {inner patches : Patchwork}
      (found : Invocation.ofNodes? table first second third = some invocation)
      (generates : invocation.generator invocation.arguments = .ok generated)
      (output : Splices table levels generated inner)
      (behind : Splices table (levels + 1) (invocation.behind rest) patches) :
      Splices table (levels + 1) (first :: second :: third :: rest) (.insertion inner :: patches)

/-- The runs that stop with so many levels: everything to the left of the place is spliced. -/
inductive Stops (table : Generators) : Nat → Stream → Failure → Prop
  | behindLeaf {levels : Nat} {node : Node} {rest : Stream} {failure : Failure}
      (isLeaf : node.IsLeaf) (noInvocation : ¬ Stream.Opens (IsInvocation table) (node :: rest))
      (behind : Stops table levels rest failure) : Stops table levels (node :: rest) failure
  | insideGroup {levels : Nat} {delimiter : Delimiter} {children rest : Stream} {span : Span}
      {failure : Failure} (inside : Stops table levels children failure) :
      Stops table levels (.group delimiter children span :: rest) failure
  | behindGroup {levels : Nat} {delimiter : Delimiter} {children rest : Stream} {span : Span}
      {inner : Patchwork} {failure : Failure} (inside : Splices table levels children inner)
      (behind : Stops table levels rest failure) :
      Stops table levels (.group delimiter children span :: rest) failure
  | noLevel {first second third : Node} {rest : Stream} {invocation : Invocation}
      (found : Invocation.ofNodes? table first second third = some invocation) :
      Stops table 0 (first :: second :: third :: rest) (.tooDeep invocation.span)
  | refusal {levels : Nat} {first second third : Node} {rest : Stream} {invocation : Invocation}
      {fault : Fault} (found : Invocation.ofNodes? table first second third = some invocation)
      (refuses : invocation.generator invocation.arguments = .error fault) :
      Stops table (levels + 1) (first :: second :: third :: rest) (.refused fault)
  | insideOutput {levels : Nat} {first second third : Node} {rest generated : Stream}
      {invocation : Invocation} {failure : Failure}
      (found : Invocation.ofNodes? table first second third = some invocation)
      (generates : invocation.generator invocation.arguments = .ok generated)
      (output : Stops table levels generated failure) :
      Stops table (levels + 1) (first :: second :: third :: rest) failure
  | behindOutput {levels : Nat} {first second third : Node} {rest generated : Stream}
      {invocation : Invocation} {inner : Patchwork} {failure : Failure}
      (found : Invocation.ofNodes? table first second third = some invocation)
      (generates : invocation.generator invocation.arguments = .ok generated)
      (output : Splices table levels generated inner)
      (behind : Stops table (levels + 1) (invocation.behind rest) failure) :
      Stops table (levels + 1) (first :: second :: third :: rest) failure

end Stream

variable {table : Generators}

/-- What an invocation is replaced by with so many levels left. -/
def Invocation.output (table : Generators) (limit : Int) : (levels : Nat) → Invocation →
    Except Fault Stream
  | 0, invocation => .error (.diagnosed invocation.span (.tooDeep limit))
  | levels + 1, invocation => do
    let generated ← invocation.generator invocation.arguments
    Stream.spliceLevels table limit levels generated

theorem Invocation.output_of_generates {invocation : Invocation} {generated : Stream}
    (generates : invocation.generator invocation.arguments = .ok generated) (limit : Int)
    (levels : Nat) :
    invocation.output table limit (levels + 1) =
      Stream.spliceLevels table limit levels generated := by
  rw [output, generates]
  rfl

theorem Stream.not_opens_invocation_group (delimiter : Delimiter) (children : Stream) (span : Span)
    (rest : List Node) :
    ¬ Stream.Opens (IsInvocation table) (.group delimiter children span :: rest) := by
  intro opens
  obtain ⟨name, -, nameSpan, isName⟩ := opens.ident_of_invocationOf
  cases isName

namespace Stream

variable (limit : Int) (levels : Nat)

theorem spliceLevels_eq_spliceWith (stream : Stream) :
    Stream.spliceLevels table limit levels stream =
      Stream.spliceWith table (Invocation.output table limit levels) stream := by
  cases levels <;> rfl

theorem spliceLevels_nil : Stream.spliceLevels table limit levels [] = .ok [] := by
  rw [spliceLevels_eq_spliceWith, Stream.spliceWith]

theorem spliceLevels_leaf {node : Node} {rest : Stream} (isLeaf : node.IsLeaf)
    (noInvocation : ¬ Stream.Opens (IsInvocation table) (node :: rest)) :
    Stream.spliceLevels table limit levels (node :: rest) =
      (Stream.spliceLevels table limit levels rest).map (node :: ·) := by
  have kept (replace : Invocation → Except Fault Stream) :
      node.spliceWith table replace = .ok node :=
    Node.spliceWith_of_not_holds replace node (isLeaf.not_holds _)
  simp only [spliceLevels_eq_spliceWith]
  rw [Stream.spliceWith_cons noInvocation, kept]
  rfl

theorem spliceLevels_group (delimiter : Delimiter) (children : Stream) (span : Span)
    (rest : Stream) :
    Stream.spliceLevels table limit levels (.group delimiter children span :: rest) = do
      let inner ← Stream.spliceLevels table limit levels children
      return .group delimiter inner span :: (← Stream.spliceLevels table limit levels rest) := by
  simp only [spliceLevels_eq_spliceWith]
  rw [Stream.spliceWith_cons (Stream.not_opens_invocation_group _ _ _ _), Node.spliceWith]
  cases Stream.spliceWith table (Invocation.output table limit levels) children <;> rfl

theorem spliceLevels_invocation {first second third : Node} {invocation : Invocation}
    (found : Invocation.ofNodes? table first second third = some invocation) (rest : Stream) :
    Stream.spliceLevels table limit levels (first :: second :: third :: rest) = do
      let output ← invocation.output table limit levels
      return output ++ (← Stream.spliceLevels table limit levels (invocation.behind rest)) := by
  simp only [spliceLevels_eq_spliceWith]
  exact Stream.spliceWith_invocation found rest

end Stream

namespace Stream

variable {levels : Nat} {stream : Stream} {patches : Patchwork} {failure : Failure}

theorem Splices.spliceLevels_eq (splices : Splices table levels stream patches) (limit : Int) :
    Stream.spliceLevels table limit levels stream = .ok (Patchwork.nodes patches) := by
  induction splices with
  | nil => exact spliceLevels_nil limit _
  | leaf isLeaf noInvocation behind behindSpliced =>
    rw [spliceLevels_leaf limit _ isLeaf noInvocation, behindSpliced]
    rfl
  | group inside behind insideSpliced behindSpliced =>
    rw [spliceLevels_group, insideSpliced, behindSpliced]
    rfl
  | invocation found generates output behind outputSpliced behindSpliced =>
    rw [spliceLevels_invocation limit _ found, Invocation.output_of_generates generates,
      outputSpliced, behindSpliced]
    rfl

theorem Stops.spliceLevels_eq (stops : Stops table levels stream failure) (limit : Int) :
    Stream.spliceLevels table limit levels stream = .error (failure.fault limit) := by
  induction stops with
  | behindLeaf isLeaf noInvocation behind behindStopped =>
    rw [spliceLevels_leaf limit _ isLeaf noInvocation, behindStopped]
    rfl
  | insideGroup inside insideStopped =>
    rw [spliceLevels_group, insideStopped]
    rfl
  | behindGroup inside behind behindStopped =>
    rw [spliceLevels_group, inside.spliceLevels_eq, behindStopped]
    rfl
  | noLevel found =>
    rw [spliceLevels_invocation limit _ found]
    rfl
  | refusal found refuses =>
    rw [spliceLevels_invocation limit _ found, Invocation.output, refuses]
    rfl
  | insideOutput found generates output outputStopped =>
    rw [spliceLevels_invocation limit _ found, Invocation.output_of_generates generates,
      outputStopped]
    rfl
  | behindOutput found generates output behind behindStopped =>
    rw [spliceLevels_invocation limit _ found, Invocation.output_of_generates generates,
      output.spliceLevels_eq, behindStopped]
    rfl

variable (table) in
theorem splices_or_stops (levels : Nat) (stream : Stream) :
    (∃ patches, Splices table levels stream patches) ∨
      ∃ failure, Stops table levels stream failure := by
  cases stream with
  | nil => exact .inl ⟨[], .nil⟩
  | cons node rest =>
    by_cases opens : Stream.Opens (IsInvocation table) (node :: rest)
    · obtain ⟨first, second, third, others, invocation, found, isCall⟩ :=
        (opens_invocation_iff table _).mp opens
      rw [isCall]
      cases levels with
      | zero => exact .inr ⟨_, .noLevel found⟩
      | succ levels =>
        cases generates : invocation.generator invocation.arguments with
        | error fault => exact .inr ⟨_, .refusal found generates⟩
        | ok generated =>
          rcases splices_or_stops levels generated with ⟨inner, output⟩ | ⟨failure, output⟩
          · rcases splices_or_stops (levels + 1) (invocation.behind others) with
              ⟨patches, behind⟩ | ⟨failure, behind⟩
            · exact .inl ⟨_, .invocation found generates output behind⟩
            · exact .inr ⟨failure, .behindOutput found generates output behind⟩
          · exact .inr ⟨failure, .insideOutput found generates output⟩
    · cases node with
      | ident | literal | punct =>
        rcases splices_or_stops levels rest with ⟨patches, behind⟩ | ⟨failure, behind⟩
        · exact .inl ⟨_, .leaf trivial opens behind⟩
        · exact .inr ⟨failure, .behindLeaf trivial opens behind⟩
      | group delimiter children span =>
        rcases splices_or_stops levels children with ⟨inner, inside⟩ | ⟨failure, inside⟩
        · rcases splices_or_stops levels rest with ⟨patches, behind⟩ | ⟨failure, behind⟩
          · exact .inl ⟨_, .group inside behind⟩
          · exact .inr ⟨failure, .behindGroup inside behind⟩
        · exact .inr ⟨failure, .insideGroup inside⟩
termination_by (levels, sizeOf stream)
decreasing_by
  · subst_vars
    exact .left _ _ (Nat.lt_succ_self levels)
  · subst_vars
    apply Prod.Lex.right
    have shorter := Stream.sizeOf_le_of_suffix (invocation.behind_suffix others)
    rw [isCall]
    simp only [List.cons.sizeOf_spec]
    omega
  all_goals
    apply Prod.Lex.right
    simp only [List.cons.sizeOf_spec, Node.group.sizeOf_spec]
    omega

theorem spliceLevels_eq_ok_iff (limit : Int) (out : Stream) :
    Stream.spliceLevels table limit levels stream = .ok out ↔
      ∃ patches, Splices table levels stream patches ∧ Patchwork.nodes patches = out := by
  constructor
  · intro spliced
    rcases splices_or_stops table levels stream with ⟨patches, splices⟩ | ⟨failure, stops⟩
    · rw [splices.spliceLevels_eq limit, Except.ok.injEq] at spliced
      exact ⟨patches, splices, spliced⟩
    · rw [stops.spliceLevels_eq limit] at spliced
      cases spliced
  · rintro ⟨patches, splices, rfl⟩
    exact splices.spliceLevels_eq limit

theorem spliceLevels_eq_error_iff (limit : Int) (fault : Fault) :
    Stream.spliceLevels table limit levels stream = .error fault ↔
      ∃ failure, Stops table levels stream failure ∧ failure.fault limit = fault := by
  constructor
  · intro spliced
    rcases splices_or_stops table levels stream with ⟨patches, splices⟩ | ⟨failure, stops⟩
    · rw [splices.spliceLevels_eq limit] at spliced
      cases spliced
    · rw [stops.spliceLevels_eq limit, Except.error.injEq] at spliced
      exact ⟨failure, stops, spliced⟩
  · rintro ⟨failure, stops, rfl⟩
    exact stops.spliceLevels_eq limit

/-- A level more changes nothing in a run that ends. -/
theorem Splices.succ (splices : Splices table levels stream patches) :
    Splices table (levels + 1) stream patches := by
  induction splices with
  | nil => exact .nil
  | leaf isLeaf noInvocation behind behindSplices => exact .leaf isLeaf noInvocation behindSplices
  | group inside behind insideSplices behindSplices => exact .group insideSplices behindSplices
  | invocation found generates output behind outputSplices behindSplices =>
    exact .invocation found generates outputSplices behindSplices

theorem Splices.mono (splices : Splices table levels stream patches) {more : Nat}
    (enough : levels ≤ more) : Splices table more stream patches := by
  induction enough with
  | refl => exact splices
  | step _ inductionHypothesis => exact inductionHypothesis.succ

/-- With a level more a run gets to the generator that stops it in the same way. -/
theorem Stops.succ_refused {fault : Fault} (stops : Stops table levels stream (.refused fault)) :
    Stops table (levels + 1) stream (.refused fault) := by
  generalize isRefusal : Failure.refused fault = failure at stops ⊢
  induction stops with
  | behindLeaf isLeaf noInvocation behind behindStops =>
    exact .behindLeaf isLeaf noInvocation (behindStops isRefusal)
  | insideGroup inside insideStops => exact .insideGroup (insideStops isRefusal)
  | behindGroup inside behind behindStops => exact .behindGroup inside.succ (behindStops isRefusal)
  | noLevel => cases isRefusal
  | refusal found refuses => exact .refusal found refuses
  | insideOutput found generates output outputStops =>
    exact .insideOutput found generates (outputStops isRefusal)
  | behindOutput found generates output behind behindStops =>
    exact .behindOutput found generates output.succ (behindStops isRefusal)

theorem Stops.mono_refused {fault : Fault} (stops : Stops table levels stream (.refused fault))
    {more : Nat} (enough : levels ≤ more) : Stops table more stream (.refused fault) := by
  induction enough with
  | refl => exact stops
  | step _ inductionHypothesis => exact inductionHypothesis.succ_refused

/-- Only a registered generator refuses. -/
theorem Stops.exists_refusal {fault : Fault} (stops : Stops table levels stream (.refused fault)) :
    ∃ name generator input, table.get? name = some generator ∧ generator input = .error fault := by
  generalize isRefusal : Failure.refused fault = failure at stops
  induction stops with
  | behindLeaf _ _ _ inRest | behindGroup _ _ inRest | behindOutput _ _ _ _ inRest =>
    exact inRest isRefusal
  | insideGroup _ inChildren => exact inChildren isRefusal
  | insideOutput _ _ _ inOutput => exact inOutput isRefusal
  | noLevel => cases isRefusal
  | refusal found refuses =>
    cases isRefusal
    obtain ⟨name, _, _, _, _, registered, -⟩ := Invocation.shape_of_ofNodes? found
    exact ⟨name, _, _, registered, refuses⟩

end Stream

end Unroll
