import Unroll.Proofs.SplicingRuns

set_option autoImplicit false

/-!
# Depth limits

The limit decides whether splicing ends, and never what it ends with. Generators whose output always
invokes one of them again are stopped by every limit, if the invocation is not an argument of
another one: only such an invocation is left alone.
-/

namespace Unroll

namespace Stream

variable {table : Generators} {levels : Nat} {stream : Stream} {patches : Patchwork}

/-- Without a level only a stream without invocations is spliced. -/
theorem Splices.not_holds_of_no_level (splices : Splices table 0 stream patches) :
    ¬ stream.Holds (IsInvocation table) := by
  generalize noLevel : 0 = levels at splices
  induction splices with
  | nil => exact mt holds_nil_iff.mp id
  | leaf isLeaf noInvocation behind notBehind =>
    rw [holds_cons_iff]
    rintro (opens | inNode | inRest)
    · exact noInvocation opens
    · exact isLeaf.not_holds _ inNode
    · exact notBehind noLevel inRest
  | group inside behind notInside notBehind =>
    rw [holds_cons_iff]
    rintro (opens | inNode | inRest)
    · exact not_opens_invocation_group _ _ _ _ opens
    · exact notInside noLevel inNode
    · exact notBehind noLevel inRest
  | invocation => cases noLevel

theorem splice_eq_ok_iff (limit : Int) (out : Stream) :
    stream.splice table limit = .ok out ↔
      ∃ patches, Splices table limit.toNat stream patches ∧ Patchwork.nodes patches = out :=
  spliceLevels_eq_ok_iff limit out

theorem splice_eq_error_iff (limit : Int) (fault : Fault) :
    stream.splice table limit = .error fault ↔
      ∃ failure, Stops table limit.toNat stream failure ∧ failure.fault limit = fault :=
  spliceLevels_eq_error_iff limit fault

theorem splice_mono {limit larger : Int} {out : Stream} (enough : limit ≤ larger)
    (spliced : stream.splice table limit = .ok out) : stream.splice table larger = .ok out := by
  obtain ⟨patches, splices, rfl⟩ := (splice_eq_ok_iff limit out).mp spliced
  exact (splices.mono (Int.toNat_le_toNat enough)).spliceLevels_eq larger

theorem splice_no_level_iff {limit : Int} (noLevel : limit ≤ 0) :
    (∃ out, stream.splice table limit = .ok out) ↔ ¬ stream.Holds (IsInvocation table) := by
  constructor
  · rintro ⟨out, spliced⟩
    obtain ⟨patches, splices, -⟩ := (splice_eq_ok_iff limit out).mp spliced
    rw [Int.toNat_of_nonpos noLevel] at splices
    exact splices.not_holds_of_no_level
  · intro notHolds
    exact ⟨stream, spliceLevels_of_not_holds notHolds limit limit.toNat⟩

end Stream

/-- The limits under which a stream is spliced are all those from some limit on, with one result;
not above zero, they are those of a stream without invocations. A run that fails was stopped by a
generator or by the limit, and what a generator stops it stops under every larger limit. -/
theorem limit_decides_success_only (table : Generators) (stream : Stream) :
    (∀ limit larger out, limit ≤ larger → stream.splice table limit = .ok out →
      stream.splice table larger = .ok out) ∧
    (∀ limit limit' out out', stream.splice table limit = .ok out →
      stream.splice table limit' = .ok out' → out = out') ∧
    (∀ limit : Int, limit ≤ 0 →
      ((∃ out, stream.splice table limit = .ok out) ↔ ¬ stream.Holds (IsInvocation table))) ∧
    (∀ limit fault, stream.splice table limit = .error fault ↔
      stream.Stops table limit.toNat (.refused fault) ∨
        ∃ span, stream.Stops table limit.toNat (.tooDeep span) ∧
          fault = .diagnosed span (.tooDeep limit)) ∧
    ∀ limit larger fault, limit ≤ larger → stream.Stops table limit.toNat (.refused fault) →
      stream.splice table limit = .error fault ∧ stream.splice table larger = .error fault := by
  refine ⟨fun _ _ _ => Stream.splice_mono, ?_, fun _ => Stream.splice_no_level_iff, ?_, ?_⟩
  · intro limit limit' out out' spliced spliced'
    -- Both results are the result under the larger one of the two limits.
    have larger := Stream.splice_mono (Int.le_max_left limit limit') spliced
    have larger' := Stream.splice_mono (Int.le_max_right limit limit') spliced'
    rw [larger, Except.ok.injEq] at larger'
    exact larger'
  · intro limit fault
    rw [Stream.splice_eq_error_iff]
    constructor
    · rintro ⟨failure, stops, rfl⟩
      cases failure with
      | refused fault => exact .inl stops
      | tooDeep span => exact .inr ⟨span, stops, rfl⟩
    · rintro (stops | ⟨span, stops, rfl⟩)
      · exact ⟨_, stops, rfl⟩
      · exact ⟨_, stops, rfl⟩
  · intro limit larger fault enough stops
    have stopsLater := stops.mono_refused (Int.toNat_le_toNat enough)
    exact ⟨stops.spliceLevels_eq limit, stopsLater.spliceLevels_eq larger⟩

/-- A loop around an invocation without a body. -/
def bodilessLoop : Stream :=
  [.ident (word ['N']) ⟨5, 6⟩, .ident (word ['i', 'n']) ⟨7, 9⟩, .literal .int (word ['0']) ⟨10, 11⟩,
    .punct (charCode '.') .joint ⟨11, 12⟩, .punct (charCode '.') .alone ⟨12, 13⟩,
    .literal .int (word ['1']) ⟨13, 14⟩,
    .group .curly
      [.ident (word ['s', 'e', 'q']) ⟨17, 20⟩, .punct (charCode '!') .alone ⟨20, 21⟩,
        .group .round [.ident (word ['N']) ⟨22, 23⟩] ⟨21, 24⟩] ⟨15, 26⟩]

def bodilessInvocation : Stream :=
  [.ident (word ['s', 'e', 'q']) ⟨0, 3⟩, .punct (charCode '!') .alone ⟨3, 4⟩,
    .group .round bodilessLoop ⟨4, 27⟩]

/-- The generator refuses the inner invocation with two levels, and so it does with more. -/
theorem bodilessInvocation_refused :
    let table : Generators := [(word ['s', 'e', 'q'], Stream.expand {})]
    let fault : Fault := .diagnosed ⟨22, 23⟩ .missingBody
    bodilessInvocation.Stops table 2 (.refused fault) ∧
      bodilessInvocation.splice table 2 = .error fault ∧
      bodilessInvocation.splice table 64 = .error fault := by
  intro table fault
  have expanded : bodilessLoop.expand {} = .ok
      [.ident (word ['s', 'e', 'q']) ⟨17, 20⟩, .punct (charCode '!') .alone ⟨20, 21⟩,
        .group .round [.literal .int (word ['0']) ⟨22, 23⟩] ⟨21, 24⟩] := by
    with_unfolding_all rfl
  have stops : bodilessInvocation.Stops table 2 (.refused fault) :=
    .insideOutput rfl expanded (.refusal rfl rfl)
  exact ⟨stops, (limit_decides_success_only table _).2.2.2.2 2 64 fault (by decide) stops⟩

namespace Stream

/-- The levels of a stream that are reached through groups other than the arguments of an
invocation. -/
inductive LiveLevel (table : Generators) : Stream → Stream → Prop
  | top (stream : Stream) : LiveLevel table stream stream
  | inside {stream before behind children level : Stream} {delimiter : Delimiter} {span : Span}
      (split : stream = before ++ .group delimiter children span :: behind)
      (noArguments : ∀ call, IsInvocation table call →
        ¬ call <:+ before ++ [.group delimiter children span])
      (below : LiveLevel table children level) : LiveLevel table stream level

/-- Some of the given names is invoked, and not within the arguments of an invocation. -/
def Invokes (table : Generators) (names : Set Bytes) (stream : Stream) : Prop :=
  ∃ level, LiveLevel table stream level ∧ ∃ call, IsInvocationOf names call ∧ call <:+: level

end Stream

/-- The generators of these names take every input, and their output invokes one of them. -/
def Generators.Reproduces (table : Generators) (names : Set Bytes) : Prop :=
  ∀ name ∈ names, ∃ generator, table.get? name = some generator ∧
    ∀ input, ∃ output, generator input = .ok output ∧ Stream.Invokes table names output

namespace Stream

variable {table : Generators} {names : Set Bytes} {levels : Nat} {stream : Stream}
  {patches : Patchwork}

theorem LiveLevel.of_cons {node : Node} {rest level : Stream}
    (live : LiveLevel table (node :: rest) level) :
    level = node :: rest ∨
      (∃ delimiter children span, node = .group delimiter children span ∧
        LiveLevel table children level) ∨ LiveLevel table rest level := by
  cases live with
  | top => exact .inl rfl
  | @inside _ before behind children _ delimiter span split noArguments below =>
    rcases List.cons_eq_append_iff.mp split with ⟨rfl, isFirst⟩ | ⟨others, rfl, isRest⟩
    · exact .inr (.inl ⟨delimiter, children, span, (List.cons.inj isFirst).1.symm, below⟩)
    · refine .inr (.inr (.inside isRest ?_ below))
      intro call isInvocation isSuffix
      exact noArguments call isInvocation (isSuffix.trans (List.suffix_cons node _))

/-- The arguments of an invocation are no live level, and it hides no other one. -/
theorem LiveLevel.of_invocation {first second third : Node} {rest level : Stream}
    {invocation : Invocation}
    (found : Invocation.ofNodes? table first second third = some invocation)
    (live : LiveLevel table (first :: second :: third :: rest) level) :
    level = first :: second :: third :: rest ∨ LiveLevel table rest level := by
  have isInvocation := Invocation.isInvocation_of_ofNodes? found
  obtain ⟨name, nameSpan, spacing, markSpan, groupSpan, -, rfl, rfl, rfl⟩ :=
    Invocation.shape_of_ofNodes? found
  cases live with
  | top => exact .inl rfl
  | @inside _ before behind children _ delimiter span split noArguments below =>
    right
    match before with
    | [] | [_] => cases split
    | [_, _] =>
      cases split
      exact absurd (List.suffix_refl _) (noArguments _ isInvocation)
    | _ :: _ :: _ :: others =>
      obtain ⟨rfl, rfl, rfl, isRest⟩ : _ = _ ∧ _ = _ ∧ _ = _ ∧ rest = _ := by
        simpa only [List.cons_append, List.cons.injEq] using split
      refine .inside isRest ?_ below
      intro call isCall isSuffix
      exact noArguments call isCall (isSuffix.trans (List.suffix_append [_, _, _] _))

theorem not_invokes_nil : ¬ Invokes table names [] := by
  rintro ⟨level, live, call, isInvocation, inLevel⟩
  cases live with
  | top =>
    rw [List.infix_nil.mp inLevel] at isInvocation
    exact isInvocation
  | inside split => cases List.append_eq_nil_iff.mp split.symm |>.2

theorem Invokes.of_cons {node : Node} {rest : Stream}
    (invokes : Invokes table names (node :: rest)) :
    Opens (IsInvocationOf names) (node :: rest) ∨
      (∃ delimiter children span, node = .group delimiter children span ∧
        Invokes table names children) ∨ Invokes table names rest := by
  obtain ⟨level, live, call, isInvocation, inLevel⟩ := invokes
  rcases live.of_cons with rfl | ⟨delimiter, children, span, isGroup, below⟩ | below
  · rcases List.infix_cons_iff.mp inLevel with isPrefix | inRest
    · exact .inl ⟨call, isInvocation, isPrefix⟩
    · exact .inr (.inr ⟨rest, .top rest, call, isInvocation, inRest⟩)
  · exact .inr (.inl ⟨delimiter, children, span, isGroup, level, below, call, isInvocation, inLevel⟩)
  · exact .inr (.inr ⟨level, below, call, isInvocation, inLevel⟩)

/-- A semicolon that belongs to an invocation is no part of another one. -/
theorem Invokes.of_behind {rest : Stream} (invokes : Invokes table names rest)
    (invocation : Invocation) : Invokes table names (invocation.behind rest) := by
  rcases invocation.behind_cases rest with same | ⟨spacing, span, isRest⟩
  · rwa [same]
  · rw [isRest] at invokes
    rcases invokes.of_cons with opens | ⟨_, _, _, isGroup, -⟩ | inRest
    · obtain ⟨name, -, nameSpan, isName⟩ := opens.ident_of_invocationOf
      cases isName
    · cases isGroup
    · exact inRest

theorem Invokes.of_invocation {first second third : Node} {rest : Stream} {invocation : Invocation}
    (found : Invocation.ofNodes? table first second third = some invocation)
    (invokes : Invokes table names (first :: second :: third :: rest)) :
    (∃ name ∈ names, table.get? name = some invocation.generator) ∨
      Invokes table names (invocation.behind rest) := by
  obtain ⟨level, live, call, isInvocation, inLevel⟩ := invokes
  rcases live.of_invocation found with rfl | below
  · obtain ⟨name, nameSpan, spacing, markSpan, groupSpan, registered, rfl, rfl, rfl⟩ :=
      Invocation.shape_of_ofNodes? found
    -- Two invocations do not overlap: the other one begins with this name or behind this group.
    rcases List.infix_cons_iff.mp inLevel with isPrefix | inLevel
    · obtain ⟨_, named, span, isName⟩ := Opens.ident_of_invocationOf ⟨call, isInvocation, isPrefix⟩
      cases isName
      exact .inl ⟨name, named, registered⟩
    · rcases List.infix_cons_iff.mp inLevel with isPrefix | inLevel
      · obtain ⟨_, -, span, isName⟩ := Opens.ident_of_invocationOf ⟨call, isInvocation, isPrefix⟩
        cases isName
      · rcases List.infix_cons_iff.mp inLevel with isPrefix | inRest
        · obtain ⟨_, -, span, isName⟩ := Opens.ident_of_invocationOf ⟨call, isInvocation, isPrefix⟩
          cases isName
        · have invokes : Invokes table names rest := ⟨rest, .top rest, call, isInvocation, inRest⟩
          exact .inr (invokes.of_behind invocation)
  · have invokes : Invokes table names rest := ⟨level, below, call, isInvocation, inLevel⟩
    exact .inr (invokes.of_behind invocation)

/-- A run that ends has found nothing that reproduces itself. -/
theorem Splices.not_invokes (reproduces : table.Reproduces names)
    (splices : Splices table levels stream patches) : ¬ Invokes table names stream := by
  have registered (name : Bytes) (named : name ∈ names) : name ∈ table.names := by
    obtain ⟨generator, found, -⟩ := reproduces name named
    exact (table.mem_names_iff name).mpr ⟨generator, found⟩
  induction splices with
  | nil => exact not_invokes_nil
  | leaf isLeaf noInvocation behind notBehind =>
    intro invokes
    rcases invokes.of_cons with ⟨call, isInvocation, isPrefix⟩ | ⟨_, _, _, rfl, -⟩ | inRest
    · exact noInvocation ⟨call, isInvocation.mono registered, isPrefix⟩
    · cases isLeaf
    · exact notBehind inRest
  | group inside behind notInside notBehind =>
    intro invokes
    rcases invokes.of_cons with ⟨call, isInvocation, isPrefix⟩ | ⟨_, _, _, isGroup, inside⟩ | inRest
    · exact not_opens_invocation_group _ _ _ _ ⟨call, isInvocation.mono registered, isPrefix⟩
    · cases isGroup
      exact notInside inside
    · exact notBehind inRest
  | invocation found generates output behind notOutput notBehind =>
    intro invokes
    rcases invokes.of_invocation found with ⟨name, named, isGenerator⟩ | inRest
    · obtain ⟨generator, registered, accepts⟩ := reproduces name named
      rw [isGenerator, Option.some.injEq] at registered
      obtain ⟨generated, generates', inGenerated⟩ := accepts _
      rw [← registered, generates, Except.ok.injEq] at generates'
      rw [← generates'] at inGenerated
      exact notOutput inGenerated
    · exact notBehind inRest

end Stream

/-- Whatever the limit, a stream is not spliced if it invokes generators that always invoke each
other again. If no generator refuses anything, it is the limit that stops them. -/
theorem runaway_rejected (table : Generators) (names : Set Bytes)
    (reproduces : table.Reproduces names) (limit : Int) (stream : Stream)
    (invokes : stream.Invokes table names) :
    (∃ fault, stream.splice table limit = .error fault) ∧
      ((∀ name generator, table.get? name = some generator →
          ∀ input fault, generator input ≠ .error fault) →
        ∃ fault, stream.splice table limit = .error fault ∧ fault.code = .expansionDepth) := by
  rcases Stream.splices_or_stops table limit.toNat stream with
    ⟨patches, splices⟩ | ⟨failure, stops⟩
  · exact absurd invokes (splices.not_invokes reproduces)
  · have stopped : stream.splice table limit = .error _ := stops.spliceLevels_eq limit
    refine ⟨⟨_, stopped⟩, fun neverRefused => ⟨_, stopped, ?_⟩⟩
    cases failure with
    | refused fault =>
      obtain ⟨name, generator, input, registered, refuses⟩ := stops.exists_refusal
      exact absurd refuses (neverRefused name generator registered input fault)
    | tooDeep span => rfl

/-- The invocation of a name without a place in a source. -/
def callOf (name : Bytes) (arguments : Stream) : Stream :=
  [.ident name Span.null, .punct (charCode '!') .alone Span.null,
    .group .round arguments Span.null]

/-- Two generators that invoke each other, one of them in brackets. -/
def pingPong : Generators :=
  [(word ['p', 'i', 'n', 'g'], fun input =>
      .ok [.group .square (callOf (word ['p', 'o', 'n', 'g']) input) Span.null]),
    (word ['p', 'o', 'n', 'g'], fun input => .ok (callOf (word ['p', 'i', 'n', 'g']) input))]

theorem pingPong_rejected :
    let names : Set Bytes := {word ['p', 'i', 'n', 'g'], word ['p', 'o', 'n', 'g']}
    let stream := callOf (word ['p', 'o', 'n', 'g']) []
    pingPong.Reproduces names ∧ stream.Invokes pingPong names ∧
      ∃ fault, stream.splice pingPong 64 = .error fault ∧ fault.code = .expansionDepth := by
  intro names stream
  have called {name : Bytes} (named : name ∈ names) (arguments : Stream) :
      Stream.Invokes pingPong names (callOf name arguments) :=
    ⟨_, .top _, callOf name arguments, ⟨rfl, named⟩, List.infix_refl _⟩
  have bracketed {name : Bytes} (named : name ∈ names) (arguments : Stream) :
      Stream.Invokes pingPong names [.group .square (callOf name arguments) Span.null] := by
    obtain ⟨level, live, inLevel⟩ := called named arguments
    refine ⟨level, .inside (List.nil_append [_]).symm ?_ live, inLevel⟩
    intro call isInvocation isSuffix
    obtain ⟨_, _, _, _, _, _, _, _, _, rfl⟩ := (isInvocation_iff _ _).mp isInvocation
    exact absurd isSuffix.length_le (by simp)
  have reproduces : pingPong.Reproduces names := by
    rintro name (rfl | rfl)
    · exact ⟨_, rfl, fun input => ⟨_, rfl, bracketed (.inr rfl) input⟩⟩
    · exact ⟨_, rfl, fun input => ⟨_, rfl, called (.inl rfl) input⟩⟩
  have invokes := called (.inr rfl) []
  refine ⟨reproduces, invokes, (runaway_rejected pingPong names reproduces 64 _ invokes).2 ?_⟩
  intro name generator registered input fault refuses
  obtain ⟨front, back, isTable, -⟩ := List.lookup_eq_some_iff.mp registered
  have membership : (name, generator) ∈ pingPong := by simp [isTable]
  rcases List.mem_cons.mp membership with isPing | membership
  · cases isPing
    cases refuses
  · cases List.mem_singleton.mp membership
    cases refuses

end Unroll
