import Unroll.Proofs.DepthLimits
import Unroll.Proofs.Skeletons

set_option autoImplicit false

/-!
# Call sites

A site is an invocation where it stands: the name of a generator, the mark, the group, and the
semicolon that belongs to them. Two sites on one level never share a node, so a stream has one
skeleton whose holes are its sites. The arguments of a site lie in its hole: what looks like a
site there is none. Splicing fills each hole with the spliced output of its generator, and keeps
everything else.
-/

namespace Unroll

/-- An invocation with the nodes it is made of. A group in braces takes no semicolon. -/
structure Site (table : Generators) where
  name : Bytes
  generator : Generator
  registered : table.get? name = some generator
  nameSpan : Span
  spacing : Spacing
  markSpan : Span
  delimiter : Delimiter
  arguments : Stream
  groupSpan : Span
  semicolon : Option (Spacing × Span)
  unbraced : semicolon ≠ none → delimiter ≠ .curly

namespace Site

variable {table : Generators}

/-- The semicolon, if there is one. -/
def ending (site : Site table) : Stream :=
  site.semicolon.toList.map fun (spacing, span) => .punct (charCode ';') spacing span

/-- What stands behind the name. -/
def tail (site : Site table) : Stream :=
  .punct (charCode '!') site.spacing site.markSpan ::
    .group site.delimiter site.arguments site.groupSpan :: site.ending

def nodes (site : Site table) : Stream := .ident site.name site.nameSpan :: site.tail

/-- No semicolon that stands behind a site and belongs to it is left out. -/
def EndsBefore (site : Site table) (rest : Stream) : Prop :=
  site.semicolon = none → site.delimiter ≠ .curly →
    ∀ next ∈ rest.head?, next.isPunct (charCode ';') = false

/-- The site stands on a level, behind some nodes and in front of others. -/
def Occurs (site : Site table) (before rest level : Stream) : Prop :=
  level = before ++ (site.nodes ++ rest) ∧ site.EndsBefore rest

def invocation (site : Site table) : Invocation :=
  ⟨site.generator, site.delimiter, site.arguments, site.nameSpan.extend site.groupSpan⟩

theorem exists_of_opens {stream : Stream} (opens : stream.Opens (IsInvocation table)) :
    ∃ (site : Site table) (rest : Stream), stream = site.nodes ++ rest ∧ site.EndsBefore rest := by
  obtain ⟨_, isInvocation, rest, rfl⟩ := opens
  obtain ⟨name, generator, registered, nameSpan, spacing, markSpan, delimiter, arguments, groupSpan,
    rfl⟩ := (isInvocation_iff table _).mp isInvocation
  by_cases owned : delimiter ≠ .curly ∧ ∃ next ∈ rest.head?, next.isPunct (charCode ';') = true
  · obtain ⟨unbraced, next, isNext, isSemicolon⟩ := owned
    obtain ⟨others, rfl⟩ := List.head?_eq_some_iff.mp isNext
    obtain ⟨ownSpacing, ownSpan, rfl⟩ := Node.eq_punct_of_isPunct isSemicolon
    refine ⟨⟨name, generator, registered, nameSpan, spacing, markSpan, delimiter, arguments,
      groupSpan, some (ownSpacing, ownSpan), fun _ => unbraced⟩, others, rfl, ?_⟩
    intro noSemicolon
    cases noSemicolon
  · refine ⟨⟨name, generator, registered, nameSpan, spacing, markSpan, delimiter, arguments,
      groupSpan, none, fun isSome => absurd rfl isSome⟩, rest, rfl, ?_⟩
    intro _ unbraced next isNext
    exact Bool.eq_false_iff.mpr fun isSemicolon => owned ⟨unbraced, next, isNext, isSemicolon⟩

/-- The nodes behind a site are those that splicing goes on with. -/
theorem behind_ending {site : Site table} {rest : Stream} (ends : site.EndsBefore rest) :
    site.invocation.behind (site.ending ++ rest) = rest := by
  rw [ending]
  cases isSemicolon : site.semicolon with
  | some semicolon =>
    have unbraced : site.delimiter ≠ .curly := site.unbraced (by simp [isSemicolon])
    simp [Invocation.behind, Invocation.ownsSemicolon, invocation, Node.isPunct, unbraced]
  | none =>
    cases rest with
    | nil => rfl
    | cons next others =>
      have notOwned : site.invocation.ownsSemicolon next = false := by
        by_cases braced : site.delimiter = .curly
        · simp [Invocation.ownsSemicolon, invocation, braced]
        · simp [Invocation.ownsSemicolon, ends isSemicolon braced next rfl]
      simp [Invocation.behind, notOwned]

/-- Where a site begins, no other site does. -/
theorem eq_of_append {site other : Site table} {rest behind : Stream}
    (ends : site.EndsBefore rest) (otherEnds : other.EndsBefore behind)
    (same : site.nodes ++ rest = other.nodes ++ behind) : site = other ∧ rest = behind := by
  obtain ⟨name, generator, registered, nameSpan, spacing, markSpan, delimiter, arguments, groupSpan,
    semicolon, unbraced⟩ := site
  obtain ⟨name', generator', registered', nameSpan', spacing', markSpan', delimiter', arguments',
    groupSpan', semicolon', unbraced'⟩ := other
  simp only [nodes, tail, List.cons_append, List.cons.injEq, Node.ident.injEq, Node.punct.injEq,
    Node.group.injEq] at same
  obtain ⟨⟨rfl, rfl⟩, ⟨-, rfl, rfl⟩, ⟨rfl, rfl, rfl⟩, same⟩ := same
  cases registered.symm.trans registered'
  cases semicolon with
  | none =>
    cases semicolon' with
    | none => exact ⟨rfl, same⟩
    | some own =>
      rw [show rest = _ from same] at ends
      have noSemicolon := ends rfl (unbraced' (by simp)) _ rfl
      simp [Node.isPunct] at noSemicolon
  | some own =>
    cases semicolon' with
    | none =>
      rw [show behind = _ from same.symm] at otherEnds
      have noSemicolon := otherEnds rfl (unbraced (by simp)) _ rfl
      simp [Node.isPunct] at noSemicolon
    | some own' =>
      obtain ⟨sameSemicolon, rfl⟩ := List.cons.inj same
      obtain ⟨-, sameSpacing, sameSpan⟩ := Node.punct.inj sameSemicolon
      obtain rfl := Prod.ext sameSpacing sameSpan
      exact ⟨rfl, rfl⟩

theorem endsBefore_nil (site : Site table) : site.EndsBefore [] := by
  intro _ _ next isNext
  cases isNext

theorem nodes_injective : Function.Injective (@nodes table) := by
  intro site other same
  apply (eq_of_append site.endsBefore_nil other.endsBefore_nil _).1
  rw [same]

theorem ident_not_mem_tail (site : Site table) (name : Bytes) (span : Span) :
    .ident name span ∉ site.tail := by
  rw [tail, ending]
  cases site.semicolon <;> simp

/-- A site stands where another one does, or all behind it. -/
theorem eq_or_behind {site other : Site table} {rest before behind : Stream}
    (ends : site.EndsBefore rest) (otherEnds : other.EndsBefore behind)
    (same : site.nodes ++ rest = before ++ (other.nodes ++ behind)) :
    (before = [] ∧ site = other ∧ rest = behind) ∨
      ∃ between, before = site.nodes ++ between ∧ rest = between ++ (other.nodes ++ behind) := by
  rcases List.append_eq_append_iff.mp same with apart | ⟨shared, isSite, isOther⟩
  · exact .inr apart
  · cases before with
    | nil =>
      rw [List.nil_append] at isSite
      subst isSite
      exact .inl ⟨rfl, eq_of_append ends otherEnds isOther.symm⟩
    | cons first before =>
      obtain ⟨rfl, isTail⟩ := List.cons.inj isSite
      cases shared with
      | nil =>
        exact .inr ⟨[], by rw [isSite, List.append_nil, List.append_nil], isOther.symm⟩
      | cons next shared =>
        -- The other site would begin inside this one, where no name stands.
        obtain ⟨rfl, -⟩ := List.cons.inj isOther
        have inTail : .ident other.name other.nameSpan ∈ site.tail := by
          rw [isTail]
          exact List.mem_append_right _ List.mem_cons_self
        exact absurd inTail (site.ident_not_mem_tail _ _)

end Site

theorem exists_of_bind_eq_ok {α β : Type} {result : Except Fault α} {next : α → Except Fault β}
    {last : β} (done : result >>= next = .ok last) :
    ∃ value, result = .ok value ∧ next value = .ok last := by
  cases result with
  | error fault => cases done
  | ok value => exact ⟨value, rfl, done⟩

namespace Skeleton

/-- The holes of a skeleton are the sites of a stream: each hole is a site, and on every level a
site stands exactly where there is a hole for it. -/
structure Marks (table : Generators) (skeleton : Skeleton) (stream : Stream) : Prop where
  nodes : filled id skeleton = stream
  leaves : ∀ level, skeleton.Level level → ∀ node, .leaf node ∈ level → node.IsLeaf
  holes : ∀ hole ∈ holes skeleton, ∃ site : Site table, hole = site.nodes
  sites : ∀ level, skeleton.Level level → ∀ (site : Site table) before rest,
    site.Occurs before rest (filled id level) ↔
      ∃ front back : Skeleton, level = front ++ .hole site.nodes :: back ∧
        filled id front = before ∧ filled id back = rest

/-- A site opens a hole that remembers all of its nodes. -/
def Opening.sites (table : Generators) : Opening where
  opens stream hole rest := ∃ site : Site table, hole = site.nodes ∧ stream = site.nodes ++ rest ∧
    site.EndsBefore rest
  takes := by
    rintro _ _ rest ⟨site, rfl, rfl, -⟩
    exact ⟨_, site.tail, rfl⟩

/-- The skeleton whose holes are the sites of a stream, as it is cut. -/
abbrev CutsSites (table : Generators) : Skeleton → Stream → Prop := CutsBy (.sites table)

variable {table : Generators} {skeleton : Skeleton} {stream : Stream}

theorem Opening.sites_of_opens (opens : stream.Opens (IsInvocation table)) :
    ∃ hole rest, (sites table).opens stream hole rest := by
  obtain ⟨site, rest, isSite, ends⟩ := Site.exists_of_opens opens
  exact ⟨site.nodes, rest, site, rfl, isSite, ends⟩

theorem CutsSites.nodes (cuts : CutsSites table skeleton stream) : filled id skeleton = stream := by
  induction cuts with
  | nil => rfl
  | hole opens behind behindNodes =>
    obtain ⟨site, rfl, rfl, ends⟩ := opens
    rw [filled, behindNodes]
    rfl
  | leaf isLeaf closed behind behindNodes =>
    rw [filled, behindNodes]
    rfl
  | group closed inside behind insideNodes behindNodes =>
    rw [filled, Part.filled, insideNodes, behindNodes]
    rfl

theorem CutsSites.isSite (cuts : CutsSites table skeleton stream) {hole : Stream}
    (membership : hole ∈ holes skeleton) : ∃ site : Site table, hole = site.nodes := by
  obtain ⟨opened, rest, site, isSite, -⟩ := cuts.exists_opens membership
  exact ⟨site, isSite⟩

theorem CutsSites.endsBefore (cuts : CutsSites table skeleton stream) {site : Site table}
    {front back : Skeleton} (split : skeleton = front ++ .hole site.nodes :: back) :
    site.EndsBefore (filled id back) := by
  induction cuts generalizing front with
  | nil => simp at split
  | hole opens behind inRest =>
    cases front with
    | nil =>
      obtain ⟨own, rfl, -, ends⟩ := opens
      obtain ⟨sameHole, rfl⟩ := List.cons.inj split
      obtain rfl := Site.nodes_injective (Part.hole.inj sameHole)
      rwa [CutsSites.nodes behind]
    | cons part front => exact inRest (List.cons.inj split).2
  | leaf _ _ _ inRest | group _ _ _ _ inRest =>
    cases front with
    | nil => cases split
    | cons part front => exact inRest (List.cons.inj split).2

/-- No site is left out: where one stands there is a hole for it. -/
theorem CutsSites.exists_hole (cuts : CutsSites table skeleton stream) {site : Site table}
    {before rest : Stream} (occurs : site.Occurs before rest stream) :
    ∃ front back : Skeleton, skeleton = front ++ .hole site.nodes :: back ∧
      filled id front = before ∧ filled id back = rest := by
  obtain ⟨split, ends⟩ := occurs
  induction cuts generalizing before with
  | nil => cases before <;> cases split
  | hole opens behind inRest =>
    obtain ⟨own, rfl, rfl, ownEnds⟩ := opens
    rcases Site.eq_or_behind ownEnds ends split with ⟨rfl, rfl, rfl⟩ | ⟨between, rfl, isRest⟩
    · exact ⟨[], _, rfl, rfl, CutsSites.nodes behind⟩
    · obtain ⟨front, back, rfl, rfl, rfl⟩ := inRest isRest
      exact ⟨.hole _ :: front, back, rfl, rfl, rfl⟩
  | leaf isLeaf closed behind inRest =>
    cases before with
    | nil => exact absurd ⟨_, _, site, rfl, split, ends⟩ closed
    | cons first before =>
      obtain ⟨rfl, isRest⟩ := List.cons.inj split
      obtain ⟨front, back, rfl, rfl, rfl⟩ := inRest isRest
      exact ⟨.leaf _ :: front, back, rfl, rfl, rfl⟩
  | group closed inside behind _ inRest =>
    cases before with
    | nil => exact absurd ⟨_, _, site, rfl, split, ends⟩ closed
    | cons first before =>
      obtain ⟨rfl, isRest⟩ := List.cons.inj split
      obtain ⟨front, back, rfl, rfl, rfl⟩ := inRest isRest
      refine ⟨.group _ _ _ :: front, back, rfl, ?_, rfl⟩
      rw [filled, Part.filled, CutsSites.nodes inside]
      rfl

theorem CutsSites.marks (cuts : CutsSites table skeleton stream) : Marks table skeleton stream where
  nodes := cuts.nodes
  leaves level isLevel node membership := by
    obtain ⟨nodes, levelCuts⟩ := cuts.of_level isLevel
    exact levelCuts.isLeaf membership
  holes hole membership := cuts.isSite membership
  sites level isLevel site before rest := by
    obtain ⟨nodes, levelCuts⟩ : ∃ nodes, CutsSites table level nodes := cuts.of_level isLevel
    constructor
    · intro occurs
      rw [levelCuts.nodes] at occurs
      exact levelCuts.exists_hole occurs
    · rintro ⟨front, back, split, rfl, rfl⟩
      have ends := levelCuts.endsBefore split
      rw [split, filled_append]
      exact ⟨rfl, ends⟩

section Splicing

variable (limit : Int) (levels : Nat)

theorem spliceLevels_site {site : Site table} {rest : Stream}
    (ends : site.EndsBefore rest) :
    Stream.spliceLevels table limit levels (site.nodes ++ rest) = do
      let output ← site.invocation.output table limit levels
      return output ++ (← Stream.spliceLevels table limit levels rest) := by
  have found := Invocation.ofNodes?_eq_some site.registered site.nameSpan site.spacing site.markSpan
    site.delimiter site.arguments site.groupSpan
  have spliced := Stream.spliceLevels_invocation limit levels found (site.ending ++ rest)
  rwa [show Invocation.mk _ _ _ _ = site.invocation from rfl, site.behind_ending ends] at spliced

/-- If there is an output for each site, splicing fills the holes with the outputs. -/
theorem CutsSites.spliceLevels_eq (cuts : CutsSites table skeleton stream)
    {output : Stream → Stream}
    (outputs : ∀ site : Site table, site.nodes ∈ holes skeleton →
      site.invocation.output table limit levels = .ok (output site.nodes)) :
    Stream.spliceLevels table limit levels stream = .ok (filled output skeleton) := by
  induction cuts with
  | nil => exact Stream.spliceLevels_nil limit levels
  | hole opens behind behindSpliced =>
    obtain ⟨site, rfl, rfl, ends⟩ := opens
    have inRest := behindSpliced fun site membership =>
      outputs site (List.mem_cons_of_mem _ membership)
    rw [spliceLevels_site limit levels ends, outputs site List.mem_cons_self, inRest]
    rfl
  | leaf isLeaf closed behind behindSpliced =>
    have noInvocation := mt Opening.sites_of_opens closed
    rw [Stream.spliceLevels_leaf limit levels isLeaf noInvocation, behindSpliced outputs]
    rfl
  | group closed inside behind insideSpliced behindSpliced =>
    have inChildren := insideSpliced fun site membership =>
      outputs site (List.mem_append_left _ membership)
    have inRest := behindSpliced fun site membership =>
      outputs site (List.mem_append_right _ membership)
    rw [Stream.spliceLevels_group, inChildren, inRest]
    rfl

/-- Splicing succeeds only if there is an output for each site. -/
theorem CutsSites.exists_output (cuts : CutsSites table skeleton stream) {out : Stream}
    (spliced : Stream.spliceLevels table limit levels stream = .ok out) (site : Site table)
    (membership : site.nodes ∈ holes skeleton) :
    ∃ output, site.invocation.output table limit levels = .ok output := by
  induction cuts generalizing out with
  | nil => cases membership
  | hole opens behind inRest =>
    obtain ⟨own, rfl, rfl, ends⟩ := opens
    rw [spliceLevels_site limit levels ends] at spliced
    obtain ⟨output, generated, spliced⟩ := exists_of_bind_eq_ok spliced
    obtain ⟨nodes, behindSpliced, -⟩ := exists_of_bind_eq_ok spliced
    rcases List.mem_cons.mp membership with same | membership
    · rw [Site.nodes_injective same]
      exact ⟨output, generated⟩
    · exact inRest behindSpliced membership
  | leaf isLeaf closed behind inRest =>
    have noInvocation := mt Opening.sites_of_opens closed
    rw [Stream.spliceLevels_leaf limit levels isLeaf noInvocation] at spliced
    obtain ⟨nodes, behindSpliced, -⟩ := exists_of_bind_eq_ok spliced
    exact inRest behindSpliced membership
  | group closed inside behind inChildren inRest =>
    rw [Stream.spliceLevels_group] at spliced
    obtain ⟨inner, insideSpliced, spliced⟩ := exists_of_bind_eq_ok spliced
    obtain ⟨nodes, behindSpliced, -⟩ := exists_of_bind_eq_ok spliced
    rcases List.mem_append.mp membership with membership | membership
    · exact inChildren insideSpliced membership
    · exact inRest behindSpliced membership

end Splicing

/-- A hole is a place where a site stands. -/
theorem Marks.exists_occurs (marks : Marks table skeleton stream) {hole : Stream}
    (membership : hole ∈ Skeleton.holes skeleton) :
    ∃ level, skeleton.Level level ∧ ∃ (site : Site table) (before rest : Stream),
      site.Occurs before rest (filled id level) := by
  obtain ⟨level, isLevel, inLevel⟩ := exists_level_of_mem_holes skeleton membership
  obtain ⟨site, rfl⟩ := marks.holes hole membership
  obtain ⟨front, back, split⟩ := List.append_of_mem inLevel
  exact ⟨level, isLevel, site, _, _,
    (marks.sites level isLevel site _ _).mpr ⟨front, back, split, rfl, rfl⟩⟩

end Skeleton

/-- Of a limit above zero one level is used up by the invocation itself. -/
theorem Invocation.output_eq_ok_iff (table : Generators) (invocation : Invocation) (limit : Int)
    (out : Stream) :
    invocation.output table limit limit.toNat = .ok out ↔
      0 < limit ∧ ∃ generated, invocation.generator invocation.arguments = .ok generated ∧
        generated.splice table (limit - 1) = .ok out := by
  by_cases positive : 0 < limit
  · rw [show limit.toNat = (limit - 1).toNat + 1 by omega, and_iff_right positive]
    simp only [Stream.splice_eq_ok_iff]
    constructor
    · intro isOutput
      obtain ⟨generated, generates, spliced⟩ := exists_of_bind_eq_ok isOutput
      exact ⟨generated, generates, (Stream.spliceLevels_eq_ok_iff limit out).mp spliced⟩
    · rintro ⟨generated, generates, splices⟩
      rw [output_of_generates generates]
      exact (Stream.spliceLevels_eq_ok_iff limit out).mpr splices
  · rw [show limit.toNat = 0 by omega]
    constructor
    · intro isOutput
      cases isOutput
    · intro isPositive
      exact absurd isPositive.1 positive

/-- Of two sites on one level, one stands all before the other. -/
theorem Site.eq_or_apart {table : Generators} {site other : Site table}
    {before rest before' rest' level : Stream} (occurs : site.Occurs before rest level)
    (otherOccurs : other.Occurs before' rest' level) :
    (before = before' ∧ site = other) ∨ before ++ site.nodes <+: before' ∨
      before' ++ other.nodes <+: before := by
  obtain ⟨split, ends⟩ := occurs
  obtain ⟨otherSplit, otherEnds⟩ := otherOccurs
  rcases List.append_eq_append_iff.mp (split.symm.trans otherSplit) with
    ⟨between, rfl, same⟩ | ⟨between, rfl, same⟩
  · rcases eq_or_behind ends otherEnds same with ⟨rfl, rfl, -⟩ | ⟨later, rfl, -⟩
    · exact .inl ⟨(List.append_nil _).symm, rfl⟩
    · rw [← List.append_assoc]
      exact .inr (.inl (List.prefix_append _ later))
  · rcases eq_or_behind otherEnds ends same with ⟨rfl, rfl, -⟩ | ⟨later, rfl, -⟩
    · exact .inl ⟨List.append_nil _, rfl⟩
    · rw [← List.append_assoc]
      exact .inr (.inr (List.prefix_append _ later))

theorem Skeleton.CutsSites.splice_eq_ok_iff {table : Generators} {skeleton : Skeleton}
    {stream : Stream} (cuts : CutsSites table skeleton stream) (limit : Int) (out : Stream) :
    stream.splice table limit = .ok out ↔ ∃ output : Stream → Stream,
      (∀ site : Site table, site.nodes ∈ Skeleton.holes skeleton →
        site.invocation.output table limit limit.toNat = .ok (output site.nodes)) ∧
      Skeleton.filled output skeleton = out := by
  constructor
  · intro spliced
    -- A site is known by its nodes, so the outputs of all sites make one function.
    have chosen (hole : Stream) : ∃ output, ∀ site : Site table, site.nodes = hole →
        hole ∈ Skeleton.holes skeleton →
          site.invocation.output table limit limit.toNat = .ok output := by
      by_cases isHole : ∃ site : Site table, site.nodes = hole ∧ hole ∈ Skeleton.holes skeleton
      · obtain ⟨site, rfl, membership⟩ := isHole
        obtain ⟨output, isOutput⟩ := cuts.exists_output limit limit.toNat spliced site membership
        refine ⟨output, fun other same _ => ?_⟩
        rwa [Site.nodes_injective same]
      · exact ⟨[], fun site same membership => absurd ⟨site, same, membership⟩ isHole⟩
    choose output isOutput using chosen
    have outputs (site : Site table) (membership : site.nodes ∈ Skeleton.holes skeleton) :=
      isOutput site.nodes site rfl membership
    have filled := cuts.spliceLevels_eq limit limit.toNat outputs
    exact ⟨output, outputs, Except.ok.inj (filled.symm.trans spliced)⟩
  · rintro ⟨output, outputs, rfl⟩
    exact cuts.spliceLevels_eq limit limit.toNat outputs

/-- Sites on one level do not overlap, and a stream has a skeleton whose holes are its sites outside
the arguments of sites. A stream is spliced exactly if, with one level less, the output of each
site's generator is: the result is the skeleton filled with these outputs. Where no site stands,
the stream stays as it is under every limit. -/
theorem splicing_fills_sites (table : Generators) (stream : Stream) :
    (∀ (level : Stream) (site other : Site table) (before rest before' rest' : Stream),
      site.Occurs before rest level → other.Occurs before' rest' level →
        (before = before' ∧ site = other) ∨ before ++ site.nodes <+: before' ∨
          before' ++ other.nodes <+: before) ∧
    ∃ skeleton : Skeleton, skeleton.Marks table stream ∧
      (∀ limit out, stream.splice table limit = .ok out ↔ ∃ output : Stream → Stream,
        (∀ site : Site table, site.nodes ∈ Skeleton.holes skeleton →
          0 < limit ∧ ∃ generated, site.generator site.arguments = .ok generated ∧
            generated.splice table (limit - 1) = .ok (output site.nodes)) ∧
        Skeleton.filled output skeleton = out) ∧
      ((∀ level, skeleton.Level level → ∀ (site : Site table) (before rest : Stream),
          ¬ site.Occurs before rest (Skeleton.filled id level)) →
        ∀ limit, stream.splice table limit = .ok stream) := by
  refine ⟨fun level site other _ _ _ _ => Site.eq_or_apart, ?_⟩
  obtain ⟨skeleton, cuts⟩ : ∃ skeleton, Skeleton.CutsSites table skeleton stream :=
    Skeleton.exists_cutsBy _ stream
  have marks := cuts.marks
  refine ⟨skeleton, marks, ?_, ?_⟩
  · intro limit out
    rw [cuts.splice_eq_ok_iff]
    simp only [Invocation.output_eq_ok_iff]
    rfl
  · intro noSite limit
    apply (cuts.splice_eq_ok_iff limit stream).mpr
    refine ⟨id, fun site membership => ?_, marks.nodes⟩
    obtain ⟨level, isLevel, other, before, rest, occurs⟩ := marks.exists_occurs membership
    exact absurd occurs (noSite level isLevel other before rest)

/-- In a group, `pad!(N);` without a generator and `seq!(N in 0..2 { N });`. -/
def groupedCalls : Stream :=
  [.group .curly
    [.ident (word ['p', 'a', 'd']) ⟨1, 4⟩, .punct (charCode '!') .alone ⟨4, 5⟩,
      .group .round [.ident (word ['N']) ⟨6, 7⟩] ⟨5, 8⟩, .punct (charCode ';') .alone ⟨8, 9⟩,
      .ident (word ['s', 'e', 'q']) ⟨10, 13⟩, .punct (charCode '!') .alone ⟨13, 14⟩,
      .group .round
        [.ident (word ['N']) ⟨15, 16⟩, .ident (word ['i', 'n']) ⟨17, 19⟩,
          .literal .int (word ['0']) ⟨20, 21⟩, .punct (charCode '.') .joint ⟨21, 22⟩,
          .punct (charCode '.') .alone ⟨22, 23⟩, .literal .int (word ['2']) ⟨23, 24⟩,
          .group .curly [.ident (word ['N']) ⟨27, 28⟩] ⟨25, 30⟩] ⟨14, 31⟩,
      .punct (charCode ';') .alone ⟨31, 32⟩] ⟨0, 33⟩]

theorem groupedCalls_filled :
    let table : Generators := [(word ['s', 'e', 'q'], Stream.expand {})]
    let out : Stream := [.group .curly
      [.ident (word ['p', 'a', 'd']) ⟨1, 4⟩, .punct (charCode '!') .alone ⟨4, 5⟩,
        .group .round [.ident (word ['N']) ⟨6, 7⟩] ⟨5, 8⟩, .punct (charCode ';') .alone ⟨8, 9⟩,
        .literal .int (word ['0']) ⟨27, 28⟩, .literal .int (word ['1']) ⟨27, 28⟩] ⟨0, 33⟩]
    groupedCalls.splice table 1 = .ok out ∧
      ∃ skeleton : Skeleton, skeleton.Marks table groupedCalls ∧ ∃ output : Stream → Stream,
        (∀ site : Site table, site.nodes ∈ Skeleton.holes skeleton →
          (0 : Int) < 1 ∧ ∃ generated, site.generator site.arguments = .ok generated ∧
            generated.splice table (1 - 1) = .ok (output site.nodes)) ∧
        Skeleton.filled output skeleton = out := by
  intro table out
  have spliced : groupedCalls.splice table 1 = .ok out := by
    with_unfolding_all rfl
  obtain ⟨-, skeleton, marks, filled, -⟩ := splicing_fills_sites table groupedCalls
  exact ⟨spliced, skeleton, marks, (filled 1 out).mp spliced⟩

end Unroll
