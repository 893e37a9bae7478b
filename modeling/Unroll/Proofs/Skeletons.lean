import Unroll.Proofs.Levels

set_option autoImplicit false

/-!
# Skeletons

Cutting a stream leaves a skeleton: the nodes that are kept, and a hole for each part that is taken
out. The cut goes from left to right, on all levels, and what opens a hole is a parameter of it.
Every stream has a skeleton, whatever opens its holes.
-/

namespace Unroll

/-- A node of a skeleton. -/
inductive Skeleton.Part where
  | leaf (node : Node)
  | group (delimiter : Delimiter) (children : List Skeleton.Part) (span : Span)
  | hole (body : Stream)

/-- A stream with holes. A hole remembers the nodes that its filling is made from. -/
abbrev Skeleton := List Skeleton.Part

mutual

def Skeleton.Part.filled (filling : Stream → Stream) : Skeleton.Part → Stream
  | .leaf node => [node]
  | .group delimiter children span => [.group delimiter (Skeleton.filled filling children) span]
  | .hole body => filling body

/-- The stream that comes from a skeleton if each hole is replaced by its filling. -/
def Skeleton.filled (filling : Stream → Stream) : List Skeleton.Part → Stream
  | [] => []
  | part :: rest => part.filled filling ++ Skeleton.filled filling rest

end

mutual

def Skeleton.Part.holes : Skeleton.Part → List Stream
  | .leaf _ => []
  | .group _ children _ => Skeleton.holes children
  | .hole body => [body]

def Skeleton.holes : List Skeleton.Part → List Stream
  | [] => []
  | part :: rest => part.holes ++ Skeleton.holes rest

end

namespace Skeleton

/-- The skeletons inside a skeleton: itself and, group by group, those of its groups. -/
inductive Level : Skeleton → Skeleton → Prop
  | top (skeleton : Skeleton) : Level skeleton skeleton
  | inside {skeleton : Skeleton} {delimiter : Delimiter} {children : Skeleton} {span : Span}
      {level : Skeleton} (membership : .group delimiter children span ∈ skeleton)
      (below : Level children level) : Level skeleton level

/-- What opens a hole: a stream, the nodes that a hole at its front remembers, and what stands
behind the hole. No hole is opened without taking out a node. -/
structure Opening where
  opens : (stream hole rest : Stream) → Prop
  takes : ∀ {stream hole rest : Stream}, opens stream hole rest →
    ∃ first others, stream = first :: (others ++ rest)

/-- The skeleton of a stream: read from left to right, there is a hole wherever one opens and not
inside the one before. Every other node is kept as it is, a group with its delimiter and span around
the skeleton of its children. -/
inductive CutsBy (opening : Opening) : Skeleton → Stream → Prop
  | nil : CutsBy opening [] []
  | hole {stream hole rest : Stream} {skeleton : Skeleton} (opens : opening.opens stream hole rest)
      (behind : CutsBy opening skeleton rest) : CutsBy opening (.hole hole :: skeleton) stream
  | leaf {node : Node} {rest : Stream} {skeleton : Skeleton} (isLeaf : node.IsLeaf)
      (closed : ¬ ∃ hole behind, opening.opens (node :: rest) hole behind)
      (behind : CutsBy opening skeleton rest) :
      CutsBy opening (.leaf node :: skeleton) (node :: rest)
  | group {delimiter : Delimiter} {children rest : Stream} {span : Span}
      {inner skeleton : Skeleton}
      (closed : ¬ ∃ hole behind, opening.opens (.group delimiter children span :: rest) hole behind)
      (inside : CutsBy opening inner children) (behind : CutsBy opening skeleton rest) :
      CutsBy opening (.group delimiter inner span :: skeleton)
        (.group delimiter children span :: rest)

theorem exists_cutsBy (opening : Opening) (stream : Stream) :
    ∃ skeleton, CutsBy opening skeleton stream := by
  cases stream with
  | nil => exact ⟨[], .nil⟩
  | cons node rest =>
    by_cases opened : ∃ hole behind, opening.opens (node :: rest) hole behind
    · -- The cut goes on behind the hole, so the recursion is not on the tail.
      obtain ⟨hole, others, opens⟩ := opened
      obtain ⟨skeleton, behind⟩ := exists_cutsBy opening others
      exact ⟨.hole hole :: skeleton, .hole opens behind⟩
    · obtain ⟨skeleton, behind⟩ := exists_cutsBy opening rest
      cases node with
      | ident | literal | punct => exact ⟨_, .leaf trivial opened behind⟩
      | group delimiter children span =>
        obtain ⟨inner, inside⟩ := exists_cutsBy opening children
        exact ⟨.group delimiter inner span :: skeleton, .group opened inside behind⟩
termination_by sizeOf stream
decreasing_by
  · obtain ⟨first, taken, isStream⟩ := opening.takes opens
    have shorter := Stream.sizeOf_le_of_suffix (List.suffix_append taken others)
    rw [isStream, List.cons.sizeOf_spec]
    omega
  · simp only [List.cons.sizeOf_spec]
    omega
  · simp only [List.cons.sizeOf_spec, Node.group.sizeOf_spec]
    omega

namespace CutsBy

variable {opening : Opening} {skeleton : Skeleton} {stream : Stream}

theorem of_group (cuts : CutsBy opening skeleton stream) {delimiter : Delimiter} {inner : Skeleton}
    {span : Span} (membership : .group delimiter inner span ∈ skeleton) :
    ∃ children, CutsBy opening inner children := by
  induction cuts with
  | nil => cases membership
  | hole _ _ inRest | leaf _ _ _ inRest => exact inRest (by simpa using membership)
  | group _ inside _ _ inRest =>
    rcases List.mem_cons.mp membership with same | membership
    · cases same
      exact ⟨_, inside⟩
    · exact inRest membership

/-- Each level of the skeleton is cut in the same way. -/
theorem of_level (cuts : CutsBy opening skeleton stream) {level : Skeleton}
    (isLevel : skeleton.Level level) : ∃ nodes, CutsBy opening level nodes := by
  induction isLevel generalizing stream with
  | top => exact ⟨stream, cuts⟩
  | inside membership below belowCuts =>
    obtain ⟨children, inside⟩ := cuts.of_group membership
    exact belowCuts inside

theorem isLeaf (cuts : CutsBy opening skeleton stream) {node : Node}
    (membership : .leaf node ∈ skeleton) : node.IsLeaf := by
  induction cuts with
  | nil => cases membership
  | hole _ _ inRest | group _ _ _ _ inRest => exact inRest (by simpa using membership)
  | leaf isLeaf _ _ inRest =>
    rcases List.mem_cons.mp membership with same | membership
    · cases same
      exact isLeaf
    · exact inRest membership

/-- Every hole was opened somewhere. -/
theorem exists_opens (cuts : CutsBy opening skeleton stream) {hole : Stream}
    (membership : hole ∈ holes skeleton) : ∃ stream rest, opening.opens stream hole rest := by
  induction cuts with
  | nil => cases membership
  | hole opens _ inRest =>
    rcases List.mem_cons.mp membership with rfl | membership
    · exact ⟨_, _, opens⟩
    · exact inRest membership
  | leaf _ _ _ inRest => exact inRest membership
  | group _ _ _ inChildren inRest =>
    rcases List.mem_append.mp membership with membership | membership
    · exact inChildren membership
    · exact inRest membership

end CutsBy

theorem filled_append (filling : Stream → Stream) (front back : Skeleton) :
    filled filling (front ++ back) = filled filling front ++ filled filling back := by
  induction front with
  | nil => rfl
  | cons part front inductionHypothesis =>
    rw [List.cons_append, filled, inductionHypothesis, filled, List.append_assoc]

/-- A hole lies on some level. -/
theorem exists_level_of_mem_holes (skeleton : Skeleton) {hole : Stream}
    (membership : hole ∈ holes skeleton) :
    ∃ level, skeleton.Level level ∧ .hole hole ∈ level := by
  cases skeleton with
  | nil => cases membership
  | cons part rest =>
    rcases List.mem_append.mp membership with inPart | inRest
    · cases part with
      | leaf => cases inPart
      | hole body =>
        rw [List.mem_singleton.mp inPart]
        exact ⟨_, .top _, List.mem_cons_self⟩
      | group delimiter children span =>
        obtain ⟨level, below, inLevel⟩ := exists_level_of_mem_holes children inPart
        exact ⟨level, .inside List.mem_cons_self below, inLevel⟩
    · obtain ⟨level, isLevel, inLevel⟩ := exists_level_of_mem_holes rest inRest
      cases isLevel with
      | top => exact ⟨_, .top _, List.mem_cons_of_mem _ inLevel⟩
      | inside inGroup below =>
        exact ⟨level, .inside (List.mem_cons_of_mem _ inGroup) below, inLevel⟩

end Skeleton

end Unroll
