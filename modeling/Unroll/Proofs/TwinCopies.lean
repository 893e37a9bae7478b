import Unroll.Proofs.NumeralReading
import Unroll.Proofs.RepeatedSections

set_option autoImplicit false

/-!
# Twin copies

Two copies of a body differ in texts only, and in no other texts than those that stem from the
variable: the literal for the variable on its own, and the name of a chain in which it stands behind
the head. There they differ for any two values. The digits of a value may stand in several places of
a pasted name: digits of one length can be compared place by place, and digits of different lengths
make names of different lengths.
-/

namespace Unroll

theorem Bytes.decimal_inj {value value' : UInt64}
    (same : Bytes.decimal value.toNat = Bytes.decimal value'.toNat) : value = value' := by
  have read := Numeral.read_decimal value
  rw [same, Numeral.read_decimal value', Except.ok.injEq] at read
  exact read.symm

namespace Binding

variable {variableName : Bytes} {value value' : UInt64} {names : List Bytes}

theorem piece_self (variableName : Bytes) (value : UInt64) :
    piece ⟨variableName, value⟩ variableName = Bytes.decimal value.toNat := if_pos rfl

theorem piece_of_ne {name : Bytes} (other : name ≠ variableName) (value : UInt64) :
    piece ⟨variableName, value⟩ name = name := if_neg other

theorem pieces_of_not_mem (notNamed : variableName ∉ names) (value : UInt64) :
    names.flatMap (piece ⟨variableName, value⟩) = names.flatten := by
  induction names with
  | nil => rfl
  | cons name names inductionHypothesis =>
    obtain ⟨other, notNamed⟩ := List.ne_and_not_mem_of_not_mem_cons notNamed
    rw [List.flatMap_cons, piece_of_ne other.symm, inductionHypothesis notNamed, List.flatten_cons]

theorem length_pieces (variableName : Bytes) (value : UInt64) (names : List Bytes) :
    (names.flatMap (piece ⟨variableName, value⟩)).length =
      (names.filter (· ≠ variableName)).flatten.length +
        names.count variableName * (Bytes.decimal value.toNat).length := by
  induction names with
  | nil => simp
  | cons name names inductionHypothesis =>
    rw [List.flatMap_cons, List.length_append, inductionHypothesis]
    by_cases isVariable : name = variableName
    · subst isVariable
      rw [piece_self, List.filter_cons_of_neg (by simp), List.count_cons_self, Nat.succ_mul]
      omega
    · rw [piece_of_ne isVariable, List.filter_cons_of_pos (by simpa), List.flatten_cons,
        List.length_append, List.count_cons_of_ne isVariable]
      omega

theorem decimal_eq_of_pieces_eq (named : variableName ∈ names)
    (sameLength : (Bytes.decimal value.toNat).length = (Bytes.decimal value'.toNat).length)
    (same : names.flatMap (piece ⟨variableName, value⟩) =
      names.flatMap (piece ⟨variableName, value'⟩)) :
    Bytes.decimal value.toNat = Bytes.decimal value'.toNat := by
  induction names with
  | nil => cases named
  | cons name names inductionHypothesis =>
    rw [List.flatMap_cons, List.flatMap_cons] at same
    by_cases isVariable : name = variableName
    · subst isVariable
      rw [piece_self, piece_self] at same
      exact (List.append_inj same sameLength).1
    · rw [piece_of_ne isVariable, piece_of_ne isVariable] at same
      have inNames := List.mem_of_ne_of_mem (Ne.symm isVariable) named
      exact inductionHypothesis inNames (List.append_cancel_left same)

/-- What names add to a chain differs for two values if the variable is among them. -/
theorem pieces_ne (named : variableName ∈ names) (differ : value ≠ value') :
    names.flatMap (piece ⟨variableName, value⟩) ≠ names.flatMap (piece ⟨variableName, value'⟩) := by
  intro same
  have lengths := congrArg List.length same
  rw [length_pieces, length_pieces, Nat.add_left_cancel_iff] at lengths
  have sameLength := Nat.eq_of_mul_eq_mul_left (List.count_pos_iff.mpr named) lengths
  exact differ (Bytes.decimal_inj (decimal_eq_of_pieces_eq named sameLength same))

end Binding

namespace Stream

variable {paste : Int32}

/-- A body and its copies for two values. Each node of a copy stems from one site of the body: a
chain of identifiers with all its links, or another node. The copies differ in texts at the
variable on its own and at chains with the variable among their links. -/
inductive Twins (paste : Int32) (variableName : Bytes) (value value' : UInt64) :
    Stream → Stream → Stream → Prop
  | nil : Twins paste variableName value value' [] [] []
  | leaf {node : Node} {rest copy copy' : Stream} (isLeaf : node.IsLeaf)
      (noName : ∀ name span, node ≠ .ident name span)
      (behind : Twins paste variableName value value' rest copy copy') :
      Twins paste variableName value value' (node :: rest) (node :: copy) (node :: copy')
  | group {delimiter : Delimiter} {children inner inner' rest copy copy' : Stream} {span : Span}
      (inside : Twins paste variableName value value' children inner inner')
      (behind : Twins paste variableName value value' rest copy copy') :
      Twins paste variableName value value' (.group delimiter children span :: rest)
        (.group delimiter inner span :: copy) (.group delimiter inner' span :: copy')
  | bare {span : Span} {raw raw' : Bytes} {rest copy copy' : Stream}
      (alone : ¬ Stream.Pastes paste rest) (apart : value ≠ value' → raw ≠ raw')
      (behind : Twins paste variableName value value' rest copy copy') :
      Twins paste variableName value value' (.ident variableName span :: rest)
        (.literal .int raw span :: copy) (.literal .int raw' span :: copy')
  | pasted {head text text' : Bytes} {span : Span} {links : List Link} {rest copy copy' : Stream}
      (named : variableName ∈ links.map Link.name) (ended : ¬ Stream.Pastes paste rest)
      (apart : value ≠ value' → text ≠ text')
      (behind : Twins paste variableName value value' rest copy copy') :
      Twins paste variableName value value'
        (.ident head span :: (links.flatMap (Link.nodes paste) ++ rest))
        (.ident text span :: copy) (.ident text' span :: copy')
  | fixed {head text : Bytes} {span : Span} {links : List Link} {rest copy copy' : Stream}
      (notNamed : variableName ∉ links.map Link.name)
      (notAlone : links = [] → head ≠ variableName) (ended : ¬ Stream.Pastes paste rest)
      (behind : Twins paste variableName value value' rest copy copy') :
      Twins paste variableName value value'
        (.ident head span :: (links.flatMap (Link.nodes paste) ++ rest))
        (.ident text span :: copy) (.ident text span :: copy')

section Copies

variable {variableName : Bytes} {value value' : UInt64}

theorem Twins.chain {rest copy copy' : Stream} (ended : ¬ Stream.Pastes paste rest)
    (behind : Twins paste variableName value value' rest copy copy') (head : Bytes) (span : Span)
    (links : List Link) :
    Twins paste variableName value value'
      (.ident head span :: (links.flatMap (Link.nodes paste) ++ rest))
      (((Chain.head head span).linked ⟨variableName, value⟩ links).node ⟨variableName, value⟩ ::
        copy)
      (((Chain.head head span).linked ⟨variableName, value'⟩ links).node ⟨variableName, value'⟩ ::
        copy') := by
  cases links with
  | nil =>
    simp only [Chain.linked, List.foldl_nil]
    by_cases isVariable : head = variableName
    · subst isVariable
      rw [Chain.node_head_self, Chain.node_head_self]
      exact .bare ended (mt Bytes.decimal_inj) behind
    · rw [Chain.node_head_of_ne isVariable, Chain.node_head_of_ne isVariable]
      exact .fixed List.not_mem_nil (fun _ => isVariable) ended behind
  | cons link links =>
    simp only [Chain.linked_cons, Chain.node, Bool.true_eq_false, false_and, if_false]
    by_cases named : variableName ∈ (link :: links).map Link.name
    · apply Twins.pasted named ended _ behind
      intro differ same
      exact Binding.pieces_ne named differ (List.append_cancel_left same)
    · rw [Binding.pieces_of_not_mem named, Binding.pieces_of_not_mem named]
      exact .fixed named (fun noLink => absurd noLink (List.cons_ne_nil _ _)) ended behind

variable (paste variableName value value') in
theorem twins_substitute (body : Stream) :
    Twins paste variableName value value' body
      (Stream.substitute paste ⟨variableName, value⟩ body)
      (Stream.substitute paste ⟨variableName, value'⟩ body) := by
  induction body using chainInduction paste with
  | nil => exact .nil
  | chain head span links rest ended behind =>
    rw [substitute_linked ended, substitute_linked ended]
    exact .chain ended behind head span links
  | leaf node rest isLeaf noName behind =>
    rw [substitute_leaf isLeaf noName, substitute_leaf isLeaf noName]
    exact .leaf isLeaf noName behind
  | group delimiter children span rest inside behind => exact .group inside behind

end Copies

end Stream

mutual

/-- A node without its text. -/
def Node.frame : Node → Node
  | .ident _ span => .ident [] span
  | .literal kind _ span => .literal kind [] span
  | .punct char spacing span => .punct char spacing span
  | .group delimiter children span => .group delimiter (Stream.frame children) span

/-- What a stream is apart from its names and literal texts: the nodes on each level, and of each of
them the type, the kind or delimiter or character, the span and the spacing. -/
def Stream.frame : List Node → List Node
  | [] => []
  | node :: rest => node.frame :: Stream.frame rest

end

namespace Stream

variable {paste : Int32} {variableName : Bytes} {value value' : UInt64}

theorem length_frame (stream : Stream) : (Stream.frame stream).length = stream.length := by
  induction stream with
  | nil => rfl
  | cons node rest inductionHypothesis =>
    rw [Stream.frame, List.length_cons, List.length_cons, inductionHypothesis]

theorem Twins.frame_eq {body copy copy' : Stream}
    (twins : Twins paste variableName value value' body copy copy') :
    Stream.frame copy = Stream.frame copy' := by
  induction twins with
  | nil => rfl
  | leaf _ _ _ inRest | bare _ _ _ inRest | pasted _ _ _ _ inRest | fixed _ _ _ _ inRest =>
    simp only [Stream.frame, Node.frame, inRest]
  | group _ _ inChildren inRest => simp only [Stream.frame, Node.frame, inChildren, inRest]

theorem Twins.length_eq {body copy copy' : Stream}
    (twins : Twins paste variableName value value' body copy copy') :
    copy.length = copy'.length := by
  rw [← length_frame copy, ← length_frame copy', twins.frame_eq]

theorem length_copies (paste : Int32) (header : Header) (body : Stream) :
    (Stream.copies paste header body).length = header.range.values.length *
      (Stream.substitute paste ⟨header.variableName, 0⟩ body).length := by
  have each (value : UInt64) := (twins_substitute paste header.variableName value 0 body).length_eq
  simp only [Stream.copies, List.length_flatMap, each, List.map_const', List.sum_replicate_nat]

end Stream

/-- The copies of a body for two values coincide but for the texts that stem from the variable, and
these differ if the values do. So a loop over a body without sections gives as many nodes for each
value of its range. -/
theorem copies_differ_at_values_only (style : Style) :
    (∀ variableName value value' body,
      Stream.frame (Stream.substitute style.paste ⟨variableName, value⟩ body) =
        Stream.frame (Stream.substitute style.paste ⟨variableName, value'⟩ body) ∧
      Stream.Twins style.paste variableName value value' body
        (Stream.substitute style.paste ⟨variableName, value⟩ body)
        (Stream.substitute style.paste ⟨variableName, value'⟩ body)) ∧
    ∀ stream out, Stream.expand style stream = .ok out →
      ∃ header body, Loop.Written header body stream ∧
        (¬ body.Holds (IsSection style.marker style.continuation) →
          ∃ values, header.range.Enumerates values ∧
            out.length = values.length *
              (Stream.substitute style.paste ⟨header.variableName, 0⟩ body).length) := by
  constructor
  · intro variableName value value' body
    have twins := Stream.twins_substitute style.paste variableName value value' body
    exact ⟨twins.frame_eq, twins⟩
  · intro stream out expanded
    have outcome := Stream.expand_outcome style stream
    rw [expanded] at outcome
    obtain ⟨header, body, written, rfl⟩ := outcome
    refine ⟨header, body, written, fun notHolds => ?_⟩
    rw [Stream.unrolled_of_not_holds notHolds]
    exact ⟨header.range.values, header.range.enumerates_values, Stream.length_copies _ header body⟩

/-- The variable on its own and in a name, over values of one and of two digits. -/
def growingNames : Stream :=
  [.ident (word ['N']) ⟨0, 1⟩, .ident (word ['i', 'n']) ⟨2, 4⟩, .literal .int (word ['9']) ⟨5, 6⟩,
    .punct (charCode '.') .joint ⟨6, 7⟩, .punct (charCode '.') .alone ⟨7, 8⟩,
    .literal .int (word ['1', '1']) ⟨8, 10⟩,
    .group .curly
      [.ident (word ['x']) ⟨13, 14⟩, .punct (charCode '~') .alone ⟨14, 15⟩,
        .ident (word ['N']) ⟨15, 16⟩, .ident (word ['N']) ⟨17, 18⟩] ⟨11, 20⟩]

def growingNamesExpanded : Stream :=
  [.ident (word ['x', '9']) ⟨13, 14⟩, .literal .int (word ['9']) ⟨17, 18⟩,
    .ident (word ['x', '1', '0']) ⟨13, 14⟩, .literal .int (word ['1', '0']) ⟨17, 18⟩]

theorem growingNames_length :
    growingNames.expand {} = .ok growingNamesExpanded ∧
      ∃ header body, Loop.Written header body growingNames ∧
        ¬ body.Holds (IsSection (charCode '#') (charCode '*')) ∧
        ∃ values, header.range.Enumerates values ∧
          growingNamesExpanded.length = values.length *
            (Stream.substitute (charCode '~') ⟨header.variableName, 0⟩ body).length := by
  have expanded : growingNames.expand {} = .ok growingNamesExpanded := by with_unfolding_all rfl
  obtain ⟨header, body, written, counted⟩ :=
    (copies_differ_at_values_only {}).2 growingNames growingNamesExpanded expanded
  have notHolds : ¬ body.Holds (IsSection (charCode '#') (charCode '*')) := by
    obtain ⟨nodes, span, -, isLoop⟩ := written
    have isBody := congrArg List.getLast? isLoop
    rw [List.getLast?_concat] at isBody
    cases isBody
    decide
  exact ⟨expanded, header, body, written, notHolds, counted notHolds⟩

end Unroll
