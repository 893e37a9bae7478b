import Unroll.Proofs.NumeralReading
import Unroll.Proofs.RepeatedSections

set_option autoImplicit false

/-!
# Forms of a loop

A loop over a body without sections may as well mark the whole body as one section, and a range that
includes its last number may as well be written up to the next one. Both forms say the same loop:
the first one because a section is filled with the copies that a whole body is replaced by, the
second one because the values are the same.
-/

namespace Unroll

/-- A body that is one section as a whole. -/
inductive Style.Marks (style : Style) (body : Stream) : Stream → Prop
  | nodes (spacing spacing' : Spacing) (span groupSpan span' : Span) :
      Marks style body [.punct style.marker spacing span, .group .round body groupSpan,
        .punct style.continuation spacing' span']

namespace Stream

theorem unrolled_marked {style : Style} {body marked : Stream} (marks : style.Marks body marked)
    (header : Header) :
    unrolled style header marked = Stream.copies style.paste header body := by
  obtain ⟨spacing, spacing', span, groupSpan, span'⟩ := marks
  rw [unrolled, Stream.fill_section]
  exact List.append_nil _

theorem unrolled_inclusive {last : UInt64} (notLargest : last < 0xffffffffffffffff)
    (name : Bytes) (span span' : Span) (first : UInt64) (style : Style) (body : Stream) :
    unrolled style ⟨name, span, first, last, true⟩ body =
      unrolled style ⟨name, span', first, last + 1, false⟩ body := by
  apply unrolled_congr
  · rfl
  · exact Range.valuesFrom_succ notLargest first

theorem expand_of_header {nodes : List Node} {header : Header}
    (written : Header.Written nodes header) (style : Style) (body : Stream) (span : Span) :
    expand style (nodes ++ [.group .curly body span]) = .ok (unrolled style header body) :=
  expand_of_written style ⟨nodes, span, written, rfl⟩

end Stream

/-- Marking a whole body without sections changes nothing, and neither does writing an inclusive
range up to the next number. -/
theorem loop_forms_agree (style : Style) (nodes : List Node) (header : Header)
    (written : Header.Written nodes header) :
    (∀ body marked span span', ¬ body.Holds (IsSection style.marker style.continuation) →
      style.Marks body marked →
      ∃ out, Stream.expand style (nodes ++ [.group .curly body span]) = .ok out ∧
        Stream.expand style (nodes ++ [.group .curly marked span']) = .ok out) ∧
    (header.range.inclusive = true → header.range.stop < 0xffffffffffffffff →
      ∀ nodes' variableSpan,
        Header.Written nodes' ⟨header.variableName, variableSpan, header.range.start,
          header.range.stop + 1, false⟩ →
        ∀ body span, ∃ out, Stream.expand style (nodes ++ [.group .curly body span]) = .ok out ∧
          Stream.expand style (nodes' ++ [.group .curly body span]) = .ok out) := by
  constructor
  · intro body marked span span' notHolds marks
    have whole := Stream.expand_of_header written style body span
    have asSection := Stream.expand_of_header written style marked span'
    rw [Stream.unrolled_of_not_holds notHolds] at whole
    rw [Stream.unrolled_marked marks] at asSection
    exact ⟨_, whole, asSection⟩
  · intro isInclusive notLargest nodes' variableSpan written' body span
    obtain ⟨name, nameSpan, first, last, inclusive⟩ := header
    cases isInclusive
    have included := Stream.expand_of_header written style body span
    have upToNext := Stream.expand_of_header written' style body span
    rw [Stream.unrolled_inclusive notLargest name nameSpan variableSpan] at included
    exact ⟨_, included, upToNext⟩

/-- The header of a loop over the last numbers below the largest one, included and up to it. -/
def topmostIncluded : List Node :=
  [.ident (word ['N']) ⟨0, 1⟩, .ident (word ['i', 'n']) ⟨2, 4⟩,
    .ofValue 0xfffffffffffffffd ⟨5, 25⟩, .punct (charCode '.') .joint ⟨25, 26⟩,
    .punct (charCode '.') .joint ⟨26, 27⟩, .punct (charCode '=') .alone ⟨27, 28⟩,
    .ofValue 0xfffffffffffffffe ⟨28, 48⟩]

def topmostExcluded : List Node :=
  [.ident (word ['N']) ⟨0, 1⟩, .ident (word ['i', 'n']) ⟨2, 4⟩,
    .ofValue 0xfffffffffffffffd ⟨5, 25⟩, .punct (charCode '.') .joint ⟨25, 26⟩,
    .punct (charCode '.') .alone ⟨26, 27⟩, .ofValue 0xffffffffffffffff ⟨27, 47⟩]

/-- A chain and a marker that opens no section. -/
def markedChain : Stream :=
  [.ident (word ['x']) ⟨50, 51⟩, .punct (charCode '~') .alone ⟨51, 52⟩,
    .ident (word ['N']) ⟨52, 53⟩, .punct (charCode '#') .alone ⟨54, 55⟩]

theorem topmost_forms_agree :
    (∃ out, Stream.expand {} (topmostIncluded ++ [.group .curly markedChain ⟨49, 56⟩]) = .ok out ∧
      Stream.expand {} (topmostExcluded ++ [.group .curly markedChain ⟨49, 56⟩]) = .ok out) ∧
    ∃ out, Stream.expand {} (topmostIncluded ++ [.group .curly markedChain ⟨49, 56⟩]) = .ok out ∧
      Stream.expand {} (topmostIncluded ++ [.group .curly
        [.punct (charCode '#') .alone ⟨50, 51⟩, .group .round markedChain ⟨51, 58⟩,
          .punct (charCode '*') .alone ⟨58, 59⟩] ⟨49, 60⟩]) = .ok out := by
  have included : Header.Written topmostIncluded
      ⟨word ['N'], ⟨0, 1⟩, 0xfffffffffffffffd, 0xfffffffffffffffe, true⟩ :=
    ⟨_, _, .literal _ (Numeral.read_decimal _), .literal _ (Numeral.read_decimal _),
      .nodes _ (.inclusive _ _ _ _)⟩
  have excluded : Header.Written topmostExcluded
      ⟨word ['N'], ⟨0, 1⟩, 0xfffffffffffffffd, 0xffffffffffffffff, false⟩ :=
    ⟨_, _, .literal _ (Numeral.read_decimal _), .literal _ (Numeral.read_decimal _),
      .nodes _ (.exclusive _ _ _)⟩
  obtain ⟨marked, upToNext⟩ := loop_forms_agree {} _ _ included
  refine ⟨upToNext rfl (by decide) _ _ excluded _ _, ?_⟩
  exact marked _ _ _ _ (by decide) (.nodes _ _ _ _ _)

end Unroll
