import Unroll.Command.Basic
import Unroll.Text.Case

set_option autoImplicit false

/-!
# Suggestions

For a word that names no command, the commands that may have been meant: those that the word starts,
and those that two changes of a byte turn it into. Letter case does not count.
-/

namespace Unroll.Command

/-- The row of distances behind one more letter. A distance is that of the letter's word so far to
the target so far: `left` and `diagonal` are the ones in front of the next entry, in the new row and
in the one above it. -/
def distancesBehind (letter : UInt8) : (left diagonal : Nat) → Bytes → List Nat → List Nat
  | left, diagonal, target :: targets, above :: row =>
    let here := if letter = target then diagonal else min (min above left) diagonal + 1
    here :: distancesBehind letter here above targets row
  | _, _, _, _ => []

def nextDistances (target : Bytes) (row : List Nat) (letter : UInt8) : List Nat :=
  match row with
  | [] => []
  | first :: rest => (first + 1) :: distancesBehind letter (first + 1) first target rest

/-- The number of insertions, deletions and replacements of a byte that turn a text into another. -/
def editDistance (text target : Bytes) : Nat :=
  (text.foldl (nextDistances target) (List.range (target.length + 1))).getLastD 0

def isSuggestedFor (word : Bytes) (command : Command) : Bool :=
  let word := Text.lowered word
  command ≠ .help ∧ (editDistance word command.name ≤ 2 ∨ word.isPrefixOf command.name)

def suggestions (word : Bytes) : List Command := all.filter (isSuggestedFor word)

/-- The lines that end the message about an unknown command. -/
def suggestionLines (word : Bytes) : Bytes :=
  match suggestions word with
  | [] => []
  | commands =>
    utf8 "\n\nDid you mean this?\n" ++ commands.flatMap fun command =>
      utf8 "\t" ++ command.name ++ utf8 "\n"

end Unroll.Command
