import Unroll.Text.Digest
import Unroll.Tree.Basic

set_option autoImplicit false

/-!
# Fingerprints

A fingerprint is the digest of a stream's description. The description shows the nesting, the class
of each node and its text. Neither spans, spacing nor the kinds of literals are part of it, and
texts stand in it as they are.
-/

namespace Unroll

/-- The end of a node's description, behind those of its children, in front of a text. -/
def describedAs (kind text behind : Bytes) : Bytes :=
  utf8 "],Kind:\"" ++ kind ++ utf8 "\",Text:\"" ++ text ++ utf8 "\"\x7d" ++ behind

mutual

/-- Writes what the description says of a node in front of a text: its children's descriptions, its
class and its text, as the fields of a record in alphabetical order. -/
def Node.describe : Node → Bytes → Bytes
  | .ident name _, behind => utf8 "\x7bKids:[" ++ describedAs (utf8 "ident") name behind
  | .literal _ raw _, behind => utf8 "\x7bKids:[" ++ describedAs (utf8 "lit") raw behind
  | .punct char _ _, behind =>
    utf8 "\x7bKids:[" ++ describedAs (utf8 "punct") (Utf8.encode char.toInt) behind
  | .group delimiter children _, behind =>
    utf8 "\x7bKids:[" ++ Stream.describe children (describedAs delimiter.name [] behind)

/-- Writes the descriptions of nodes with commas between them in front of a text. -/
def Stream.describe : List Node → Bytes → Bytes
  | [], behind => behind
  | [node], behind => node.describe behind
  | node :: next :: rest, behind =>
    node.describe (Bytes.comma :: Stream.describe (next :: rest) behind)

end

def Stream.description (stream : Stream) : Bytes :=
  utf8 "\x7bNodes:[" ++ Stream.describe stream (utf8 "]\x7d")

def Stream.fingerprint (stream : Stream) : Bytes :=
  utf8 "v1_" ++ Digest.hex (Stream.description stream)

end Unroll
