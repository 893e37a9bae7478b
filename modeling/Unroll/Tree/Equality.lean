import Unroll.Tree.Basic

set_option autoImplicit false

/-!
# Structural equality

Two streams are alike if they coincide in everything but spans and spacing.
-/

namespace Unroll

mutual

def Node.alike : Node → Node → Bool
  | .ident name _, .ident name' _ => name == name'
  | .literal kind raw _, .literal kind' raw' _ => kind == kind' && raw == raw'
  | .punct char _ _, .punct char' _ _ => char == char'
  | .group delimiter children _, .group delimiter' children' _ =>
    delimiter == delimiter' && Stream.alike children children'
  | _, _ => false

def Stream.alike : List Node → List Node → Bool
  | [], [] => true
  | node :: rest, node' :: rest' => node.alike node' && Stream.alike rest rest'
  | _, _ => false

end

end Unroll
