import Unroll.Text.Bytes

set_option autoImplicit false

/-!
# Commands and flags

The commands of the command line in the order in which they are listed, and the flags that each of
them takes. A switch is a flag that needs no value.
-/

namespace Unroll

inductive Command where
  | expand
  | splice
  | repl
  | version
  | completion
  | help
  deriving DecidableEq, Repr

namespace Command

def all : List Command := [.expand, .splice, .repl, .version, .completion, .help]

def name : Command → Bytes
  | .expand => utf8 "expand"
  | .splice => utf8 "splice"
  | .repl => utf8 "repl"
  | .version => utf8 "version"
  | .completion => utf8 "completion"
  | .help => utf8 "help"

def ofName? (name : Bytes) : Option Command := all.find? (·.name == name)

/-- The name of the program. -/
def program : Bytes := utf8 "seqgen"

end Command

inductive Flag where
  | config
  | trace
  | macroName
  | marker
  | continuation
  | paste
  | maxDepth
  | tree
  | fingerprint
  | help
  deriving DecidableEq, Repr

namespace Flag

/-- The flags that may also stand in front of a command. -/
def shared : List Flag := [.config, .trace, .macroName, .marker, .continuation, .paste, .maxDepth]

/-- The flags of a command, or of the program without one. -/
def ofCommand : Option Command → List Flag
  | some .expand => shared ++ [.tree, .fingerprint, .help]
  | _ => shared ++ [.help]

def name : Flag → Bytes
  | .config => utf8 "config"
  | .trace => utf8 "trace"
  | .macroName => utf8 "macro"
  | .marker => utf8 "marker"
  | .continuation => utf8 "continuation"
  | .paste => utf8 "paste"
  | .maxDepth => utf8 "max-depth"
  | .tree => utf8 "tree"
  | .fingerprint => utf8 "fingerprint"
  | .help => utf8 "help"

/-- A flag as messages show it, with its letter if it has one. -/
def shown : Flag → Bytes
  | .help => utf8 "-h, --help"
  | flag => utf8 "--" ++ flag.name

def isSwitch : Flag → Bool
  | .tree | .fingerprint | .help => true
  | _ => false

end Flag

end Unroll
