import Unroll.Invocation
import Unroll.Text.Case
import Unroll.Token.Assembly

set_option autoImplicit false

/-!
# Settings

The settings of a session: how much to trace, the name of the invocations, the three characters of
the loops' style, and the limit of nested invocations.
-/

namespace Unroll

inductive TraceLevel where
  | debug
  | info
  | error
  deriving DecidableEq, Repr

namespace TraceLevel

def name : TraceLevel → Bytes
  | .debug => utf8 "Debug"
  | .info => utf8 "Info"
  | .error => utf8 "Error"

def ofName? (name : Bytes) : Option TraceLevel :=
  if Text.spells ['d', 'e', 'b', 'u', 'g'] name then some .debug
  else if Text.spells ['i', 'n', 'f', 'o'] name then some .info
  else if Text.spells ['e', 'r', 'r', 'o', 'r'] name then some .error
  else none

/-- The level to trace at. No name is the level for errors, an unknown name that for information. -/
def ofName (name : Bytes) : TraceLevel :=
  if name.isEmpty then .error else (ofName? name).getD .info

end TraceLevel

structure Settings where
  trace : Bytes := utf8 "Error"
  macroName : Bytes := utf8 "seq"
  marker : Bytes := utf8 "#"
  continuation : Bytes := utf8 "*"
  paste : Bytes := utf8 "~"
  maxDepth : Int := Stream.defaultLimit
  deriving DecidableEq, Repr

namespace Settings

def standard : Settings := { }

def checkTrace (settings : Settings) : Except Fault Unit :=
  match TraceLevel.ofName? settings.trace with
  | some _ => .ok ()
  | none => .error (.diagnosed Span.null (.traceLevel settings.trace))

def checkCharacter (setting : String) (value : Bytes) : Except Fault Unit :=
  if Utf8.length value = 1 then .ok ()
  else .error (.diagnosed Span.null (.severalCharacters setting value))

def checkDepth (settings : Settings) : Except Fault Unit :=
  if 0 < settings.maxDepth then .ok ()
  else .error (.diagnosed Span.null (.depthNotPositive settings.maxDepth))

/-- Whether a text is a single identifier and nothing else. -/
def isIdentifier (text : Bytes) : Bool :=
  match Stream.parse text with
  | .ok [node] => node.isIdent text
  | _ => false

def checkMacroName (settings : Settings) : Except Fault Unit :=
  if isIdentifier settings.macroName then .ok ()
  else .error (.diagnosed Span.null (.macroName settings.macroName))

/-- Accepts settings that can be used, and finds the first one that cannot. -/
def validate (settings : Settings) : Except Fault Settings := do
  settings.checkTrace
  checkCharacter "marker" settings.marker
  checkCharacter "continuation" settings.continuation
  checkCharacter "paste" settings.paste
  settings.checkDepth
  settings.checkMacroName
  return settings

def character (value : Bytes) : Int32 := Int32.ofNat (Utf8.firstCode value)

def style (settings : Settings) : Style :=
  ⟨character settings.marker, character settings.continuation, character settings.paste⟩

def generators (settings : Settings) : Generators :=
  Generators.register settings.macroName (Stream.expand settings.style) []

/-- Expands the invocation that a source consists of. -/
def expandSource (settings : Settings) (source : Bytes) : Except Fault Stream := do
  (← Stream.parse source).expand settings.style

/-- Splices all invocations of a source. -/
def spliceSource (settings : Settings) (source : Bytes) : Except Fault Stream := do
  (← Stream.parse source).splice settings.generators settings.maxDepth

end Settings

end Unroll
