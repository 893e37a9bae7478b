import Unroll.Command.Suggestion
import Unroll.Command.Value
import Unroll.Settings.Basic

set_option autoImplicit false

/-!
# Requests

The words of a command line as a request: a command, the values of its flags and its arguments.
Flags and arguments mix freely, the last value of a flag counts, and behind `--` all words are
arguments. The command is looked up first, then come the flags from left to right, and last the
number of arguments.
-/

namespace Unroll

inductive UsageError where
  | badSyntax (text : Bytes)
  | unknownFlag (name : Bytes)
  | unknownLetter (letter : UInt8) (letters : Bytes)
  | missingValue (flag : Flag)
  | badNumber (flag : Flag) (value : Bytes) (reason : Command.ValueError)
  | badSwitch (flag : Flag) (value : Bytes) (reason : Command.ValueError)
  | unknownCommand (name : Bytes)
  | unexpectedArgument (command : Command) (argument : Bytes)
  | tooManyArguments (count : Nat)
  deriving DecidableEq, Repr

namespace UsageError

/-- A byte in single quotes. One beyond ASCII is shown by the first byte of the character with its
number. -/
def quotedLetter (letter : UInt8) : Bytes :=
  let code :=
    if letter < 0x80 then letter.toNat else if letter < 0xc0 then 0xc2 else 0xc3
  let text :=
    if letter = byte '\'' then utf8 "\\'"
    else if letter = byte '"' then utf8 "\""
    else Text.quoteGlyph (.char code (Utf8.encodeScalar code))
  utf8 "'" ++ text ++ utf8 "'"

def badValue (flag : Flag) (value : Bytes) (reader : String) (reason : Command.ValueError) :
    Bytes :=
  utf8 "invalid argument " ++ Text.quoted value ++ utf8 " for " ++ Text.quoted flag.shown ++
    utf8 " flag: " ++ utf8 reader ++ utf8 ": parsing " ++ Text.quoted value ++ utf8 ": " ++
    reason.message

def notACommand (name place : Bytes) : Bytes :=
  utf8 "unknown command " ++ Text.quoted name ++ utf8 " for " ++ Text.quoted place

def message : UsageError → Bytes
  | .badSyntax text => utf8 "bad flag syntax: " ++ text
  | .unknownFlag name => utf8 "unknown flag: --" ++ name
  | .unknownLetter letter letters =>
    utf8 "unknown shorthand flag: " ++ quotedLetter letter ++ utf8 " in -" ++ letters
  | .missingValue flag => utf8 "flag needs an argument: --" ++ flag.name
  | .badNumber flag value reason => badValue flag value "strconv.ParseInt" reason
  | .badSwitch flag value reason => badValue flag value "strconv.ParseBool" reason
  | .unknownCommand name => notACommand name Command.program ++ Command.suggestionLines name
  | .unexpectedArgument command argument =>
    notACommand argument (Command.program ++ utf8 " " ++ command.name)
  | .tooManyArguments count =>
    utf8 "accepts at most 1 arg(s), received " ++ Bytes.decimal count

end UsageError

/-- The values of flags. -/
structure Options where
  config : Option Bytes := none
  trace : Option Bytes := none
  macroName : Option Bytes := none
  marker : Option Bytes := none
  continuation : Option Bytes := none
  paste : Option Bytes := none
  maxDepth : Option Int := none
  tree : Bool := false
  fingerprint : Bool := false
  help : Bool := false
  deriving DecidableEq, Repr

namespace Options

def number (flag : Flag) (value : Bytes) : Except UsageError Int :=
  (Command.readNumber value).mapError (.badNumber flag value)

def switch (flag : Flag) (value : Bytes) : Except UsageError Bool :=
  (Command.readSwitch value).mapError (.badSwitch flag value)

def set (options : Options) (flag : Flag) (value : Bytes) : Except UsageError Options := do
  match flag with
  | .config => return { options with config := some value }
  | .trace => return { options with trace := some value }
  | .macroName => return { options with macroName := some value }
  | .marker => return { options with marker := some value }
  | .continuation => return { options with continuation := some value }
  | .paste => return { options with paste := some value }
  | .maxDepth => return { options with maxDepth := some (← number flag value) }
  | .tree => return { options with tree := ← switch flag value }
  | .fingerprint => return { options with fingerprint := ← switch flag value }
  | .help => return { options with help := ← switch flag value }

/-- Settings with those replaced that have a flag. -/
def override (options : Options) (settings : Settings) : Settings where
  trace := options.trace.getD settings.trace
  macroName := options.macroName.getD settings.macroName
  marker := options.marker.getD settings.marker
  continuation := options.continuation.getD settings.continuation
  paste := options.paste.getD settings.paste
  maxDepth := options.maxDepth.getD settings.maxDepth

end Options

/-- What a single word of a command line is. -/
inductive Word where
  | argument
  | endOfFlags
  | assignment (flag : Flag) (value : Bytes)
  | valueless (flag : Flag)
  | letters (letters : Bytes)

namespace Word

def dash : UInt8 := byte '-'

def equals : UInt8 := byte '='

/-- A word behind two dashes: the name of a flag, and maybe a value behind an equals sign. -/
def ofLong (flags : List Flag) (text : Bytes) : Except UsageError Word :=
  let (name, value) := Bytes.cut equals text
  match flags.find? (·.name == name) with
  | none => .error (.unknownFlag name)
  | some flag =>
    if text.contains equals then .ok (.assignment flag value)
    else if flag.isSwitch then .ok (.assignment flag (utf8 "true"))
    else .ok (.valueless flag)

def ofText (flags : List Flag) (text : Bytes) : Except UsageError Word :=
  match text with
  | [] | [_] => .ok .argument
  | first :: second :: rest =>
    if first ≠ dash then .ok .argument
    else if second ≠ dash then .ok (.letters (second :: rest))
    else
      match rest with
      | [] => .ok .endOfFlags
      | third :: _ =>
        if third = dash ∨ third = equals then .error (.badSyntax text) else ofLong flags rest

end Word

/-- What letters start with that are meant for a test of the program, and are passed over. -/
def Word.testLetters : Bytes := utf8 "test."

/-- Sets the flags that letters stand for. The only letter is that of the help. -/
def Options.setLetters (options : Options) : Bytes → Except UsageError Options
  | [] => .ok options
  | letter :: rest =>
    if Word.testLetters.isPrefixOf (letter :: rest) then .ok options
    else if letter ≠ byte 'h' then .error (.unknownLetter letter (letter :: rest))
    else if rest.head? = some Word.equals ∧ 1 < rest.length then
      options.set .help (rest.drop 1)
    else setLetters { options with help := true } rest

structure Request where
  command : Command
  options : Options := { }
  arguments : List Bytes := []
  deriving DecidableEq, Repr

namespace Request

/-- Whether the next word counts as a value in the search for the command. In front of a command no
switch is known. -/
def takesNext : Bytes → Bool
  | [] => false
  | first :: rest =>
    first = Word.dash ∧ Word.equals ∉ rest ∧ (rest.length = 1 ∨ rest.head? = some Word.dash)

/-- The first word that is neither a flag nor the value of one, and the other words. -/
def splitCommand : List Bytes → Option (Bytes × List Bytes)
  | [] => none
  | [text] => if text.head?.all (· == Word.dash) then none else some (text, [])
  | text :: next :: rest =>
    if text = utf8 "--" then none
    else if takesNext text then
      (splitCommand rest).map fun (name, others) => (name, text :: next :: others)
    else if text.head?.all (· == Word.dash) then
      (splitCommand (next :: rest)).map fun (name, others) => (name, text :: others)
    else some (text, next :: rest)

/-- Adds words to a request from left to right. -/
def read (flags : List Flag) (request : Request) : List Bytes → Except UsageError Request
  | [] => .ok request
  | [text] => do
    match ← Word.ofText flags text with
    | .argument => return { request with arguments := request.arguments ++ [text] }
    | .endOfFlags => return request
    | .assignment flag value => return { request with options := ← request.options.set flag value }
    | .valueless flag => throw (.missingValue flag)
    | .letters letters => return { request with options := ← request.options.setLetters letters }
  | text :: next :: rest => do
    match ← Word.ofText flags text with
    | .argument =>
      read flags { request with arguments := request.arguments ++ [text] } (next :: rest)
    | .endOfFlags => return { request with arguments := request.arguments ++ next :: rest }
    | .assignment flag value =>
      read flags { request with options := ← request.options.set flag value } (next :: rest)
    | .valueless flag => read flags { request with options := ← request.options.set flag next } rest
    | .letters letters =>
      read flags { request with options := ← request.options.setLetters letters } (next :: rest)

def checkArguments (request : Request) : Except UsageError Unit :=
  match request.command, request.arguments with
  | .expand, arguments | .splice, arguments =>
    if arguments.length ≤ 1 then .ok () else .error (.tooManyArguments arguments.length)
  | .repl, argument :: _ | .version, argument :: _ =>
    .error (.unexpectedArgument request.command argument)
  | _, _ => .ok ()

/-- The request behind a command's name. A request for help needs no arguments. -/
def ofCommand (command : Command) (words : List Bytes) : Except UsageError Request := do
  let request ← read (Flag.ofCommand (some command)) { command } words
  if request.options.help then return { request with command := .help }
  request.checkArguments
  return request

def ofWords (words : List Bytes) : Except UsageError Request :=
  match splitCommand words with
  | none => read (Flag.ofCommand none) ⟨.help, { }, []⟩ words
  | some (name, others) =>
    match Command.ofName? name with
    | some command => ofCommand command others
    | none => .error (.unknownCommand name)

end Request

end Unroll
