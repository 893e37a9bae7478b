import Unroll.Command.Folder
import Unroll.Command.Request
import Unroll.Session
import Unroll.Settings.Document
import Unroll.Tree.Fingerprint

set_option autoImplicit false

/-!
# Running commands

A request prints a text or fails. Its settings are those of the settings file, with flags in front
of them, and they are checked before any command runs. Only the standard settings file may be
missing. Sources are read from a file or from the standard input.
-/

namespace Unroll

namespace Request

/-- What a request can read. -/
structure Surroundings where
  file : Bytes → Except FileError Bytes
  input : Bytes

def standardConfig : Bytes := utf8 ".seqgen.yaml"

def configPath (request : Request) : Bytes := request.options.config.getD standardConfig

def fileSettings (request : Request) (file : Bytes → Except FileError Bytes) :
    Except Fault Settings :=
  match request.options.config, file request.configPath with
  | _, .ok document => Settings.ofDocument document
  | none, .error (.missing _) => .ok Settings.standard
  | _, .error reason =>
    .error (.diagnosed Span.null (.unreadableSettings request.configPath reason))

def settings (request : Request) (file : Bytes → Except FileError Bytes) :
    Except Fault Settings := do
  (request.options.override (← request.fileSettings file)).validate

/-- The file that a request reads its source from, if it is not the standard input. -/
def sourcePath? (request : Request) : Option Bytes :=
  request.arguments.head?.filter (· ≠ utf8 "-")

structure Source where
  name : Bytes
  text : Bytes

def source (request : Request) (surroundings : Surroundings) : Except Fault Source :=
  match request.sourcePath? with
  | none => .ok ⟨utf8 "<stdin>", surroundings.input⟩
  | some path =>
    match surroundings.file path with
    | .ok text => .ok ⟨path, text⟩
    | .error reason => .error (.plain reason.message)

/-- What can be written, or a notice about what cannot. -/
def written : Except MissingBrackets Bytes → Except Fault Bytes
  | .ok text => .ok text
  | .error missing => .error (.plain (Layout.MissingBrackets.notice missing))

/-- A result, or its fault with the place in the source. -/
def placed {α : Type} (source : Source) (result : Except Fault α) : Except Fault α :=
  result.mapError (Session.diagnosed source.name source.text)

def fingerprintLine (stream : Stream) : Bytes :=
  utf8 "fingerprint " ++ stream.fingerprint ++ [Bytes.newline]

def runExpand (request : Request) (settings : Settings) (source : Source) : Except Fault Bytes := do
  let stream ← placed source (settings.expandSource source.text)
  let text ←
    written (if request.options.tree then stream.outline source.name else Session.line stream)
  return if request.options.fingerprint then text ++ fingerprintLine stream else text

def runSplice (settings : Settings) (source : Source) : Except Fault Bytes := do
  written (Session.line (← placed source (settings.spliceSource source.text)))

def version : Bytes := Command.program ++ utf8 " v0.1.0-dev\n"

def usage : Bytes :=
  utf8 "Usage:\n" ++ Command.all.flatMap fun command =>
    utf8 "  " ++ Command.program ++ utf8 " " ++ command.name ++ utf8 "\n"

def run (request : Request) (surroundings : Surroundings) : Except Fault Bytes := do
  match request.command with
  | .help | .completion => return usage
  | .version =>
    let _ ← request.settings surroundings.file
    return version
  | .repl =>
    let settings ← request.settings surroundings.file
    return Session.greeting ++ Session.transcript settings surroundings.input
  | .expand =>
    let settings ← request.settings surroundings.file
    runExpand request settings (← request.source surroundings)
  | .splice =>
    let settings ← request.settings surroundings.file
    runSplice settings (← request.source surroundings)

end Request

/-- Runs the words of a command line. -/
def Command.execute (words : List Bytes) (surroundings : Request.Surroundings) :
    Except Fault Bytes :=
  match Request.ofWords words with
  | .ok request => request.run surroundings
  | .error reason => .error (.plain reason.message)

end Unroll
