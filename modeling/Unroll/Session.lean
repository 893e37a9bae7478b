import Unroll.Settings.Basic
import Unroll.Text.Blank
import Unroll.Tree.Outline

set_option autoImplicit false

/-!
# Sessions

A session answers line by line. A line is expanded, or is a command behind a colon: `:tree` draws
the expansion, `:splice` splices a source, `:quit` ends the session.
-/

namespace Unroll.Session

/-- What a line prints, what went wrong with it, and whether it ends the session. -/
structure Reply where
  output : Bytes := []
  fault : Option Fault := none
  quit : Bool := false

namespace Reply

def print (output : Bytes) : Reply := { output }

def fail (fault : Fault) : Reply := { fault := some fault }

/-- Prints what can be written, and shows in place of it what cannot. -/
def written : Except MissingBrackets Bytes → Reply
  | .ok output => print output
  | .error missing => fail (.plain (Layout.MissingBrackets.notice missing))

end Reply

def line (stream : Stream) : Except MissingBrackets Bytes := do
  return (← stream.text) ++ [Bytes.newline]

/-- A fault with its place in a named source. -/
def diagnosed (name source : Bytes) (fault : Fault) : Fault :=
  (fault.diagnose name source).getD fault

/-- The answer to a source: what is made of it is written, a fault is placed in the source. -/
def answerWith (write : Stream → Except MissingBrackets Bytes) (source : Bytes) :
    Except Fault Stream → Reply
  | .ok stream => .written (write stream)
  | .error fault => .fail (diagnosed (utf8 "<repl>") source fault)

def command (settings : Settings) (name argument : Bytes) : Reply :=
  if name = utf8 "quit" ∨ name = utf8 "q" then { quit := true }
  else if name = utf8 "tree" then
    answerWith (Stream.outline argument) argument (settings.expandSource argument)
  else if name = utf8 "splice" then answerWith line argument (settings.spliceSource argument)
  else .fail (.plain (utf8 "unknown command :" ++ name))

def answer (settings : Settings) (input : Bytes) : Reply :=
  match input with
  | first :: rest =>
    if first = byte ':' then
      let (name, argument) := Bytes.cut Bytes.blank rest
      command settings name (Text.trimmed argument)
    else answerWith line input (settings.expandSource input)
  | [] => answerWith line input (settings.expandSource input)

/-- A fault as a session prints it: further lines of the message are indented. -/
def faultLines (fault : Fault) : Bytes :=
  let lines := Bytes.splitOn Bytes.newline fault.text
  utf8 "   Error  " ++ List.intercalate (utf8 "\n          ") lines ++ [Bytes.newline]

/-- What a reply prints in a session. -/
def shown (reply : Reply) : Bytes :=
  reply.output ++ (reply.fault.map faultLines).getD []

/-- Answers lines up to the one that quits. Lines without characters other than white space are
passed over. -/
def run (settings : Settings) : List Bytes → Bytes
  | [] => []
  | input :: inputs =>
    let trimmed := Text.trimmed input
    if trimmed.isEmpty then run settings inputs
    else
      let reply := answer settings trimmed
      if reply.quit then shown reply else shown reply ++ run settings inputs

def farewell : Bytes := utf8 "Good bye!\n"

def greeting : Bytes := utf8 "   >>  Welcome to seqgen\n"

/-- The lines of a text. A last line without newline counts. -/
def linesOf (text : Bytes) : List Bytes :=
  let pieces := Bytes.splitOn Bytes.newline text
  if pieces.getLast? = some [] then pieces.dropLast else pieces

def transcript (settings : Settings) (input : Bytes) : Bytes :=
  run settings (linesOf input) ++ farewell

end Unroll.Session
