import Unroll.Command.Run

set_option autoImplicit false

/-!
# The program

Reads what a request needs, runs it, and prints its text or its fault. A session answers each line
as it comes.
-/

namespace Unroll.Main

partial def readToEnd (stream : IO.FS.Stream) (content : ByteArray) : IO ByteArray := do
  let piece ← stream.read 65536
  if piece.isEmpty then return content
  readToEnd stream (content ++ piece)

/-- Why a file cannot be read. The number twenty-one is that of a directory in place of a file. -/
def fileError (name : Bytes) : IO.Error → FileError
  | .noFileOrDirectory _ _ _ => .missing name
  | .inappropriateType _ 21 _ => .directory name
  | .inappropriateType _ _ _ => .behindFile name
  | .invalidArgument _ 36 _ => .tooLong name
  | .invalidArgument _ _ _ => .unnameable name
  | _ => .denied name

def readFile (name : Bytes) : IO (Bytes × Except FileError Bytes) := do
  match String.fromUTF8? ⟨name.toArray⟩ with
  | none => return (name, .error (.missing name))
  | some path =>
    try
      return (name, .ok (← IO.FS.readBinFile path).toList)
    catch error => return (name, .error (fileError name error))

/-- Files that were read, by their names. -/
def fileOf (files : List (Bytes × Except FileError Bytes)) (name : Bytes) :
    Except FileError Bytes :=
  (files.lookup name).getD (.error (.missing name))

def print (text : Bytes) : IO Unit := do
  let output ← IO.getStdout
  output.write ⟨text.toArray⟩
  output.flush

partial def converse (settings : Settings) (input : IO.FS.Stream) : IO Unit := do
  print (utf8 "seqgen> ")
  let line ← input.getLine
  if line.isEmpty then return
  let trimmed := Text.trimmed (utf8 line)
  if trimmed.isEmpty then converse settings input
  else
    let reply := Session.answer settings trimmed
    print (Session.shown reply)
    unless reply.quit do converse settings input

def failWith (message : Bytes) : IO UInt32 := do
  let output ← IO.getStderr
  output.write ⟨(message ++ [Bytes.newline]).toArray⟩
  return 1

def perform (request : Request) : IO UInt32 := do
  let files ← (request.configPath :: request.sourcePath?.toList).mapM readFile
  let input ← IO.getStdin
  match request.command, request.settings (fileOf files) with
  | .repl, .ok settings =>
    print Session.greeting
    converse settings input
    print Session.farewell
    return 0
  | command, _ =>
    let readsInput := (command = .expand ∨ command = .splice) ∧ request.sourcePath? = none
    let text ← if readsInput then readToEnd input .empty else pure .empty
    match request.run ⟨fileOf files, text.toList⟩ with
    | .ok output =>
      print output
      return 0
    | .error fault => failWith fault.text

end Unroll.Main

def main (arguments : List String) : IO UInt32 := do
  match Unroll.Request.ofWords (arguments.map Unroll.utf8) with
  | .ok request => Unroll.Main.perform request
  | .error reason => Unroll.Main.failWith reason.message
