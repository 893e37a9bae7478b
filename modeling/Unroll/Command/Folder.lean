import Unroll.Fault

set_option autoImplicit false

/-!
# Folders

A folder of files as data: names with their contents, where a name may lead through further folders.
A path is followed part by part from the folder, and may lead out of it, where there are no files
but the null device. A name has no byte that is zero, a part of it has 255 bytes at most, and a path
fewer than 4096.
-/

namespace Unroll

structure Folder where
  files : List (Bytes × Bytes)

namespace Folder

def here : Bytes := utf8 "."

def above : Bytes := utf8 ".."

def slash : UInt8 := byte '/'

/-- The parts of a file's name. -/
def parts (name : Bytes) : List Bytes :=
  (Bytes.splitOn slash name).filter fun part => part ≠ [] ∧ part ≠ here

/-- The file that is always empty. -/
def nullDevice : List Bytes := [[slash], utf8 "dev", utf8 "null"]

def content? (folder : Folder) (place : List Bytes) : Option Bytes :=
  if place = nullDevice then some []
  else (folder.files.find? fun (name, _) => parts name == place).map Prod.snd

/-- Whether a part leads out of the folder: to the one above it, or to the one above all. -/
def leadsOut (part : Bytes) : Bool := part = above ∨ part = [slash]

def isFolder (folder : Folder) (place : List Bytes) : Bool :=
  place.all leadsOut || place == nullDevice.dropLast || folder.files.any fun (name, _) =>
    place.isPrefixOf (parts name) && parts name ≠ place

/-- The place above another one. -/
def placeAbove (place : List Bytes) : List Bytes :=
  if place.all leadsOut then place ++ [above] else place.dropLast

/-- Follows one part of a path. -/
def follow (folder : Folder) (path : Bytes) (place : List Bytes) (part : Bytes) :
    Except FileError (List Bytes) :=
  if (folder.content? place).isSome then .error (.behindFile path)
  else if part = [] ∨ part = here then .ok place
  else if part = above then .ok (placeAbove place)
  else if 255 < part.length then .error (.tooLong path)
  else
    let next := place ++ [part]
    if (folder.content? next).isSome || folder.isFolder next then .ok next
    else .error (.missing path)

def start (path : Bytes) : List Bytes := if path.head? = some slash then [[slash]] else []

/-- The content of the file that a path leads to. -/
def read (folder : Folder) (path : Bytes) : Except FileError Bytes :=
  if path.isEmpty then .error (.missing path)
  else if path.contains 0 then .error (.unnameable path)
  else if 4096 ≤ path.length then .error (.tooLong path)
  else do
    let place ← (Bytes.splitOn slash path).foldlM (folder.follow path) (start path)
    match folder.content? place with
    | some content => return content
    | none => throw (.directory path)

end Folder

end Unroll
