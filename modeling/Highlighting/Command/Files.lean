import Highlighting.Text.Path
import Highlighting.Text.Utf8

/-! Reading files, and a directory of files by their paths. A path is walked name by name, so each
name but the last has to lead to a directory. -/

namespace Highlighting

inductive ReadFault where
  | missing
  | directory
  /-- A file stands where the path needs a directory. -/
  | notDirectory
  | nameTooLong
  /-- The bytes are not UTF-8. -/
  | notText
  | other (message : String)
  deriving DecidableEq, Repr

def ReadFault.message : ReadFault → String
  | missing => "No such file or directory (os error 2)"
  | directory => "Is a directory (os error 21)"
  | notDirectory => "Not a directory (os error 20)"
  | nameTooLong => "File name too long (os error 36)"
  | notText => "stream did not contain valid UTF-8"
  | other message => message

def textOf (bytes : ByteArray) : Except ReadFault String :=
  match String.fromUTF8? bytes with
  | some text => pure text
  | none => throw .notText

/-- The path that stands for the standard input. -/
def isStandardInput (path : String) : Bool :=
  (Text.splitOn '/' path.toList).head? == some ['-'] && Text.pathNames path == [['-']]

/-- A place in the tree of files: the names that lead there from the working directory, two dots
only in front. From the root, an empty name comes first. -/
abbrev Place := List (List Char)

namespace Place

def parentName : List Char := ['.', '.']

/-- Where a name leads from a directory. One dot is the directory itself, two dots are the one
above it; above the root is the root. -/
def follow (here : Place) (name : List Char) : Place :=
  if name = ['.'] then here
  else if name = parentName then
    if here = [[]] then here
    else if here.getLast?.all (· = parentName) then here ++ [name]
    else here.dropLast
  else here ++ [name]

def start (path : String) : Place := if path.toList.head? = some '/' then [[]] else []

def steps (path : String) : List (List Char) := (Text.splitOn '/' path.toList).filter (· != [])

/-- The place that names lead to from a directory. -/
def walk (here : Place) (names : List (List Char)) : Place := names.foldl follow here

def passed (here : Place) : List (List Char) → List Place
  | [] => []
  | name :: rest => here :: passed (follow here name) rest

end Place

/-- Some files, and the directories on the way to them. -/
structure Files where
  entries : List (Place × ByteArray)
  directories : List Place

namespace Files

/-- The files with the given paths; of two with one path the later counts. -/
def ofPaths (files : List (String × ByteArray)) : Files where
  entries := files.reverse.map fun (path, bytes) =>
    ((Place.start path).walk (Place.steps path), bytes)
  directories := files.flatMap fun (path, _) => (Place.start path).passed (Place.steps path)

/-- The working directory, those above it and the root are always there. -/
def isDirectory (files : Files) (place : Place) : Bool :=
  place.all (fun name => name == [] || name == Place.parentName)
    || files.directories.contains place

inductive Entry where
  | file (bytes : ByteArray)
  | directory (place : Place)

def maxName : Nat := 255

def maxPath : Nat := 4095

def step (files : Files) (here : Entry) (name : List Char) : Except ReadFault Entry :=
  match here with
  | .file _ => throw .notDirectory
  | .directory place =>
    let there := place.follow name
    if name = ['.'] ∨ name = Place.parentName then pure (.directory there)
    else if maxName < Text.byteLength name then throw .nameTooLong
    else match files.entries.lookup there with
      | some bytes => pure (.file bytes)
      | none => if files.isDirectory there then pure (.directory there) else throw .missing

/-- What a path leads to. A slash at the end asks for a directory. -/
def find (files : Files) (path : String) : Except ReadFault Entry := do
  if maxPath < Text.byteLength path.toList then throw .nameTooLong
  let entry ← (Place.steps path).foldlM files.step (.directory (Place.start path))
  if path.toList.getLast? = some '/' then files.step entry ['.'] else pure entry

def read (files : Files) (path : String) : Except ReadFault String := do
  match ← files.find path with
  | .file bytes => textOf bytes
  | .directory _ => throw .directory

end Files

end Highlighting
