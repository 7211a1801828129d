import Highlighting.Text.Lines
import Highlighting.Text.Lowercase

/-! Paths: names separated by slashes. Empty names and `.` mean nothing. -/

namespace Highlighting.Text

/-- The names of a path that lead somewhere. -/
def pathNames (path : String) : List (List Char) :=
  (splitOn '/' path.toList).filter fun name => name != [] && name != ['.']

/-- What follows the last dot of a name, unless the only dot is the first character. -/
def nameExtension? (name : List Char) : Option (List Char) :=
  match (splitOn '.' name).reverse with
  | _ :: [] => none
  | [_, []] => none
  | last :: _ => some last
  | [] => none

/-- The extension of the last name of a path; the name `..` has none. -/
def extension? (path : String) : Option String :=
  match (pathNames path).getLast? with
  | none => none
  | some name => if name = ['.', '.'] then none else (nameExtension? name).map String.ofList

/-- A path inside a directory; an absolute path stands for itself. -/
def joinPath (directory name : String) : String :=
  if name.toList.head? = some '/' then name
  else if directory.isEmpty ∨ directory.toList.getLast? = some '/' then directory ++ name
  else directory ++ "/" ++ name

end Highlighting.Text
