/-! Cutting a text at its line feeds. -/

namespace Highlighting.Text

/-- The stretches between separators: `k` separators give `k + 1` stretches. -/
def splitOn (separator : Char) : List Char → List (List Char)
  | [] => [[]]
  | c :: cs =>
    if c = separator then [] :: splitOn separator cs
    else match splitOn separator cs with
      | [] => [[c]]
      | s :: rest => (c :: s) :: rest

def split (text : List Char) : List (List Char) := splitOn '\n' text

/-- The stretches of `split`, each with the line feed that ends it. -/
def splitKeeping : List Char → List (List Char)
  | [] => [[]]
  | c :: cs =>
    if c = '\n' then [c] :: splitKeeping cs
    else match splitKeeping cs with
      | [] => [[c]]
      | s :: rest => (c :: s) :: rest

/-- Drops one carriage return from the end. -/
def dropReturn (line : List Char) : List Char :=
  if line.getLast? = some '\r' then line.dropLast else line

/-- The lines of a text. A line ends at a line feed, with the carriage return before it if there
is one; what follows the last line feed is a line unless it is empty. -/
def lines (text : List Char) : List (List Char) := finish (split text)
where
  finish : List (List Char) → List (List Char)
    | [] => []
    | [last] => if last.isEmpty then [] else [last]
    | line :: rest => dropReturn line :: finish rest

/-- Joins lines with one line feed between neighbours. -/
def unlines : List (List Char) → List Char
  | [] => []
  | [line] => line
  | line :: rest => line ++ '\n' :: unlines rest

end Highlighting.Text
