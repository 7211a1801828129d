import Highlighting.Node.Flat
import Highlighting.Text.Lines

/-! Lines of highlighted text. A piece that holds line feeds is cut there, and each part keeps its
classes. -/

namespace Highlighting

/-- A piece that lies within a line, or the end of a line. -/
inductive LineItem where
  | fragment (piece : FlatNode)
  | lineEnd
  deriving DecidableEq, Repr

namespace LineItem

/-- The lines of a sequence of items: one more than it has line ends. -/
def lines : List LineItem → List (List FlatNode)
  | [] => [[]]
  | .lineEnd :: rest => [] :: lines rest
  | .fragment piece :: rest =>
    match lines rest with
    | [] => [[piece]]
    | line :: more => (piece :: line) :: more

/-- The parts of a cut piece: those that are not empty, with a line end between neighbours. -/
def ofParts (piece : FlatNode) : List (List Char) → List LineItem
  | [] => []
  | [part] => fragmentOf part
  | part :: rest => fragmentOf part ++ lineEnd :: ofParts piece rest
where
  fragmentOf (part : List Char) : List LineItem :=
    if part.isEmpty then [] else [fragment (piece.withText (String.ofList part))]

/-- Cuts a piece after its line feeds. A piece without one stays as it is, but an empty bare text
is dropped. -/
def keeping (piece : FlatNode) : List LineItem :=
  match Text.splitKeeping piece.text.toList with
  | [part] => if part.isEmpty && piece.isBare then [] else [fragment piece]
  | parts => ofParts piece parts

/-- Cuts a piece at its line feeds, which are dropped. A piece without one stays as it is. -/
def dropping (piece : FlatNode) : List LineItem :=
  match Text.split piece.text.toList with
  | [_] => [fragment piece]
  | parts => ofParts piece parts

end LineItem

/-- The lines of flat text without their line feeds: one more than there are line feeds. -/
def splitLines (flat : List FlatNode) : List (List FlatNode) :=
  LineItem.lines (flat.flatMap LineItem.dropping)

def numberLines : (first : Nat) → List (List FlatNode) → Forest
  | _, [] => []
  | number, line :: rest =>
    Node.line number (line.map FlatNode.toNode) :: numberLines (number + 1) rest

/-- The lines of flat text with their line feeds. A last line without a piece is none. -/
def keptLines (flat : List FlatNode) : List (List FlatNode) :=
  let lines := LineItem.lines (flat.flatMap LineItem.keeping)
  if lines.getLast? = some [] then lines.dropLast else lines

/-- Regroups a forest into numbered line elements; its pieces must keep to the limit. -/
def Forest.groupByLines (f : Forest) (limit : Option Nat) : Except LimitExceeded Forest := do
  pure (numberLines 1 (keptLines (← f.flatten limit)))

end Highlighting
