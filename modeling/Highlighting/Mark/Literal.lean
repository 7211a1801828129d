import Highlighting.Mark.Occurrence
import Highlighting.Node.Basic

/-! Marking known literals in a highlighted forest. Each text is searched on its own: a literal
that spans two texts is not marked. -/

namespace Highlighting

def Piece.toNode : Piece → Node
  | .plain text => .text (String.ofList text)
  | .hit text => .mark (String.ofList text)

/-- A text with its occurrences marked. An empty text stays. -/
def markText (needles : List Needle) (value : String) : Forest :=
  if value.isEmpty then [.text value]
  else (Piece.cut needles value.toList).map Piece.toNode

mutual

def Node.markWith (needles : List Needle) : Node → Forest
  | .text value => markText needles value
  | .element tag properties children =>
    [.element tag properties (Forest.markWith needles children)]

def Forest.markWith (needles : List Needle) : Forest → Forest
  | [] => []
  | n :: rest => n.markWith needles ++ Forest.markWith needles rest

end

/-- Marks the literals inside the texts of the forest. Empty literals are ignored, and without
others the forest stays. -/
def Forest.mark (f : Forest) (literals : List String) : Forest :=
  let needles := Needle.ofLiterals literals
  if needles.isEmpty then f else f.markWith needles

end Highlighting
