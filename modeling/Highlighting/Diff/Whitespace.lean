import Highlighting.Node.Basic

/-! Making white space visible: every space and tab gets an element of its own, and an empty one
behind it. -/

namespace Highlighting

def spaceClass : String := "space_char"

def tabClass : String := "tabulator_char"

/-- The class of a character that is made visible. -/
def visibleClass? (c : Char) : Option String :=
  if c = ' ' then some spaceClass else if c = '\t' then some tabClass else none

/-- The parts of a text after `run`, the other characters just before it, which stand in reverse. -/
def visibleParts (run : List Char) : List Char → Forest
  | [] => Forest.leaf run.reverse
  | c :: cs =>
    match visibleClass? c with
    | some visible =>
      Forest.leaf run.reverse ++
        .span [visible] [.text (String.ofList [c])] :: .span [] [.text ""] :: visibleParts [] cs
    | none => visibleParts (c :: run) cs

/-- A text with spaces or tabs becomes an element of its parts; another stays as it is. -/
def visualizeText (value : String) : Node :=
  if value.toList.any fun c => (visibleClass? c).isSome then .span [] (visibleParts [] value.toList)
  else .text value

mutual

def Node.visualize : Node → Node
  | .text value => visualizeText value
  | .element tag properties children => .element tag properties (Forest.visualize children)

def Forest.visualize : Forest → Forest
  | [] => []
  | n :: rest => n.visualize :: Forest.visualize rest

end

end Highlighting
