import Highlighting.Json.Basic

/-! Themes rename classes. -/

namespace Highlighting

/-- New names of classes; a class without one keeps its name. -/
structure Theme where
  classes : Dict String
  deriving DecidableEq, Inhabited

namespace Theme

def empty : Theme := ⟨∅⟩

def rename (t : Theme) (c : String) : String := (t.classes.get? c).getD c

def apply (t : Theme) (classes : List String) : List String := classes.map t.rename

def toJson (t : Theme) : Json := Json.ofDict .str t.classes

def ofJson? (j : Json) : Option Theme := (j.asDict? Json.asString?).map Theme.mk

end Theme

end Highlighting
