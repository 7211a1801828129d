import Highlighting.Text.Lines

/-! The names that grammars give to the parts of a text they capture, and the classes those parts
get. A name is a dotted path; an unknown name stands for its longest known ancestor. -/

namespace Highlighting

def knownNames : List String :=
  ["attribute", "boolean", "comment", "constant", "constant.builtin", "constructor", "embedded",
   "escape", "function", "function.builtin", "function.macro", "function.method", "keyword",
   "keyword.return", "keyword.function", "keyword.operator", "label", "module", "number",
   "operator", "property", "punctuation", "punctuation.bracket", "punctuation.delimiter",
   "punctuation.special", "string", "string.special", "tag", "tag.attribute", "text", "type",
   "type.builtin", "variable", "variable.builtin", "variable.parameter"]

def tokenClass : String := "token"

/-- The longest known ancestor of a name that stands in reverse. -/
def resolveReversed? (reversed : List Char) : Option String :=
  let name := String.ofList reversed.reverse
  if name ∈ knownNames then some name
  else match _h : reversed.dropWhile (· != '.') with
    | [] => none
    | _ :: parent => resolveReversed? parent
termination_by reversed.length
decreasing_by
  have shorter := (List.dropWhile_sublist (l := reversed) (· != '.')).length_le
  rw [_h] at shorter
  exact shorter

/-- The name itself if it is known, else its longest known ancestor. -/
def resolveName? (name : String) : Option String := resolveReversed? name.toList.reverse

/-- The classes of a captured part; a name that starts with an underscore gives none. -/
def tokenClasses? (name : String) : Option (List String) :=
  if name.toList.head? = some '_' then none
  else (resolveName? name).map fun known =>
    tokenClass :: (Text.splitOn '.' known.toList).map String.ofList

end Highlighting
