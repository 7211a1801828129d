import Highlighting.Dict
import Highlighting.Number.Unsigned

/-! YAML values, and how they are read as what is expected of them. A scalar has no type of its own:
the same one reads as a number where a number is expected, and as its text where a text is. -/

namespace Highlighting

open Number

/-- A value; the entries of a mapping keep their order and their repetitions. -/
inductive Yaml where
  | scalar (plain : Bool) (text : String)
  | sequence (items : List Yaml)
  | mapping (entries : List (Yaml × Yaml))
  deriving Repr, Inhabited

namespace Yaml

/-- What stands where nothing is written. -/
def absent : Yaml := .scalar true ""

/-- The plain scalars that stand for no value. -/
def nullTexts : List String := ["", "~", "null", "Null", "NULL"]

def isNull : Yaml → Bool
  | .scalar true text => nullTexts.contains text
  | _ => false

def asText? : Yaml → Option String
  | .scalar _ text => some text
  | _ => none

/-- An unsigned number: one plus sign may come first, then `0x`, `0o` or `0b` and digits of that
base, or decimal digits without leading zeros. -/
def unsigned? (cs : List Char) : Option UInt64 :=
  match (match cs with | '+' :: rest => rest | _ => cs) with
  | '0' :: 'x' :: digits => (ofDigits? 16 digits).bind fit?
  | '0' :: 'o' :: digits => (ofDigits? 8 digits).bind fit?
  | '0' :: 'b' :: digits => (ofDigits? 2 digits).bind fit?
  | '0' :: _ :: _ => none
  | digits => (ofDigits? 10 digits).bind fit?

def asUnsigned? : Yaml → Option UInt64
  | .scalar true text => unsigned? text.toList
  | _ => none

/-- A value that a plain null leaves out. -/
def nullable? {α : Type} (decode : Yaml → Option α) (y : Yaml) : Option (Option α) :=
  if y.isNull then some none else (decode y).map some

/-- The items of a sequence; an absent one has none. -/
def items? : Yaml → Option (List Yaml)
  | .sequence items => some items
  | .scalar true "" => some []
  | _ => none

/-- The entries of a mapping whose keys are scalars; an absent one has none. -/
def entries? : Yaml → Option (List (String × Yaml))
  | .mapping entries => entries.mapM fun (k, v) => k.asText?.map (·, v)
  | .scalar true "" => some []
  | _ => none

def asTexts? (y : Yaml) : Option (List String) := y.items?.bind (·.mapM asText?)

/-- The entries of a mapping, each value decoded; of two with one key the later counts. -/
def asDict? {α : Type} (decode : Yaml → Option α) (y : Yaml) : Option (Dict α) := do
  let entries ← y.entries?
  pure (Dict.ofList (← entries.mapM fun (k, v) => (decode v).map (k, ·)))

end Yaml

end Highlighting
