import Highlighting.Config
import Highlighting.Json.Printer
import Highlighting.Text.Blank
import Highlighting.Yaml.Parser

/-! The written form of a configuration: a YAML mapping. What is not written has its standard value,
and what is unknown is left alone. -/

namespace Highlighting.Config

/-- The value of a field of a record, which may be given once. -/
def field? {α : Type} (fields : List (String × Yaml)) (name : String) (default : α)
    (decode : Yaml → Option α) : Option α :=
  match fields.filter (·.1 == name) with
  | [] => some default
  | [(_, value)] => decode value
  | _ => none

def ofYaml? (y : Yaml) : Option Config := do
  let fields ← y.entries?
  pure
    { nodeLimit := ← field? fields "node_limit" standard.nodeLimit (Yaml.nullable? Yaml.asUnsigned?)
      diffLimit := ← field? fields "tokenize_node_limit" standard.diffLimit Yaml.asUnsigned?
      aliases := ← field? fields "aliases" ∅ (Yaml.asDict? Yaml.asText?)
      dependencies := ← field? fields "dependencies" ∅ (Yaml.asDict? Yaml.asTexts?)
      theme := ← field? fields "theme" .empty fun v => Theme.mk <$> v.asDict? Yaml.asText? }

def read? (text : String) : Option Config :=
  if text.toList.all Text.isBlank then some standard else (Yaml.parse? text).bind ofYaml?

/-- A text between double quotes, each character that is not plain ASCII by its number. -/
def quote (text : String) : String :=
  let digit (n i : Nat) : Char := Json.hexChar (n / Nat.pow 16 i % 16)
  let encode (c : Char) : List Char :=
    if c.toNat < 0x20 ∨ 0x7e < c.toNat ∨ c = '"' ∨ c = '\\' then
      '\\' :: 'U' :: [7, 6, 5, 4, 3, 2, 1, 0].map (digit c.toNat)
    else [c]
  String.ofList ('"' :: text.toList.flatMap encode ++ ['"'])

def writeTexts (items : List String) : String :=
  "[" ++ ", ".intercalate (items.map quote) ++ "]"

/-- A mapping on one line. Its keys are announced, so they may be long. -/
def writeDict {α : Type} (encode : α → String) (d : Dict α) : String :=
  let entry (e : String × α) : String := "? " ++ quote e.1 ++ " : " ++ encode e.2
  "\x7b" ++ ", ".intercalate (d.entries.map entry) ++ "\x7d"

def write (c : Config) : String :=
  let limit := match c.nodeLimit with
    | some n => Nat.repr n.toNat
    | none => "null"
  "node_limit: " ++ limit
    ++ "\ntokenize_node_limit: " ++ Nat.repr c.diffLimit.toNat
    ++ "\naliases: " ++ writeDict quote c.aliases
    ++ "\ndependencies: " ++ writeDict writeTexts c.dependencies
    ++ "\ntheme: " ++ writeDict quote c.theme.classes ++ "\n"

end Highlighting.Config
