import Highlighting.Json.Basic
import Highlighting.Number.Shortest

/-! Writing JSON values, on one line or indented by two spaces. -/

namespace Highlighting.Json

def hexChar (n : Nat) : Char :=
  if n < 10 then Char.ofNat ('0'.toNat + n) else Char.ofNat ('a'.toNat + n - 10)

/-- A character inside a string: quotes, backslashes and control characters are escaped. -/
def escape (c : Char) : String :=
  match c with
  | '"' => "\\\""
  | '\\' => "\\\\"
  | '\x08' => "\\b"
  | '\t' => "\\t"
  | '\n' => "\\n"
  | '\x0c' => "\\f"
  | '\r' => "\\r"
  | c =>
    if c.toNat < 0x20 then
      "\\u00" ++ String.ofList [hexChar (c.toNat / 16), hexChar (c.toNat % 16)]
    else String.ofList [c]

def quote (s : String) : String :=
  (s.toList.foldl (fun out c => out ++ escape c) "\"").push '"'

def scalarText : Json → String
  | .null => "null"
  | .bool b => if b then "true" else "false"
  | .int n => toString n
  | .double d => d.text
  | .str s => quote s
  | .arr _ => "[]"
  | .obj _ => "\x7b\x7d"

mutual

/-- Writes a value on one line after `out`. -/
def renderAfter (out : String) : Json → String
  | .arr items => (renderItems (out.push '[') true items).push ']'
  | .obj fields => (renderFields (out.push '\x7b') true fields).push '\x7d'
  | j => out ++ j.scalarText

def renderItems (out : String) (first : Bool) : List Json → String
  | [] => out
  | j :: rest => renderItems (renderAfter (if first then out else out.push ',') j) false rest

def renderFields (out : String) (first : Bool) : List (String × Json) → String
  | [] => out
  | (key, j) :: rest =>
    let out := (if first then out else out.push ',') ++ quote key
    renderFields (renderAfter (out.push ':') j) false rest

end

def render (j : Json) : String := renderAfter "" j

def newLine (depth : Nat) : String := String.ofList ('\n' :: List.replicate (2 * depth) ' ')

mutual

/-- Writes a value after `out`, its parts on lines of their own. -/
def prettyAfter (out : String) (depth : Nat) : Json → String
  | .arr (j :: rest) =>
    (prettyItems (out.push '[') (depth + 1) true (j :: rest) ++ newLine depth).push ']'
  | .obj (field :: rest) =>
    (prettyFields (out.push '\x7b') (depth + 1) true (field :: rest) ++ newLine depth).push '\x7d'
  | j => out ++ j.scalarText

def prettyItems (out : String) (depth : Nat) (first : Bool) : List Json → String
  | [] => out
  | j :: rest =>
    let out := (if first then out else out.push ',') ++ newLine depth
    prettyItems (prettyAfter out depth j) depth false rest

def prettyFields (out : String) (depth : Nat) (first : Bool) : List (String × Json) → String
  | [] => out
  | (key, j) :: rest =>
    let out := (if first then out else out.push ',') ++ newLine depth ++ quote key
    prettyFields (prettyAfter (out ++ ": ") depth j) depth false rest

end

/-- The value indented by two spaces; an empty array or object stays on its line. -/
def pretty (j : Json) : String := prettyAfter "" 0 j

end Highlighting.Json
