import Highlighting.Mark.Replacement
import Highlighting.Text.Utf8

/-! Texts with delimiters around the matches of a search. The delimiters are stripped, and the
matches become literals to mark. -/

namespace Highlighting

/-- The delimiters before and after a match. -/
structure Bounds where
  start : String
  stop : String
  deriving DecidableEq, Repr

namespace Bounds

/-- The delimiters that the search writes unless told otherwise. -/
def standard : Bounds := ⟨"<|[[--", "--]]|>"⟩

instance : Inhabited Bounds := ⟨standard⟩

def toJson (b : Bounds) : Json := .obj [("start", .str b.start), ("end", .str b.stop)]

def ofJson? (j : Json) : Option Bounds := do
  let fields ← j.record? ["start", "end"]
  pure
    { start := ← Json.required? fields "start" Json.asString?
      stop := ← Json.required? fields "end" Json.asString? }

end Bounds

/-- A text without delimiters, and the replacements that mark its matches. -/
structure Stripped where
  text : String
  replacements : List Replacement

namespace Stripped

def literals (s : Stripped) : List String := s.replacements.map Replacement.literal

def fallback (s : Stripped) : Forest := renderPlain s.text s.replacements

end Stripped

/-- Deletes start delimiters, then stop delimiters. -/
def eraseDelimiters (start stop text : List Char) : List Char :=
  Text.erase stop (Text.erase start text)

/-- The text without delimiters, and the matches in order. A match runs from a start delimiter to
the next stop delimiter; delimiters that are not part of a match are deleted. -/
def matchesOf (start stop text : List Char) : List Char × List (List Char) :=
  match Text.splitFirst? start text with
  | none => (eraseDelimiters start stop text, [])
  | some (before, inside) =>
    match Text.splitFirst? stop inside with
    | none => (eraseDelimiters start stop before ++ eraseDelimiters start stop inside, [])
    | some (found, rest) =>
      if rest.length < text.length then
        let (text, matched) := matchesOf start stop rest
        (eraseDelimiters start stop before ++ found ++ text, found :: matched)
      else (text, [])
termination_by text.length

/-- Different literals, the longest in bytes first, else in the order of their first appearance. -/
def orderLiterals (found : List (List Char)) : List (List Char) :=
  (found.filter (! ·.isEmpty)).eraseDups.mergeSort fun a b =>
    decide (Text.byteLength b ≤ Text.byteLength a)

/-- Strips the delimiters from a text. Nothing is stripped where a delimiter is empty. -/
def Bounds.strip (bounds : Bounds) (text : String) : Stripped :=
  if bounds.start.isEmpty || bounds.stop.isEmpty then ⟨text, []⟩
  else
    let (clean, found) := matchesOf bounds.start.toList bounds.stop.toList text.toList
    ⟨String.ofList clean, (orderLiterals found).map fun l => .markAll (String.ofList l)⟩

end Highlighting
