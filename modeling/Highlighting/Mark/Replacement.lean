import Highlighting.Mark.Occurrence
import Highlighting.Node.Json

/-! A plain rendering of a text in which literals are replaced by nodes. Replacements apply one
after the other; a later one sees only text that no earlier one consumed. -/

namespace Highlighting

/-- What stands in place of a literal: everywhere, or at its first occurrence only. -/
structure Replacement where
  literal : String
  node : Node
  everywhere : Bool
  deriving Inhabited

namespace Replacement

def markAll (literal : String) : Replacement := ⟨literal, .mark literal, true⟩

def toJson (r : Replacement) : Json :=
  .obj [("textToReplace", .str r.literal), ("replacement", r.node.toJson),
    ("replaceAll", .bool r.everywhere)]

def ofJson? (j : Json) : Option Replacement := do
  let fields ← j.record? ["textToReplace", "replacement", "replaceAll"]
  pure
    { literal := ← Json.required? fields "textToReplace" Json.asString?
      node := ← Json.required? fields "replacement" (Node.ofJson? .outer)
      everywhere := ← Json.required? fields "replaceAll" Json.asBool? }

def shape : Json.Shape :=
  .record [("textToReplace", .string), ("replacement", Node.shape), ("replaceAll", .boolean)]

def decode : String → Except Json.Fault Replacement := shape.decode ofJson?

end Replacement

/-- A stretch of the rendering: text that is still plain, or a replaced literal. -/
inductive Segment where
  | plain (text : List Char)
  | replaced (node : Node)

namespace Segment

def toNode : Segment → Node
  | plain text => .text (String.ofList text)
  | replaced node => node

/-- A plain segment, unless it is empty. -/
def ofText (text : List Char) : List Segment := if text.isEmpty then [] else [plain text]

/-- Replaces the occurrences of a literal in a plain text one after the other, or only the first one
if it was not replaced before: the segments, and whether it was replaced by then. -/
def replaceIn (r : Replacement) (needle : Needle) (once : Bool) (text : List Char) :
    List Segment × Bool :=
  match _h : Text.splitFirst? needle.1 text with
  | some (before, after) =>
    if once && !r.everywhere then (ofText text, once)
    else
      let (rest, once) := replaceIn r needle true after
      (ofText before ++ replaced r.node :: rest, once)
  | none => (ofText text, once)
termination_by text.length
decreasing_by
  have hneedle := List.length_pos_iff.mpr needle.2
  rw [Text.append_of_splitFirst? _h, List.length_append, List.length_append]
  omega

/-- Replaces a literal in segments, as long as it is to be replaced. -/
def replaceFrom (r : Replacement) (needle : Needle) : (once : Bool) → List Segment → List Segment
  | _, [] => []
  | once, replaced n :: rest => replaced n :: replaceFrom r needle once rest
  | once, plain text :: rest =>
    if once && !r.everywhere then plain text :: replaceFrom r needle once rest
    else
      let (parts, once) := replaceIn r needle once text
      parts ++ replaceFrom r needle once rest

/-- Applies a replacement; one with an empty literal does nothing. -/
def apply (segments : List Segment) (r : Replacement) : List Segment :=
  if h : r.literal.toList = [] then segments
  else replaceFrom r ⟨r.literal.toList, h⟩ false segments

end Segment

def renderPlain (text : String) (replacements : List Replacement) : Forest :=
  (replacements.foldl Segment.apply [.plain text.toList]).map Segment.toNode

end Highlighting
