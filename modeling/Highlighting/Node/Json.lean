import Highlighting.Json.Shape
import Highlighting.Node.Basic

/-! The JSON form of nodes. -/

namespace Highlighting

namespace Properties

def classKey : String := "className"

/-- An absent class list is empty, and an empty one is not written. -/
def toJson (p : Properties) : Json :=
  let classes := if p.classes.isEmpty then [] else [(classKey, Json.ofStrings p.classes)]
  .obj (classes ++ p.data.entries)

def ofJson? : Json → Option Properties
  | .obj fields => do
    let known ← (Json.obj fields).record? [classKey]
    let classes ← Json.optional? known classKey [] Json.asStrings?
    let data := (fields.filter (·.1 != classKey)).map fun (key, value) => (key, value.settle)
    pure ⟨classes, Dict.ofList data⟩
  | _ => none

end Properties

mutual

def Node.toJson : Node → Json
  | .text value => .obj [("type", .str "text"), ("value", .str value)]
  | .element tag properties children =>
    .obj [("type", .str "element"), ("tagName", .str tag),
      ("properties", properties.toJson), ("children", .arr (Forest.toJsons children))]

def Forest.toJsons : Forest → List Json
  | [] => []
  | n :: rest => n.toJson :: Forest.toJsons rest

end

def Forest.toJson (f : Forest) : Json := .arr (Forest.toJsons f)

def Node.kinds : List String := ["text", "element"]

/-- The node of a tagged record whose field `children` decodes as `children`. -/
def Node.ofRecord? (level : Json.Level) (j : Json) (children : Option Forest) : Option Node := do
  let (kind, record) ← j.tagged? level kinds
  match kind with
  | "text" =>
    let fields ← record.record? ["value"]
    pure (.text (← Json.required? fields "value" Json.asString?))
  | "element" =>
    let fields ← record.record? ["tagName", "properties", "children"]
    let tag ← Json.required? fields "tagName" Json.asString?
    let properties ← Json.optional? fields "properties" ⟨[], ∅⟩ Properties.ofJson?
    pure (.element tag properties (← children))
  | _ => none

mutual

def Node.ofJson? (level : Json.Level) : Json → Option Node
  | .obj fields => Node.ofRecord? level (.obj fields) (Forest.ofField? fields)
  | .arr items => Node.ofRecord? level (.arr items) (Forest.ofPlace? items)
  | _ => none

def Forest.ofJson? (level : Json.Level) : Json → Option Forest
  | .arr items => Forest.ofJsons? level items
  | _ => none

def Forest.ofJsons? (level : Json.Level) : List Json → Option Forest
  | [] => some []
  | j :: rest => do pure ((← Node.ofJson? level j) :: (← Forest.ofJsons? level rest))

/-- The field `children`; without it there are none. -/
def Forest.ofField? : List (String × Json) → Option Forest
  | [] => some []
  | (key, j) :: rest => if key = "children" then Forest.ofJson? .inner j else Forest.ofField? rest

/-- The children of an element that is written as an array: the item after the tag, the tag name and
the properties. -/
def Forest.ofPlace? : List Json → Option Forest
  | [_, _, _, j] => Forest.ofJson? .inner j
  | _ => some []

end

def Node.shape : Json.Shape := .tagged Node.kinds fun j => (Node.ofJson? .outer j).isSome

def Forest.decode : String → Except Json.Fault Forest :=
  (Json.Shape.list Node.shape).decode (Forest.ofJson? .outer)

end Highlighting
