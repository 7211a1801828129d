import Highlighting.Json.Shape

/-! Hunks of a diff: a range of lines on an old and on a new side. -/

namespace Highlighting

inductive ChangeKind where
  | insert
  | delete
  | normal
  deriving DecidableEq, Repr

structure Change where
  kind : ChangeKind
  content : String
  deriving DecidableEq, Repr

/-- A hunk: its header line, the numbers the header gives, and its lines. -/
structure Hunk where
  header : String
  oldStart : UInt64
  oldLines : UInt64
  newStart : UInt64
  newLines : UInt64
  changes : List Change
  deriving DecidableEq, Repr

namespace ChangeKind

def name : ChangeKind → String
  | insert => "insert"
  | delete => "delete"
  | normal => "normal"

def ofName? : String → Option ChangeKind
  | "insert" => some insert
  | "delete" => some delete
  | "normal" => some normal
  | _ => none

def toJson (k : ChangeKind) : Json := .str k.name

/-- A kind is given by its name, or as an object that has its name alone, with null or, inside a
tagged record, with an empty object. -/
def ofJson? (level : Json.Level) : Json → Option ChangeKind
  | .str name => ofName? name
  | .obj [(name, .null)] => ofName? name
  | .obj [(name, .obj [])] => if level = .inner then ofName? name else none
  | _ => none

def shape : Json.Shape := .choice ([insert, delete, normal].map name)

end ChangeKind

namespace Change

def toJson (c : Change) : Json := .obj [("type", c.kind.toJson), ("content", .str c.content)]

def ofJson? (level : Json.Level) (j : Json) : Option Change := do
  let fields ← j.record? ["type", "content"]
  pure
    { kind := ← Json.required? fields "type" (ChangeKind.ofJson? level)
      content := ← Json.required? fields "content" Json.asString? }

def shape : Json.Shape := .record [("type", ChangeKind.shape), ("content", .string)]

end Change

namespace Hunk

def oldSide (h : Hunk) : List String :=
  (h.changes.filter (·.kind != .insert)).map Change.content

def newSide (h : Hunk) : List String :=
  (h.changes.filter (·.kind != .delete)).map Change.content

def toJson (h : Hunk) : Json :=
  .obj [("content", .str h.header), ("oldStart", Json.ofUnsigned h.oldStart),
    ("oldLines", Json.ofUnsigned h.oldLines), ("newStart", Json.ofUnsigned h.newStart),
    ("newLines", Json.ofUnsigned h.newLines), ("changes", .arr (h.changes.map Change.toJson))]

def ofJson? (level : Json.Level) (j : Json) : Option Hunk := do
  let fields ← j.record? ["content", "oldStart", "oldLines", "newStart", "newLines", "changes"]
  pure
    { header := ← Json.required? fields "content" Json.asString?
      oldStart := ← Json.required? fields "oldStart" Json.asUnsigned?
      oldLines := ← Json.required? fields "oldLines" Json.asUnsigned?
      newStart := ← Json.required? fields "newStart" Json.asUnsigned?
      newLines := ← Json.required? fields "newLines" Json.asUnsigned?
      changes := ← Json.required? fields "changes" (Json.asArray? (Change.ofJson? level)) }

def shape : Json.Shape :=
  .record [("content", .string), ("oldStart", .unsigned), ("oldLines", .unsigned),
    ("newStart", .unsigned), ("newLines", .unsigned), ("changes", .list Change.shape)]

def decode : String → Except Json.Fault Hunk := shape.decode (ofJson? .outer)

end Hunk

end Highlighting
