import Highlighting.Diff.Tokens
import Highlighting.Grammar.Theme

/-! The messages between a client and a worker, and their JSON form. -/

namespace Highlighting

/-- The number that ties a response to its request. -/
abbrev JobId := UInt64

def JobId.display (id : JobId) : String := "#" ++ toString id.toNat

/-- A text to highlight. Without a node limit, or with a limit of zero, any number of nodes will
do. -/
structure HighlightJob where
  value : String
  language : String
  nodeLimit : Option UInt64
  groupByLine : Bool
  markedTexts : Option (List String)
  deriving DecidableEq

structure TokenizeJob where
  hunks : List Hunk
  language : String
  whitespace : Bool
  deriving DecidableEq

/-- What a client sends. A theme is not answered; it applies to all later jobs. -/
inductive Request where
  | theme (theme : Theme)
  | highlight (id : JobId) (job : HighlightJob)
  | tokenize (id : JobId) (job : TokenizeJob)

inductive Success where
  | tokens (success : Bool) (tokens : DiffTokens)
  | tree (tree : Forest)

/-- A failed job says why; a failed tokenize job also says that it did not succeed. -/
structure Failure where
  reason : String
  success : Option Bool
  deriving DecidableEq

inductive Response where
  | success (id : JobId) (payload : Success)
  | failure (id : JobId) (payload : Failure)

namespace Json

def ofNullable {α : Type} (encode : α → Json) : Option α → Json
  | some a => encode a
  | none => .null

/-- A field that is written unless it is absent. -/
def ofPresent {α : Type} (name : String) (encode : α → Json) : Option α → List (String × Json)
  | some a => [(name, encode a)]
  | none => []

end Json

namespace HighlightJob

def toJson (job : HighlightJob) : Json :=
  .obj ([("value", .str job.value), ("language", .str job.language),
    ("nodeLimit", Json.ofNullable Json.ofUnsigned job.nodeLimit),
    ("groupByLine", .bool job.groupByLine)] ++
    Json.ofPresent "markedTexts" Json.ofStrings job.markedTexts)

def ofJson? (j : Json) : Option HighlightJob := do
  let fields ← j.record? ["value", "language", "nodeLimit", "groupByLine", "markedTexts"]
  pure
    { value := ← Json.required? fields "value" Json.asString?
      language := ← Json.required? fields "language" Json.asString?
      nodeLimit := ← Json.optional? fields "nodeLimit" none (Json.nullable? Json.asUnsigned?)
      groupByLine := ← Json.optional? fields "groupByLine" false Json.asBool?
      markedTexts := ← Json.optional? fields "markedTexts" none (Json.nullable? Json.asStrings?) }

end HighlightJob

namespace TokenizeJob

def toJson (job : TokenizeJob) : Json :=
  .obj [("hunks", .arr (job.hunks.map Hunk.toJson)), ("language", .str job.language),
    ("whitespace", .bool job.whitespace)]

def ofJson? (level : Json.Level) (j : Json) : Option TokenizeJob := do
  let fields ← j.record? ["hunks", "language", "whitespace"]
  pure
    { hunks := ← Json.required? fields "hunks" (Json.asArray? (Hunk.ofJson? level))
      language := ← Json.required? fields "language" Json.asString?
      whitespace := ← Json.optional? fields "whitespace" false Json.asBool? }

end TokenizeJob

namespace Request

def id? : Request → Option JobId
  | theme _ => none
  | highlight id _ => some id
  | tokenize id _ => some id

def toJson : Request → Json
  | theme t => .obj [("type", .str "theme"), ("payload", t.toJson)]
  | highlight id job =>
    .obj [("type", .str "highlight"), ("id", Json.ofUnsigned id), ("payload", job.toJson)]
  | tokenize id job =>
    .obj [("type", .str "tokenize"), ("id", Json.ofUnsigned id), ("payload", job.toJson)]

def kinds : List String := ["theme", "highlight", "tokenize"]

def ofJson? (j : Json) : Option Request := do
  let (kind, record) ← j.tagged? .outer kinds
  match kind with
  | "theme" =>
    let fields ← record.record? ["payload"]
    pure (theme (← Json.required? fields "payload" Theme.ofJson?))
  | "highlight" =>
    let fields ← record.record? ["id", "payload"]
    pure (highlight (← Json.required? fields "id" Json.asUnsigned?)
      (← Json.required? fields "payload" HighlightJob.ofJson?))
  | "tokenize" =>
    let fields ← record.record? ["id", "payload"]
    pure (tokenize (← Json.required? fields "id" Json.asUnsigned?)
      (← Json.required? fields "payload" (TokenizeJob.ofJson? .inner)))
  | _ => none

def decode : String → Except Json.Fault Request :=
  (Json.Shape.tagged kinds fun j => (ofJson? j).isSome).decode ofJson?

end Request

namespace Success

def toJson : Success → Json
  | tokens success t => .obj [("success", .bool success), ("tokens", t.toJson)]
  | tree t => .obj [("tree", t.toJson)]

def tokensOfJson? (j : Json) : Option Success := do
  let fields ← j.record? ["success", "tokens"]
  pure (tokens (← Json.required? fields "success" Json.asBool?)
    (← Json.required? fields "tokens" (DiffTokens.ofJson? .inner)))

def treeOfJson? (j : Json) : Option Success := do
  let fields ← j.record? ["tree"]
  pure (tree (← Json.required? fields "tree" (Forest.ofJson? .inner)))

/-- What has the fields of tokens is tokens, else it is a tree. It stands inside a response, which
is tagged. -/
def ofJson? (j : Json) : Option Success := tokensOfJson? j <|> treeOfJson? j

end Success

namespace Failure

def toJson (f : Failure) : Json :=
  .obj (("reason", .str f.reason) :: Json.ofPresent "success" .bool f.success)

def ofJson? (j : Json) : Option Failure := do
  let fields ← j.record? ["reason", "success"]
  pure
    { reason := ← Json.required? fields "reason" Json.asString?
      success := ← Json.optional? fields "success" none (Json.nullable? Json.asBool?) }

end Failure

namespace Response

def id : Response → JobId
  | success id _ => id
  | failure id _ => id

def isSuccess : Response → Bool
  | success .. => true
  | failure .. => false

def reason? : Response → Option String
  | success .. => none
  | failure _ f => some f.reason

def toJson : Response → Json
  | success id payload =>
    .obj [("type", .str "success"), ("id", Json.ofUnsigned id), ("payload", payload.toJson)]
  | failure id payload =>
    .obj [("type", .str "failure"), ("id", Json.ofUnsigned id), ("payload", payload.toJson)]

def kinds : List String := ["success", "failure"]

def ofJson? (j : Json) : Option Response := do
  let (kind, record) ← j.tagged? .outer kinds
  let fields ← record.record? ["id", "payload"]
  match kind with
  | "success" =>
    pure (success (← Json.required? fields "id" Json.asUnsigned?)
      (← Json.required? fields "payload" Success.ofJson?))
  | "failure" =>
    pure (failure (← Json.required? fields "id" Json.asUnsigned?)
      (← Json.required? fields "payload" Failure.ofJson?))
  | _ => none

def decode : String → Except Json.Fault Response :=
  (Json.Shape.tagged kinds fun j => (ofJson? j).isSome).decode ofJson?

end Response

end Highlighting
