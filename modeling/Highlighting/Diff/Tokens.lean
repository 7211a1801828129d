import Highlighting.Diff.Hunk
import Highlighting.Diff.Whitespace
import Highlighting.Grammar.Engine
import Highlighting.Node.Json
import Highlighting.Node.Lines

/-! Highlighting both sides of a diff. Each side is highlighted as one text, so that tokens may span
lines, and cut into lines again. Both sides draw on one node limit. -/

namespace Highlighting

structure DiffTokens where
  old : List Forest
  new : List Forest

namespace DiffTokens

def sideToJson (side : List Forest) : Json := .arr (side.map Forest.toJson)

def toJson (t : DiffTokens) : Json :=
  .obj [("old", sideToJson t.old), ("new", sideToJson t.new)]

def ofJson? (level : Json.Level) (j : Json) : Option DiffTokens := do
  let fields ← j.record? ["old", "new"]
  pure
    { old := ← Json.required? fields "old" (Json.asArray? (Forest.ofJson? level))
      new := ← Json.required? fields "new" (Json.asArray? (Forest.ofJson? level)) }

end DiffTokens

/-- The node limit of both sides together, unless another is given. -/
def standardDiffLimit : Nat := 600

structure DiffOptions where
  showWhitespace : Bool
  limit : Nat

inductive DiffTokensError where
  | limitExceeded (limit count : Nat)
  | engine (fault : EngineFault)
  deriving DecidableEq, Repr

variable {σ : Type} [Engine σ]

def sideText (side : List String) : String := String.ofList (Text.unlines (side.map String.toList))

/-- The lines of one side, when `used` pieces of the limit are used up; and how many are then. -/
def highlightSide (s : σ) (side : List String) (grammar : String) (options : DiffOptions)
    (used : Nat) : Except DiffTokensError (List Forest × Nat) :=
  if side.isEmpty then .ok ([], used)
  else do
    let forest ← (Engine.highlight s (sideText side) grammar).mapError .engine
    let forest := if options.showWhitespace then forest.visualize else forest
    let flat ← (forest.flatten (some (options.limit - used))).mapError fun e =>
      .limitExceeded options.limit (used + e.count)
    pure ((splitLines flat).map (·.map FlatNode.toNode), used + flat.length)

def afterSide (s : σ) (side : List String) (grammar : String) : σ :=
  if side.isEmpty then s else Engine.afterHighlight s (sideText side) grammar

/-- Highlights both sides of hunks with a registered grammar: their lines, and the engine after it.
The new side is left out where the old one fails. -/
def runHunks (s : σ) (hunks : List Hunk) (grammar : String) (options : DiffOptions) :
    Except DiffTokensError DiffTokens × σ :=
  let oldSide := hunks.flatMap Hunk.oldSide
  let newSide := hunks.flatMap Hunk.newSide
  let between := afterSide s oldSide grammar
  match highlightSide s oldSide grammar options 0 with
  | .error e => (.error e, between)
  | .ok (old, used) =>
    ((highlightSide between newSide grammar options used).map fun (new, _) => ⟨old, new⟩,
      afterSide between newSide grammar)

/-- The highlighted lines of both sides of hunks, with a registered grammar. -/
def highlightHunks (s : σ) (hunks : List Hunk) (grammar : String) (options : DiffOptions) :
    Except DiffTokensError DiffTokens := (runHunks s hunks grammar options).1

/-- The engine after the hunks were highlighted. -/
def afterHunks (s : σ) (hunks : List Hunk) (grammar : String) (options : DiffOptions) : σ :=
  (runHunks s hunks grammar options).2

end Highlighting
