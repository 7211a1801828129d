import Highlighting.Grammar.Loading
import Highlighting.Mark.Literal
import Highlighting.Worker.Message

/-! A worker answers requests one at a time. Every job gets one response, also where the engine
refuses it or crashes. -/

namespace Highlighting

/-- A worker: its engine, its languages, and the node limit of a diff. -/
structure Worker (σ : Type) where
  engine : σ
  tables : Tables
  diffLimit : Nat

inductive JobError where
  | engine (fault : EngineFault)
  | tooManyPieces (e : LimitExceeded)
  | tooManyNodes (limit count : Nat)
  | tooManyTokens (limit count : Nat)
  deriving DecidableEq, Repr

def EngineFault.message : EngineFault → String
  | refused e => e.message
  | crashed (some message) => message
  | crashed none => "worker job panicked"

def DiffTokensError.message : DiffTokensError → String
  | limitExceeded limit count =>
    "Node limit (" ++ toString limit ++ ") reached. Current nodes: " ++ toString count
  | engine fault => fault.message

def JobError.message : JobError → String
  | engine fault => fault.message
  | tooManyPieces e => e.message
  | tooManyNodes limit count =>
    "node limit of " ++ toString limit ++ " reached. Total nodes " ++ toString count ++ "."
  | tooManyTokens limit count => (DiffTokensError.limitExceeded limit count).message

def JobError.ofTokens : DiffTokensError → JobError
  | .limitExceeded limit count => tooManyTokens limit count
  | .engine fault => engine fault

/-- A forest, if it keeps to the limit. -/
def withinLimit (limit : Option Nat) (f : Forest) : Except JobError Forest :=
  match limit with
  | some limit => if limit < f.cost then .error (.tooManyNodes limit f.cost) else .ok f
  | none => .ok f

/-- The node limit of a job; zero means none. -/
def HighlightJob.limit? (job : HighlightJob) : Option Nat :=
  (job.nodeLimit.filter (0 < ·)).map UInt64.toNat

/-- What becomes of an engine's forest: lines if they are asked for, then marks, then the limit. -/
def HighlightJob.finish (job : HighlightJob) (f : Forest) : Except JobError Forest := do
  let f ← if job.groupByLine then (f.groupByLines job.limit?).mapError .tooManyPieces else pure f
  withinLimit job.limit? (f.mark (job.markedTexts.getD []))

namespace Worker

variable {σ : Type} [Engine σ]

/-- Loads a language: the grammar it means, unless the engine crashes, and the worker after it. -/
def load (w : Worker σ) (language : String) : Except EngineFault String × Worker σ :=
  let (report, engine) := w.tables.load language w.engine
  (report.outcome, { w with engine })

def highlight (w : Worker σ) (job : HighlightJob) : Except JobError Forest × Worker σ :=
  match w.load job.language with
  | (.error fault, w) => (.error (.engine fault), w)
  | (.ok grammar, w) =>
    let forest := (Engine.highlight w.engine job.value grammar).mapError .engine
    (forest >>= job.finish,
      { w with engine := Engine.afterHighlight w.engine job.value grammar })

def tokenize (w : Worker σ) (job : TokenizeJob) : Except JobError DiffTokens × Worker σ :=
  match w.load job.language with
  | (.error fault, w) => (.error (.engine fault), w)
  | (.ok grammar, w) =>
    let (tokens, engine) := runHunks w.engine job.hunks grammar ⟨job.whitespace, w.diffLimit⟩
    (tokens.mapError .ofTokens, { w with engine })

def handle (w : Worker σ) : Request → Option Response × Worker σ
  | .theme t => (none, { w with engine := Engine.setTheme w.engine t })
  | .highlight id job =>
    match w.highlight job with
    | (.ok tree, w) => (some (.success id (.tree tree)), w)
    | (.error e, w) => (some (.failure id ⟨e.message, none⟩), w)
  | .tokenize id job =>
    match w.tokenize job with
    | (.ok tokens, w) => (some (.success id (.tokens true tokens)), w)
    | (.error e, w) => (some (.failure id ⟨e.message, some false⟩), w)

/-- Handles requests in order: the responses, and the worker after them. -/
def handleAll (w : Worker σ) : List Request → List Response × Worker σ
  | [] => ([], w)
  | r :: rest =>
    let (response, w) := w.handle r
    let (responses, w) := handleAll w rest
    (response.toList ++ responses, w)

end Worker

end Highlighting
