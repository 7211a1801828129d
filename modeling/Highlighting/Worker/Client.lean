import Highlighting.Config
import Highlighting.Grammar.Captured
import Highlighting.Worker.Channel

/-! The client of a worker. It numbers its jobs and waits for responses. -/

namespace Highlighting

/-- A client. Its worker may be gone; then nothing can be sent and nothing is received. -/
structure Client (σ : Type) where
  channel : Option (Channel σ)
  lastId : JobId

/-- What waiting for a response ends in. -/
inductive Wait (α : Type) where
  | done (value : α)
  | disconnected
  /-- The worker has nothing left to answer. -/
  | never

def disconnectedMessage : String := "worker thread is gone"

/-- How a text is to be highlighted. -/
structure HighlightOptions where
  nodeLimit : Option UInt64
  groupByLine : Bool
  markedTexts : List String

def HighlightOptions.job (o : HighlightOptions) (value language : String) : HighlightJob :=
  { value
    language
    nodeLimit := o.nodeLimit
    groupByLine := o.groupByLine
    markedTexts := if o.markedTexts.isEmpty then none else some o.markedTexts }

/-- What a view shows of a job. -/
structure HighlightState where
  tree : Option Forest
  isLoading : Bool
  error : Option String
  deriving Inhabited

namespace HighlightState

def blank : HighlightState := ⟨none, false, none⟩

def failed (message : String) : HighlightState := ⟨none, false, some message⟩

def ofResponse : Response → HighlightState
  | .success _ (.tree tree) => ⟨some tree, false, none⟩
  | .success id (.tokens ..) =>
    failed ("job " ++ id.display ++ " answered with tokens, expected a tree")
  | .failure _ f => failed f.reason

end HighlightState

namespace Client

variable {σ : Type}

def new (worker : Worker σ) : Client σ := ⟨some (.new worker), 0⟩

def orphan : Client σ := ⟨none, 0⟩

/-- Sends a request; false if the worker is gone. -/
def send (c : Client σ) (r : Request) : Bool × Client σ :=
  match c.channel with
  | none => (false, c)
  | some channel => (true, { c with channel := some (channel.send r) })

def loadTheme (c : Client σ) (theme : Theme) : Bool × Client σ := c.send (.theme theme)

/-- Sends a job under the next number, which is none if the worker is gone. -/
def submit (c : Client σ) (request : JobId → Request) : Option JobId × Client σ :=
  let id := c.lastId + 1
  let (sent, c) := ({ c with lastId := id } : Client σ).send (request id)
  (if sent then some id else none, c)

def submitHighlight (c : Client σ) (job : HighlightJob) : Option JobId × Client σ :=
  c.submit fun id => .highlight id job

def submitTokenize (c : Client σ) (job : TokenizeJob) : Option JobId × Client σ :=
  c.submit fun id => .tokenize id job

/-- Takes the oldest response, if one is there. -/
def tryReceive (c : Client σ) : Wait (Option Response) × Client σ :=
  match c.channel with
  | none => (.disconnected, c)
  | some channel => match channel.receive? with
    | none => (.done none, c)
    | some (r, channel) => (.done (some r), { c with channel := some channel })

variable [Engine σ]

/-- What waiting on the channel ends in. -/
def waitOn (c : Client σ) (await? : Channel σ → Option (Response × Channel σ)) :
    Wait Response × Client σ :=
  match c.channel with
  | none => (.disconnected, c)
  | some channel => match await? channel with
    | none => (.never, c)
    | some (r, channel) => (.done r, { c with channel := some channel })

def receive (c : Client σ) : Wait Response × Client σ := c.waitOn Channel.await?

/-- Waits for the response to a job; those to other jobs are dropped. -/
def waitFor (c : Client σ) (id : JobId) : Wait Response × Client σ :=
  c.waitOn fun channel => channel.awaitJob? id

def run (c : Client σ) (request : JobId → Request) : Wait (JobId × Response) × Client σ :=
  match c.submit request with
  | (none, c) => (.disconnected, c)
  | (some id, c) => match c.waitFor id with
    | (.done r, c) => (.done (id, r), c)
    | (.disconnected, c) => (.disconnected, c)
    | (.never, c) => (.never, c)

def highlight (c : Client σ) (value language : String) (options : HighlightOptions) :
    Wait HighlightState × Client σ :=
  match c.run fun id => .highlight id (options.job value language) with
  | (.done (_, r), c) => (.done (.ofResponse r), c)
  | (.disconnected, c) => (.done (.failed disconnectedMessage), c)
  | (.never, c) => (.never, c)

/-- The tokens that answer a job, or why there are none. -/
def tokensOf (id : JobId) : Response → Except String DiffTokens
  | .success _ (.tokens _ t) => .ok t
  | .success _ (.tree _) => .error ("job " ++ id.display ++ " answered with a tree")
  | .failure _ f => .error f.reason

def tokenizeHunks (c : Client σ) (hunks : List Hunk) (language : String) (whitespace : Bool) :
    Wait (Except String DiffTokens) × Client σ :=
  match c.run fun id => .tokenize id ⟨hunks, language, whitespace⟩ with
  | (.done (id, r), c) => (.done (tokensOf id r), c)
  | (.disconnected, c) => (.done (.error disconnectedMessage), c)
  | (.never, c) => (.never, c)

/-- A client of a worker as it is configured. -/
def ofConfig (config : Config) (source : CaptureSource) : Client CaptureEngine :=
  let client := new ⟨CaptureEngine.new source, config.tables, config.diffLimit.toNat⟩
  if config.theme.classes.isEmpty then client else (client.loadTheme config.theme).2

end Client

end Highlighting
