import Highlighting.Command.Arguments
import Highlighting.Command.Files
import Highlighting.Config.Paths
import Highlighting.Config.Written
import Highlighting.Diff.Unified
import Highlighting.Worker.Slot

/-! What the commands do. Files are read by whoever runs them; here a text that was wanted is there
or is not. -/

namespace Highlighting

structure Outcome where
  exit : UInt8
  output : String
  error : Option String
  deriving DecidableEq, Repr

namespace Outcome

def printed (j : Json) : Outcome := ⟨0, j.pretty ++ "\n", none⟩

def failed (output message : String) : Outcome := ⟨1, output, some ("Error: " ++ message)⟩

end Outcome

def versionLine : String := Config.directoryName ++ " 0.1.0\n"

/-- What a command line that is not carried out ends in. -/
def UsageFault.outcome : UsageFault → Outcome
  | helpWanted => ⟨0, "", none⟩
  | versionWanted => ⟨0, versionLine, none⟩
  | _ => ⟨2, "", none⟩

/-- A failure with its cause on a line of its own. -/
def withCause (message cause : String) : String := message ++ "\n\nCaused by:\n    " ++ cause

/-- Reads the configuration that the command line names. -/
def Config.ofFile (path : String) (text : Except ReadFault String) : Except String Config :=
  match text with
  | .error fault => throw ("Failed to read config at " ++ path ++ ": " ++ fault.message)
  | .ok text => match Config.read? text with
    | some c => pure c
    | none => throw ("Failed to parse config at " ++ path)

/-- The configuration of the user; one that cannot be read is the standard one. -/
def Config.ofUser (text : Except ReadFault String) : Config :=
  match text with
  | .error _ => .standard
  | .ok text => (Config.read? text).getD .standard

def Command.input? : Command → Option String
  | highlight a => some a.file
  | tokenize a => some a.diff
  | languages => none

def readMessage (path : String) (fault : ReadFault) : String :=
  withCause
    (if isStandardInput path then "Failed to read stdin" else "Failed to read " ++ path)
    fault.message

namespace HighlightArguments

/-- The language to highlight in: what is asked for, else that of the file. -/
def languageName (a : HighlightArguments) (c : Config) : String :=
  a.language.getD (c.tables.languageOfPath a.file)

/-- The slot of the job after its answer, or the message that there is none. -/
def view (a : HighlightArguments) (c : Config) (source : CaptureSource) (text : String) :
    Except String Slot :=
  let client := Client.ofConfig c source
  let options : HighlightOptions := ⟨a.limit c, a.groupByLine, a.marks⟩
  let language := a.languageName c
  let (id, slot, client) := match a.bounds? with
    | some bounds => Slot.new.requestMarked client text bounds language options
    | none => Slot.new.request client text language options
  match id with
  | none => throw disconnectedMessage
  | some id => match (client.waitFor id).1 with
    | .done r => pure (slot.apply r).2
    | _ => throw disconnectedMessage

/-- A failure shows the plain rendering. -/
def run (a : HighlightArguments) (c : Config) (source : CaptureSource) (text : String) : Outcome :=
  match a.view c source text with
  | .error message => .failed "" message
  | .ok slot =>
    let fallback := slot.state.error.map fun _ => slot.fallback
    let shown : Json := .obj (("language", .str (a.languageName c))
      :: Json.ofPresent "tree" Forest.toJson slot.state.tree
      ++ Json.ofPresent "error" .str slot.state.error
      ++ Json.ofPresent "fallback" Forest.toJson fallback)
    match slot.state.error with
    | none => .printed shown
    | some message => .failed (Outcome.printed shown).output ("Highlighting failed: " ++ message)

end HighlightArguments

def TokenizeArguments.run (a : TokenizeArguments) (c : Config) (source : CaptureSource)
    (text : String) : Outcome :=
  match parseDiff text with
  | .error fault => .failed "" (withCause ("Failed to parse diff " ++ a.diff) fault.message)
  | .ok hunks =>
    match ((Client.ofConfig c source).tokenizeHunks hunks a.language a.whitespace).1 with
    | .done (.ok tokens) => .printed (Success.tokens true tokens).toJson
    | .done (.error reason) =>
      .failed (Outcome.printed (Failure.toJson ⟨reason, some false⟩)).output
        ("Tokenizing failed: " ++ reason)
    | _ => .failed "" disconnectedMessage

def listLanguages (c : Config) : Outcome :=
  .printed (.obj [("grammars", Json.ofStrings (builtinGrammars ++ [plainText])),
    ("aliases", Json.ofDict .str c.tables.aliases),
    ("dependencies", Json.ofDict Json.ofStrings c.tables.dependencies)])

/-- Carries out a command; `input` is what it reads, if it reads anything. -/
def Command.run (command : Command) (c : Config) (source : CaptureSource)
    (input : Except ReadFault String) : Outcome :=
  match command, input with
  | .languages, _ => listLanguages c
  | .highlight a, .ok text => a.run c source text
  | .highlight a, .error fault => .failed "" (readMessage a.file fault)
  | .tokenize a, .ok text => a.run c source text
  | .tokenize a, .error fault => .failed "" (readMessage a.diff fault)

/-- Carries out a command line. `config` is the configuration that it names or, if it names none,
that of the user; a broken configuration is a fault only where it is named. -/
def Arguments.run (a : Arguments) (config : Except ReadFault String) (source : CaptureSource)
    (input : Except ReadFault String) : Outcome :=
  let config := match a.config with
    | some path => Config.ofFile path config
    | none => pure (Config.ofUser config)
  match config with
  | .error message => .failed "" message
  | .ok c => a.command.run c source input

end Highlighting
