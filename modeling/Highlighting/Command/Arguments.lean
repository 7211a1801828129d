import Highlighting.Command.Usage
import Highlighting.Config
import Highlighting.Mark.Delimited
import Highlighting.Number.Unsigned

/-! The command line: its commands, and what may be given with them. -/

namespace Highlighting

/-- What to highlight, and how. -/
structure HighlightArguments where
  file : String
  language : Option String
  groupByLine : Bool
  nodeLimit : Option UInt64
  noLimit : Bool
  marks : List String
  markers : Bool
  markerStart : Option String
  markerEnd : Option String
  deriving DecidableEq

namespace HighlightArguments

/-- The node limit, which the configuration gives if the command line does not. -/
def limit (a : HighlightArguments) (c : Config) : Option UInt64 :=
  if a.noLimit then none else a.nodeLimit <|> c.nodeLimit

/-- The delimiters to strip, if any. -/
def bounds? (a : HighlightArguments) : Option Bounds :=
  match a.markerStart, a.markerEnd with
  | some start, some stop => some ⟨start, stop⟩
  | _, _ => if a.markers then some .standard else none

end HighlightArguments

/-- A diff to highlight, and how. -/
structure TokenizeArguments where
  diff : String
  language : String
  whitespace : Bool
  deriving DecidableEq

/-- What the program is to do. -/
inductive Command where
  | highlight (arguments : HighlightArguments)
  | tokenize (arguments : TokenizeArguments)
  | languages
  deriving DecidableEq

structure Arguments where
  config : Option String
  command : Command
  deriving DecidableEq

structure Given where
  config : Option String
  file : Option String
  language : Option String
  groupByLine : Bool
  nodeLimit : Option UInt64
  noLimit : Bool
  marks : List String
  markers : Bool
  markerStart : Option String
  markerEnd : Option String
  whitespace : Bool

namespace Given

def nothing : Given := ⟨none, none, none, false, none, false, [], false, none, none, false⟩

/-- A path is not empty. -/
def path (set : String → Given → Given) : Action Given :=
  .value false fun value g => if value.isEmpty then throw .missingValue else pure (set value g)

def text (set : String → Given → Given) : Action Given :=
  .value false fun value g => pure (set value g)

def number (set : UInt64 → Given → Given) : Action Given :=
  .value false fun value g => match Number.readUnsigned? value.toList with
    | some n => pure (set n g)
    | none => throw .malformedValue

def helpSwitch : Switch Given := ⟨"help", some 'h', .help⟩

def versionSwitch : Switch Given := ⟨"version", some 'V', .version⟩

def configSwitch : Switch Given :=
  ⟨"config", none, path fun value g => { g with config := some value }⟩

def languageSwitch : Switch Given :=
  ⟨"language", some 'l', text fun value g => { g with language := some value }⟩

def fileWord : Switch Given := ⟨"FILE", none, path fun value g => { g with file := some value }⟩

def highlightUsage : Usage Given :=
  { switches :=
      [helpSwitch, configSwitch, languageSwitch,
       ⟨"group-by-line", none, .flag fun g => { g with groupByLine := true }⟩,
       ⟨"node-limit", none, number fun n g => { g with nodeLimit := some n }⟩,
       ⟨"no-limit", none, .flag fun g => { g with noLimit := true }⟩,
       ⟨"mark", none, .value true fun value g => pure { g with marks := g.marks ++ [value] }⟩,
       ⟨"markers", none, .flag fun g => { g with markers := true }⟩,
       ⟨"marker-start", none, text fun value g => { g with markerStart := some value }⟩,
       ⟨"marker-end", none, text fun value g => { g with markerEnd := some value }⟩]
    words := [fileWord]
    commands := [] }

def tokenizeUsage : Usage Given :=
  { switches :=
      [helpSwitch, configSwitch, languageSwitch,
       ⟨"whitespace", none, .flag fun g => { g with whitespace := true }⟩]
    words := [fileWord]
    commands := [] }

def languagesUsage : Usage Given := ⟨[helpSwitch, configSwitch], [], []⟩

def commandNames : List String := ["highlight", "tokenize", "languages"]

def helpName : String := "help"

def usage : Usage Given :=
  ⟨[helpSwitch, versionSwitch, configSwitch], [], commandNames ++ [helpName]⟩

def require {α : Type} : Option α → Except UsageFault α
  | some a => pure a
  | none => throw .missingArgument

/-- A limit excludes that there is none, and one delimiter needs the other. -/
def toHighlight (g : Given) : Except UsageFault HighlightArguments := do
  if g.noLimit ∧ g.nodeLimit.isSome then throw .conflict
  if g.markerStart.isSome != g.markerEnd.isSome then throw .missingArgument
  pure
    { file := ← require g.file
      language := g.language
      groupByLine := g.groupByLine
      nodeLimit := g.nodeLimit
      noLimit := g.noLimit
      marks := g.marks
      markers := g.markers
      markerStart := g.markerStart
      markerEnd := g.markerEnd }

def toTokenize (g : Given) : Except UsageFault TokenizeArguments := do
  pure ⟨← require g.file, ← require g.language, g.whitespace⟩

def ofWords (u : Usage Given) (words : List String) : Except UsageFault Given := do
  let (r, _) ← (Reading.start u nothing).run u words
  pure (← r.settle).given

def helpFault : List String → UsageFault
  | [] => .helpWanted
  | [name] => if name ∈ usage.commands then .helpWanted else .unknownCommand
  | _ => .unknownCommand

/-- Reads the words after the command `name`, and where the configuration is. -/
def toCommand (name : String) (words : List String) :
    Except UsageFault (Option String × Command) := do
  if name = "highlight" then
    let g ← ofWords highlightUsage words
    pure (g.config, .highlight (← g.toHighlight))
  else if name = "tokenize" then
    let g ← ofWords tokenizeUsage words
    pure (g.config, .tokenize (← g.toTokenize))
  else if name = "languages" then
    let g ← ofWords languagesUsage words
    pure (g.config, .languages)
  else throw (helpFault words)

end Given

/-- Reads a command line. The configuration may be named before and after the command; the later
name counts. -/
def Arguments.ofWords (words : List String) : Except UsageFault Arguments := do
  let (r, command) ← (Reading.start Given.usage Given.nothing).run Given.usage words
  match command with
  | none =>
    let r ← r.settle
    throw (if r.seen.isEmpty then .nothingGiven else .missingCommand)
  | some (name, words) =>
    let (config, command) ← Given.toCommand name words
    let g := (← r.settle).given
    pure ⟨config <|> g.config, command⟩

end Highlighting
