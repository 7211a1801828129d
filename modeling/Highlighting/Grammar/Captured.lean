import Highlighting.Grammar.Engine
import Highlighting.Grammar.Span
import Highlighting.Grammar.Tables

/-! The engine that highlights by captures. Parsing itself is a source of captures: what each of
the built-in grammars captures in a text, and which grammars do not compile. -/

namespace Highlighting

def builtinGrammars : List String :=
  ["bash", "c", "cpp", "css", "go", "html", "ini", "java", "javascript", "json", "php", "python",
   "rust", "scheme", "toml", "tsx", "typescript", "xml"]

/-- What the grammars find in texts. -/
structure CaptureSource where
  /-- The captures of a grammar in a text, in the order in which it yields them. -/
  captures : (grammar text : String) → List Capture
  /-- Why the highlight query of a grammar does not compile. -/
  queryError? : (grammar : String) → Option String

def CaptureSource.empty : CaptureSource := ⟨fun _ _ => [], fun _ => none⟩

/-- The state of the engine: its source, the registered grammars, the theme. -/
structure CaptureEngine where
  source : CaptureSource
  grammars : List String
  theme : Theme

namespace CaptureEngine

def new (source : CaptureSource) : CaptureEngine := ⟨source, [], .empty⟩

def registered (e : CaptureEngine) : List String :=
  e.grammars.mergeSort fun a b => decide (a ≤ b)

def isRegistered (e : CaptureEngine) (grammar : String) : Bool :=
  grammar == plainText || e.grammars.contains grammar

def register (e : CaptureEngine) (grammar : String) (_ : List String) :
    Except EngineFault Unit × CaptureEngine :=
  if grammar ∈ builtinGrammars then
    match e.source.queryError? grammar with
    | some message => (.error (.refused (.query grammar message)), e)
    | none =>
      if grammar ∈ e.grammars then (.ok (), e)
      else (.ok (), { e with grammars := e.grammars ++ [grammar] })
  else (.error (.refused (.unknown grammar)), e)

def highlight (e : CaptureEngine) (text grammar : String) : Except EngineFault Forest :=
  if grammar = plainText then .ok (Forest.plain text)
  else if grammar ∈ e.grammars then
    .ok (highlightCaptures e.theme text (e.source.captures grammar text))
  else .error (.refused (.notRegistered grammar))

instance : Engine CaptureEngine where
  isRegistered := isRegistered
  register := register
  highlight := highlight
  setTheme e theme := { e with theme }

end CaptureEngine

end Highlighting
