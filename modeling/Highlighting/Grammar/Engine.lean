import Highlighting.Grammar.Theme
import Highlighting.Node.Basic

/-! What a highlighting engine must offer. -/

namespace Highlighting

/-- Why an engine cannot register a grammar or highlight with it. -/
inductive GrammarError where
  | unknown (grammar : String)
  | notRegistered (grammar : String)
  | language (grammar message : String)
  | query (grammar message : String)
  | parse (grammar : String)
  deriving DecidableEq, Repr

def GrammarError.message : GrammarError → String
  | unknown grammar => "unknown grammar: " ++ grammar
  | notRegistered grammar => "grammar " ++ grammar ++ " is not registered"
  | language grammar message => "failed to set language for " ++ grammar ++ ": " ++ message
  | query grammar message =>
    "failed to compile highlight query for " ++ grammar ++ ": " ++ message
  | parse grammar => "failed to parse " ++ grammar ++ " source"

/-- How an engine fails: it refuses, or it crashes, with a message or without. -/
inductive EngineFault where
  | refused (error : GrammarError)
  | crashed (message : Option String)
  deriving DecidableEq, Repr

/-- An engine by its states. Registering and highlighting may change the state also where they
fail. -/
class Engine (σ : Type) where
  isRegistered : σ → (grammar : String) → Bool
  register : σ → (grammar : String) → (dependencies : List String) → Except EngineFault Unit × σ
  highlight : σ → (text grammar : String) → Except EngineFault Forest
  /-- The state after highlighting; that of an engine which only reads it is the one before. -/
  afterHighlight : σ → (text grammar : String) → σ := fun s _ _ => s
  setTheme : σ → Theme → σ

structure Registration where
  grammar : String
  dependencies : List String
  deriving DecidableEq, Repr

/-- An engine and the registrations it was asked for. -/
structure Recorded (σ : Type) where
  engine : σ
  calls : List Registration

instance {σ : Type} [Engine σ] : Engine (Recorded σ) where
  isRegistered s := Engine.isRegistered s.engine
  register s grammar dependencies :=
    let (result, engine) := Engine.register s.engine grammar dependencies
    (result, ⟨engine, s.calls ++ [⟨grammar, dependencies⟩]⟩)
  highlight s := Engine.highlight s.engine
  afterHighlight s text grammar := { s with engine := Engine.afterHighlight s.engine text grammar }
  setTheme s theme := { s with engine := Engine.setTheme s.engine theme }

end Highlighting
