import Highlighting.Grammar.Engine
import Highlighting.Grammar.Tables

/-! Loading a language registers its grammar and all it depends on, dependencies first. A grammar
that is registered already is left alone, and one that fails does not stop the others. Only a crash
of the engine does. -/

namespace Highlighting

structure LoadReport where
  grammar : String
  registered : List String
  failed : List (String × GrammarError)
  /-- What the engine said as it crashed, if it did. -/
  crash : Option (Option String)

/-- The grammar to highlight with, unless the engine crashed. -/
def LoadReport.outcome (report : LoadReport) : Except EngineFault String :=
  match report.crash with
  | some message => .error (.crashed message)
  | none => .ok report.grammar

/-- What is left to do while loading. -/
inductive LoadStep where
  /-- See to a grammar and what it depends on. -/
  | visit (grammar : String)
  /-- Register a grammar whose dependencies were seen to. -/
  | settle (grammar : String) (dependencies : List String)

/-- What is left to do after a registration: nothing if the engine crashed. -/
def LoadStep.remaining (result : Except EngineFault Unit) (rest : List LoadStep) :
    List LoadStep :=
  match result with
  | .error (.crashed _) => []
  | _ => rest

theorem LoadStep.remaining_sublist (result : Except EngineFault Unit) (rest : List LoadStep) :
    (remaining result rest).Sublist rest := by
  unfold remaining
  split
  · exact List.nil_sublist rest
  · exact List.Sublist.refl rest

namespace Tables

/-- The grammars that loading a grammar can lead to: itself, and what any grammar depends on. -/
def reach (t : Tables) (grammar : String) : List String :=
  grammar :: (t.dependencies.entries.flatMap fun (_, names) => names.map t.resolve)

variable {σ : Type} [Engine σ]

def note (report : LoadReport) (grammar : String) : Except EngineFault Unit → LoadReport
  | .ok () => { report with registered := report.registered ++ [grammar] }
  | .error (.refused e) => { report with failed := report.failed ++ [(grammar, e)] }
  | .error (.crashed message) => { report with crash := some message }

def without (grammar : String) (grammars : List String) : List String :=
  grammars.filter (· != grammar)

theorem length_without_lt {grammar : String} {grammars : List String} (h : grammar ∈ grammars) :
    (without grammar grammars).length < grammars.length :=
  List.length_filter_lt_length_iff_exists.2 ⟨grammar, h, by simp⟩

/-- Carries out steps in order. A grammar is visited at most once: `fresh` holds those that may
still be visited. A grammar that is visited again is skipped: it is shared and failed before, or it
lies on a cycle. -/
def carryOut (t : Tables) (fresh : List String) (steps : List LoadStep) (report : LoadReport)
    (s : σ) : LoadReport × σ :=
  match steps with
  | [] => (report, s)
  | .settle grammar dependencies :: rest =>
    let (result, s) := Engine.register s grammar dependencies
    carryOut t fresh (LoadStep.remaining result rest) (note report grammar result) s
  | .visit grammar :: rest =>
    if grammar = plainText ∨ Engine.isRegistered s grammar then carryOut t fresh rest report s
    else if grammar ∈ report.failed.map Prod.fst then carryOut t fresh rest report s
    else if grammar ∈ fresh then
      let dependencies := t.edges grammar
      carryOut t (without grammar fresh)
        (dependencies.map .visit ++ .settle grammar dependencies :: rest) report s
    else carryOut t fresh rest report s
termination_by (fresh.length, steps.length)
decreasing_by
  · exact Prod.Lex.right _ (Nat.lt_succ_of_le (LoadStep.remaining_sublist ..).length_le)
  · exact Prod.Lex.right _ (by simp)
  · exact Prod.Lex.right _ (by simp)
  · exact Prod.Lex.left _ _ (length_without_lt (by assumption))
  · exact Prod.Lex.right _ (by simp)

def load (t : Tables) (language : String) (s : σ) : LoadReport × σ :=
  let grammar := t.resolve language
  carryOut t (t.reach grammar) [.visit grammar] ⟨grammar, [], [], none⟩ s

end Tables

end Highlighting
