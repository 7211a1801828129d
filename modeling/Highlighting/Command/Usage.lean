import Highlighting.Text.Search

/-! How the words of a command line are read. A usage says which options, words and commands may be
given; what each of them means is kept as a function that puts its value into a record. An option
waits for its value until the next word, and a value is only looked at when the next option or word
is, so of two faults the one that is met first counts. -/

namespace Highlighting

/-- Why a command line is not carried out. -/
inductive UsageFault where
  /-- Not a fault: help is asked for. -/
  | helpWanted
  /-- Not a fault: the version is asked for. -/
  | versionWanted
  | nothingGiven
  | missingCommand
  | unknownCommand
  | unknownArgument
  /-- A value that is missing, or empty where it must not be. -/
  | missingValue
  | malformedValue
  /-- A value for an option that takes none. -/
  | needlessValue
  /-- An option given twice, or next to one that excludes it. -/
  | conflict
  | missingArgument
  deriving DecidableEq, Repr

/-- What an option does to the record `α` of what is given. -/
inductive Action (α : Type) where
  | help
  | version
  | flag (set : α → α)
  | value (repeatable : Bool) (take : String → α → Except UsageFault α)

/-- An option by its name and, if it has one, its letter. -/
structure Switch (α : Type) where
  name : String
  letter : Option Char
  action : Action α

def Switch.takesValue {α : Type} (s : Switch α) : Bool :=
  match s.action with
  | .value .. => true
  | _ => false

/-- The options that may be given, the words in their order, and the commands. -/
structure Usage (α : Type) where
  switches : List (Switch α)
  words : List (Switch α)
  commands : List String

/-- What was read last and is still to be taken into the record. -/
inductive Pending (α : Type) where
  | nothing
  | awaiting (s : Switch α)
  | holding (s : Switch α) (value : String)

/-- How far a command line has been read. -/
structure Reading (α : Type) where
  given : α
  seen : List String
  pending : Pending α
  words : List (Switch α)
  /-- All that follows is words, even if it begins with a dash. -/
  literal : Bool

namespace Reading

variable {α : Type}

def start (u : Usage α) (given : α) : Reading α := ⟨given, [], .nothing, u.words, false⟩

/-- Takes a value into the record; for an option without one it means nothing. -/
def take (r : Reading α) (s : Switch α) (value : String) : Except UsageFault (Reading α) :=
  match s.action with
  | .help => throw .helpWanted
  | .version => throw .versionWanted
  | .flag set =>
    if s.name ∈ r.seen then throw .conflict
    else pure { r with given := set r.given, seen := s.name :: r.seen }
  | .value repeatable take =>
    if s.name ∈ r.seen ∧ ¬ repeatable then throw .conflict
    else do pure { r with given := ← take value r.given, seen := s.name :: r.seen }

/-- Takes what is pending into the record. -/
def settle (r : Reading α) : Except UsageFault (Reading α) :=
  match r.pending with
  | .nothing => pure r
  | .awaiting _ => throw .missingValue
  | .holding s value => ({ r with pending := .nothing } : Reading α).take s value

def option (r : Reading α) (s : Switch α) (value : Option (List Char)) :
    Except UsageFault (Reading α) :=
  match s.takesValue, value with
  | true, some value => do (← r.settle).take s (String.ofList value)
  | true, none => do pure { ← r.settle with pending := .awaiting s }
  | false, some _ => throw .needlessValue
  | false, none => do (← r.settle).take s ""

/-- An option by its name, which two dashes precede; its value may follow an equals sign. -/
def long (r : Reading α) (u : Usage α) (text : List Char) : Except UsageFault (Reading α) :=
  let (name, value) := match Text.splitFirst? ['='] text with
    | some (name, value) => (name, some value)
    | none => (text, none)
  match u.switches.find? (·.name == String.ofList name) with
  | some s => r.option s value
  | none => throw .unknownArgument

/-- Options by their letters, which one dash precedes; the value of one that takes a value may
follow it, also after an equals sign. -/
def short (r : Reading α) (u : Usage α) : List Char → Except UsageFault (Reading α)
  | [] => pure r
  | c :: cs =>
    match u.switches.find? (·.letter == some c) with
    | none => throw .unknownArgument
    | some s =>
      if s.takesValue then
        match cs with
        | [] => r.option s none
        | '=' :: value => r.option s (some value)
        | value => r.option s (some value)
      else do short (← r.option s none) u cs

def word (r : Reading α) (u : Usage α) (w : String) : Except UsageFault (Reading α) :=
  match r.words with
  | s :: rest => do pure { ← r.settle with pending := .holding s w, words := rest }
  | [] =>
    if u.commands.isEmpty ∨ (r.literal ∧ w ∈ u.commands) then throw .unknownArgument
    else throw .unknownCommand

/-- Any word but a command. A single dash is a word like others. -/
def step (r : Reading α) (u : Usage α) (w : String) : Except UsageFault (Reading α) :=
  if r.literal then r.word u w
  else match w.toList with
    | ['-', '-'] => pure { r with literal := true }
    | '-' :: '-' :: text => r.long u text
    | '-' :: c :: cs => r.short u (c :: cs)
    | _ => match r.pending with
      | .awaiting s => pure { r with pending := .holding s w }
      | _ => r.word u w

def isCommand (r : Reading α) (u : Usage α) (w : String) : Bool :=
  !r.literal && w ∈ u.commands && match r.pending with
    | .awaiting _ => false
    | _ => true

/-- Reads up to the first command, if there is one: what is given, and the command with the words
after it. -/
def run (r : Reading α) (u : Usage α) :
    List String → Except UsageFault (Reading α × Option (String × List String))
  | [] => pure (r, none)
  | w :: ws => if r.isCommand u w then pure (r, some (w, ws)) else do run (← r.step u w) u ws

end Reading

end Highlighting
