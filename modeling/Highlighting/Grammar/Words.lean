import Highlighting.Grammar.Engine
import Highlighting.Grammar.Tables
import Highlighting.Text.Search

/-! An engine without grammars: it colours words and quoted strings of any registered language. To
try out what happens around an engine, it fails to register some grammars and crashes on request. -/

namespace Highlighting

structure WordEngine where
  failing : List String
  grammars : List String
  theme : Theme

namespace WordEngine

def isWordChar (c : Char) : Bool := c.isAlphanum || c == '_'

inductive Token where
  | word (text : List Char)
  | other (text : List Char)
  | quoted (inner : List Char) (closed : Bool)

/-- Puts a character before the tokens of what follows. -/
def cons (c : Char) (tokens : List Token) : List Token :=
  if isWordChar c then
    match tokens with
    | .word text :: rest => .word (c :: text) :: rest
    | rest => .word [c] :: rest
  else
    match tokens with
    | .other text :: rest => .other (c :: text) :: rest
    | rest => .other [c] :: rest

/-- The tokens of a text. Inside quotes `inner` holds what was read since the opening one, in
reverse. -/
def tokens : (inner : Option (List Char)) → List Char → List Token
  | none, [] => []
  | some inner, [] => [.quoted inner.reverse false]
  | none, c :: cs => if c = '"' then tokens (some []) cs else cons c (tokens none cs)
  | some inner, c :: cs =>
    if c = '"' then .quoted inner.reverse true :: tokens none cs
    else tokens (some (c :: inner)) cs

def wordNode (theme : Theme) (text : List Char) : Node :=
  .span (theme.apply ["token", "word"]) [.text (String.ofList text)]

def unquoted (theme : Theme) (text : List Char) : Forest :=
  (tokens none text).map fun
    | .word text => wordNode theme text
    | .other text => .text (String.ofList text)
    | .quoted inner _ => .text (String.ofList inner)

def tokenNode (theme : Theme) : Token → Node
  | .word text => wordNode theme text
  | .other text => .text (String.ofList text)
  | .quoted inner closed =>
    .span (theme.apply ["token", "string"])
      (.text "\"" :: unquoted theme inner ++ if closed then [.text "\""] else [])

/-- The text asks for a crash. -/
def crash? (text grammar : String) : Option EngineFault :=
  let asks (word : String) := Text.contains word.toList text.toList
  if asks "@panic@" then some (.crashed (some "engine exploded"))
  else if asks "@panic-string@" then some (.crashed (some ("engine exploded on " ++ grammar)))
  else if asks "@panic-other@" then some (.crashed none)
  else none

def isRegistered (e : WordEngine) (grammar : String) : Bool :=
  grammar == plainText || e.grammars.contains grammar

def register (e : WordEngine) (grammar : String) (_ : List String) :
    Except EngineFault Unit × WordEngine :=
  if grammar ∈ e.failing then (.error (.refused (.unknown grammar)), e)
  else (.ok (), { e with grammars := e.grammars ++ [grammar] })

def highlight (e : WordEngine) (text grammar : String) : Except EngineFault Forest :=
  if e.isRegistered grammar then
    match crash? text grammar with
    | some fault => .error fault
    | none => .ok ((tokens none text.toList).map (tokenNode e.theme))
  else .error (.refused (.notRegistered grammar))

instance : Engine WordEngine where
  isRegistered := isRegistered
  register := register
  highlight := highlight
  setTheme e theme := { e with theme }

end WordEngine

end Highlighting
