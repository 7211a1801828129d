import Highlighting.Json.Numeral
import Highlighting.Json.Quoted

/-! The words of a JSON text. A word may be there only to be passed over, and then less is asked of
it: a surrogate may stand alone in a string, and a number may be as great as it likes. So a word
says both what it is and whether it may be taken. -/

namespace Highlighting

inductive TextFault where
  /-- The text ends before the value is complete. -/
  | cut
  | malformed
  deriving DecidableEq, Repr

inductive Lexeme where
  | openArray
  | closeArray
  | openObject
  | closeObject
  | comma
  | colon
  /-- A string, or none that may be taken. -/
  | text (value : Option String)
  /-- A number, null, true or false, or none that may be taken. -/
  | scalar (value : Option Json)
  /-- The text breaks off inside a word: why, for one to be taken and one to be passed over. -/
  | broken (isText : Bool) (taken passed : TextFault)
  /-- No word starts here. -/
  | stray
  | textEnd
  deriving Repr, BEq, Inhabited

namespace Lexeme

/-- What a reader is inside of. -/
inductive Mode where
  | between
  | text (place : Quoted.Place) (quoted : Quoted)
  | number (place : Numeral.Place) (numeral : Numeral)
  /-- Inside a keyword, whose letters `left` are missing. -/
  | keyword (left : List Char) (value : Json)

def isSpace (c : Char) : Bool := c == ' ' || c == '\t' || c == '\n' || c == '\r'

def symbol? : Char → Option Lexeme
  | '[' => some openArray
  | ']' => some closeArray
  | '{' => some openObject
  | '}' => some closeObject
  | ',' => some comma
  | ':' => some colon
  | _ => none

def keyword? : Char → Option (List Char × Json)
  | 'n' => some ("ull".toList, .null)
  | 't' => some ("rue".toList, .bool true)
  | 'f' => some ("alse".toList, .bool false)
  | _ => none

/-- What a character between words is: a word of its own, or none, and the mode after it; or no
word starts with it. -/
def start? (c : Char) : Option (List Lexeme × Mode) :=
  match symbol? c, keyword? c, Numeral.start? c with
  | some l, _, _ => some ([l], .between)
  | none, some (left, value), _ => some ([], .keyword left value)
  | none, none, some (place, n) => some ([], .number place n)
  | none, none, none =>
    if isSpace c then some ([], .between)
    else if c = '"' then some ([], .text .plain .empty)
    else none

/-- A string breaks off. A surrogate that stands alone before that is found first. -/
def brokenText (q : Quoted) (fault : TextFault) : Lexeme :=
  broken true (if q.lone then .malformed else fault) fault

/-- The words with which a text ends. -/
def atEnd : Mode → List Lexeme
  | .between => [textEnd]
  | .text _ q => [brokenText q .cut]
  | .number place n =>
    if place.isComplete then [scalar n.value?, textEnd] else [broken false .cut .malformed]
  | .keyword .. => [broken false .cut .cut]

/-- The words from a mode on; none follows a place where the text breaks off. -/
def scan : Mode → List Char → List Lexeme
  | mode, [] => atEnd mode
  | .between, c :: cs =>
    match start? c with
    | some (ls, mode) => ls ++ scan mode cs
    | none => [stray]
  | .text place q, c :: cs =>
    match q.step place c cs with
    | .go place q => scan (.text place q) cs
    | .close => text q.text? :: scan .between cs
    | .cut => [brokenText q .cut]
    | .malformed => [brokenText q .malformed]
  | .number place n, c :: cs =>
    match n.step place c with
    | .go place n => scan (.number place n) cs
    | .malformed => [broken false .malformed .malformed]
    | .done => scalar n.value? :: match start? c with
      | some (ls, mode) => ls ++ scan mode cs
      | none => [stray]
  | .keyword left value, c :: cs =>
    if left.head? ≠ some c then [broken false .malformed .malformed]
    else if left.length = 1 then scalar (some value) :: scan .between cs
    else scan (.keyword left.tail value) cs

def ofText (text : String) : List Lexeme := scan .between text.toList

/-- Another word stands where this one should be. -/
def misplaced : Lexeme → TextFault
  | textEnd => .cut
  | _ => .malformed

/-- The word has to be the one that is wanted. -/
def expect (l wanted : Lexeme) : Except TextFault Unit :=
  if l == wanted then pure () else throw l.misplaced

/-- The value of a word that stands where a value has to be. -/
def value : Lexeme → Except TextFault Json
  | text (some s) => pure (.str s)
  | scalar (some j) => pure j
  | broken _ taken _ => throw taken
  | l => throw l.misplaced

/-- Passes over a word that stands where a value has to be. -/
def pass : Lexeme → Except TextFault Unit
  | text _ | scalar _ => pure ()
  | broken _ _ passed => throw passed
  | l => throw l.misplaced

def key : Lexeme → Except TextFault String
  | text (some s) => pure s
  | broken true taken _ => throw taken
  | l => throw l.misplaced

def passKey : Lexeme → Except TextFault Unit
  | text _ => pure ()
  | broken true _ passed => throw passed
  | l => throw l.misplaced

end Lexeme

end Highlighting
