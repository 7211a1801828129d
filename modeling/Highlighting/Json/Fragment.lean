import Highlighting.Json.Lexeme

/-! What a JSON text says up to the place where it breaks off. Where a word is not the one that
should be there it is kept in that place, and nothing follows it. -/

namespace Highlighting.Json

inductive Fragment where
  | word (l : Lexeme)
  /-- The last word stands where the closing bracket should. -/
  | array (items : List Fragment) (ending : Lexeme)
  /-- A field has a key, a colon and a value. -/
  | object (fields : List (Lexeme × Lexeme × Fragment)) (ending : Lexeme)

namespace Fragment

/-- A value that is still open; its parts so far stand in reverse. -/
inductive Frame where
  | array (items : List Fragment)
  | object (fields : List (Lexeme × Lexeme × Fragment)) (key sep : Lexeme)

inductive Expect where
  | value
  | key (fields : List (Lexeme × Lexeme × Fragment))
  | colon (fields : List (Lexeme × Lexeme × Fragment)) (key : Lexeme)
  | after (part : Fragment)

/-- The outermost value when the text breaks off at a word, after a part of the innermost. -/
def breakOff (l : Lexeme) (part : Fragment) : List Frame → Fragment
  | [] => part
  | .array items :: outer => breakOff l (.array (part :: items).reverse l) outer
  | .object fields key sep :: outer =>
    breakOff l (.object ((key, sep, part) :: fields).reverse l) outer

/-- Reads the words that follow `expect` inside open values: the outermost value, and the word
after it. -/
def run : Expect → List Frame → List Lexeme → Fragment × Lexeme
  | .after part, [], ls => (part, ls.headD .textEnd)
  | _, stack, [] => (breakOff .textEnd (.word .textEnd) stack, .textEnd)
  | .value, stack, .openArray :: .closeArray :: ls => run (.after (.array [] .closeArray)) stack ls
  | .value, stack, .openObject :: .closeObject :: ls =>
    run (.after (.object [] .closeObject)) stack ls
  | .value, stack, l :: ls =>
    match l with
    | .openArray => run .value (.array [] :: stack) ls
    | .openObject => run (.key []) stack ls
    | .text _ | .scalar _ => run (.after (.word l)) stack ls
    | _ => (breakOff l (.word l) stack, l)
  | .key fields, stack, l :: ls =>
    match l with
    | .text _ => run (.colon fields l) stack ls
    | _ => (breakOff l (.object ((l, l, .word l) :: fields).reverse l) stack, l)
  | .colon fields key, stack, l :: ls =>
    match l with
    | .colon => run .value (.object fields key l :: stack) ls
    | _ => (breakOff l (.object ((key, l, .word l) :: fields).reverse l) stack, l)
  | .after part, frame :: stack, l :: ls =>
    match l, frame with
    | .comma, .array items => run .value (.array (part :: items) :: stack) ls
    | .closeArray, .array items => run (.after (.array (part :: items).reverse l)) stack ls
    | .comma, .object fields key sep => run (.key ((key, sep, part) :: fields)) stack ls
    | .closeObject, .object fields key sep =>
      run (.after (.object ((key, sep, part) :: fields).reverse l)) stack ls
    | _, _ => (breakOff l part (frame :: stack), l)

/-- The value that a text begins with, and the word after it. -/
def ofText (text : String) : Fragment × Lexeme := run .value [] (Lexeme.ofText text)

end Fragment

mutual

/-- Passes over a value, which may hold any number of open arrays and objects. -/
def Fragment.pass : Fragment → Except TextFault Unit
  | .word l => l.pass
  | .array items ending => do
    Fragment.passItems items
    ending.expect .closeArray
  | .object fields ending => do
    Fragment.passFields fields
    ending.expect .closeObject

def Fragment.passItems : List Fragment → Except TextFault Unit
  | [] => pure ()
  | item :: rest => do
    item.pass
    Fragment.passItems rest

def Fragment.passFields : List (Lexeme × Lexeme × Fragment) → Except TextFault Unit
  | [] => pure ()
  | (key, sep, value) :: rest => do
    key.passKey
    sep.expect .colon
    value.pass
    Fragment.passFields rest

end

end Highlighting.Json
