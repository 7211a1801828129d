import Highlighting.Number.Unsigned
import Highlighting.Text.Utf8

/-! Strings as JSON writes them, read character by character. -/

namespace Highlighting

/-- A string as far as it has been read; its characters stand in reverse. A surrogate that is
written by its number counts only as one of a pair. -/
structure Quoted where
  read : List Char
  /-- A high surrogate, which a low one must follow at once. -/
  high : Option Nat
  /-- A surrogate stood alone. -/
  lone : Bool

namespace Quoted

def empty : Quoted := ⟨[], none, false⟩

/-- Where a reader stands inside a string. -/
inductive Place where
  | plain
  | escape
  /-- Inside four hexadecimal digits, `left` of them missing. -/
  | hex (left value : Nat)

inductive Step where
  | go (place : Place) (quoted : Quoted)
  | close
  | cut
  | malformed

/-- The character that a backslash and a letter denote. -/
def escaped? : Char → Option Char
  | '"' => some '"'
  | '\\' => some '\\'
  | '/' => some '/'
  | 'b' => some '\x08'
  | 'f' => some '\x0c'
  | 'n' => some '\n'
  | 'r' => some '\r'
  | 't' => some '\t'
  | _ => none

def add (q : Quoted) (c : Char) : Quoted := ⟨c :: q.read, none, q.lone || q.high.isSome⟩

def isHigh (unit : Nat) : Bool := 0xd800 ≤ unit && unit ≤ 0xdbff

def isLow (unit : Nat) : Bool := 0xdc00 ≤ unit && unit ≤ 0xdfff

/-- Adds what four hexadecimal digits denote. -/
def addUnit (q : Quoted) (unit : Nat) : Quoted :=
  match q.high with
  | some high =>
    if isLow unit then
      { q with
        read := Char.ofNat (0x10000 + (high - 0xd800) * 0x400 + (unit - 0xdc00)) :: q.read
        high := none }
    else { q with high := none, lone := true }
  | none =>
    if isHigh unit then { q with high := some unit }
    else if isLow unit then { q with lone := true }
    else q.add (Char.ofNat unit)

/-- One character, which `rest` follows. An escape by number needs four more bytes. -/
def step (q : Quoted) (place : Place) (c : Char) (rest : List Char) : Step :=
  match place with
  | .plain =>
    if c = '"' then .close
    else if c = '\\' then .go .escape q
    else if c.toNat < 0x20 then .malformed
    else .go .plain (q.add c)
  | .escape =>
    if c = 'u' then
      if Text.byteLength (rest.take 4) < 4 then .cut else .go (.hex 4 0) q
    else match escaped? c with
      | some d => .go .plain (q.add d)
      | none => .malformed
  | .hex left value =>
    match Number.digit? 16 c with
    | none => .malformed
    | some d =>
      let value := value * 16 + d
      if 1 < left then .go (.hex (left - 1) value) q else .go .plain (q.addUnit value)

/-- The string, none if a surrogate stands alone in it. -/
def text? (q : Quoted) : Option String :=
  if q.lone || q.high.isSome then none else some (String.ofList q.read.reverse)

end Quoted

end Highlighting
