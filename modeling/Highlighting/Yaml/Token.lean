import Highlighting.Number.Unsigned
import Highlighting.Yaml.Scalar

/-! The tokens of a YAML text. Indentation becomes tokens that open and close blocks. That a scalar
is a key shows only at the colon after it, so places where a key may have started are remembered,
and the token that announces the key is put there afterwards. -/

namespace Highlighting.Yaml

inductive Token where
  | documentStart
  | documentEnd
  | openSequence
  | openMapping
  | closeBlock
  | openFlowSequence
  | closeFlowSequence
  | openFlowMapping
  | closeFlowMapping
  /-- The dash before an item. -/
  | item
  | comma
  | key
  | value
  | scalar (plain : Bool) (text : String)
  deriving DecidableEq, Repr

/-- A place where a key may have started. -/
structure KeyPlace where
  line : Nat
  column : Nat
  /-- The bytes of the line before it. -/
  offset : Nat
  /-- How many tokens stand before it. -/
  index : Nat
  /-- Nothing but a key may start there. -/
  required : Bool

/-- How far a text has been read. -/
structure Layout where
  line : Nat
  column : Nat
  /-- The bytes of the line before the next character. -/
  offset : Nat
  /-- The columns of the open blocks, innermost first. -/
  indents : List Nat
  /-- Where a key may have started since the innermost bracket. -/
  keyPlace : Option KeyPlace
  /-- Where one may have started since each bracket around that. -/
  outerPlaces : List (Option KeyPlace)
  /-- A key may start here. -/
  keyAllowed : Bool
  /-- The tokens in reverse. -/
  tokens : List Token

inductive Inside where
  | text
  | escape
  /-- Inside hexadecimal digits, `left` of them missing. -/
  | hex (left value : Nat)
  /-- Before the second of two single quotes. -/
  | twin

/-- What a reader is inside of. -/
inductive Mode where
  | between
  | comment
  /-- Inside a word whose token is already there. -/
  | skip (left : Nat)
  | plain (draft : Draft)
  | quoted (single : Bool) (inside : Inside) (draft : Draft)

namespace Layout

def start : Layout := ⟨0, 0, 0, [], none, [], true, []⟩

def inFlow (l : Layout) : Bool := !l.outerPlaces.isEmpty

/-- The least column of what belongs to the innermost block. -/
def margin (l : Layout) : Nat := match l.indents with
  | [] => 0
  | indent :: _ => indent + 1

def emit (l : Layout) (t : Token) : Layout := { l with tokens := t :: l.tokens }

/-- Opens a block at a column unless an open one is there; its token comes after the first `index`
tokens. Brackets hold no blocks. -/
def openBlock (l : Layout) (column index : Nat) (t : Token) : Layout :=
  if !l.inFlow && l.indents.head?.all (· < column) then
    { l with
      indents := column :: l.indents
      tokens := l.tokens.insertIdx (l.tokens.length - index) t }
  else l

/-- Closes the open blocks that `closes` holds of, from the innermost on. -/
def closeBlocks (l : Layout) (closes : Nat → Bool) : Layout :=
  if l.inFlow then l
  else
    { l with
      indents := l.indents.dropWhile closes
      tokens := List.replicate (l.indents.takeWhile closes).length .closeBlock ++ l.tokens }

/-- No key has started since the innermost bracket; none if one must have. -/
def dropKey? (l : Layout) : Option Layout :=
  if l.keyPlace.any (·.required) then none else some { l with keyPlace := none }

/-- Remembers that a key may start here. -/
def markKey? (l : Layout) : Option Layout :=
  if l.keyAllowed then do
    let required := !l.inFlow && l.indents.head? = some l.column
    let place := ⟨l.line, l.column, l.offset, l.tokens.length, required⟩
    pure { ← l.dropKey? with keyPlace := some place }
  else some l

/-- A key ends on its line, within 1024 bytes. -/
def isStale (l : Layout) (place : KeyPlace) : Bool :=
  place.line < l.line || place.offset + 1024 < l.offset

/-- Forgets the places whose keys would have ended; none if a key must start at one of them. -/
def dropStale? (l : Layout) : Option Layout :=
  let drop? : Option KeyPlace → Option (Option KeyPlace)
    | none => some none
    | some place =>
      if l.isStale place then if place.required then none else some none else some (some place)
  do pure { l with keyPlace := ← drop? l.keyPlace, outerPlaces := ← l.outerPlaces.mapM drop? }

/-- Three dashes or dots at the start of a line begin or end a document. -/
def documentMark? (l : Layout) (c : Char) (rest : List Char) : Option Token :=
  if l.column = 0 ∧ rest.take 2 = [c, c] ∧ atSpace (rest.drop 2) then
    if c = '-' then some .documentStart else if c = '.' then some .documentEnd else none
  else none

def openFlow? (l : Layout) (t : Token) : Option Layout := do
  let l ← l.markKey?
  let l := { l with keyPlace := none, outerPlaces := l.keyPlace :: l.outerPlaces }
  pure (({ l with keyAllowed := true } : Layout).emit t)

/-- A closing bracket; what stands between brackets may be a key. -/
def closeFlow? (l : Layout) (t : Token) : Option Layout := do
  let l ← l.dropKey?
  let l := match l.outerPlaces with
    | [] => l
    | place :: outer => { l with keyPlace := place, outerPlaces := outer }
  pure (({ l with keyAllowed := false } : Layout).emit t)

def comma? (l : Layout) : Option Layout :=
  l.dropKey?.map fun l => ({ l with keyAllowed := true } : Layout).emit .comma

/-- A dash, or a question mark, which announces a key. Outside of brackets it may stand only where
a key may start. -/
def announce? (l : Layout) (block t : Token) (keyAllowed : Bool) : Option Layout :=
  if !l.inFlow && !l.keyAllowed then none
  else do
    let l ← (l.openBlock l.column l.tokens.length block).dropKey?
    pure (({ l with keyAllowed } : Layout).emit t)

/-- A colon. If a key may have started, it has. -/
def value? (l : Layout) : Option Layout :=
  match l.keyPlace with
  | some place =>
    let tokens := l.tokens.insertIdx (l.tokens.length - place.index) .key
    let l := ({ l with tokens } : Layout).openBlock place.column place.index .openMapping
    some (({ l with keyPlace := none, keyAllowed := false } : Layout).emit .value)
  | none =>
    if !l.inFlow && !l.keyAllowed then none
    else
      let l := l.openBlock l.column l.tokens.length .openMapping
      some (({ l with keyAllowed := !l.inFlow } : Layout).emit .value)

/-- Characters that begin something other than a plain scalar. Of these, tags, anchors, aliases,
directives and literal blocks are not read. -/
def indicators : List Char :=
  [',', '[', ']', '{', '}', '#', '&', '*', '!', '|', '>', '\'', '"', '%', '@', '\x60']

/-- The token that starts with `c`. -/
def begin? (l : Layout) (c : Char) (rest : List Char) : Option (Layout × Mode) := do
  let l ← l.dropStale?
  let l := l.closeBlocks (l.column < ·)
  let between (l : Option Layout) : Option (Layout × Mode) := l.map (·, .between)
  match l.documentMark? c rest with
  | some t =>
    let l ← (l.closeBlocks fun _ => true).dropKey?
    pure (({ l with keyAllowed := false } : Layout).emit t, .skip 2)
  | none =>
    if c = '[' then between (l.openFlow? .openFlowSequence)
    else if c = '{' then between (l.openFlow? .openFlowMapping)
    else if c = ']' then between (l.closeFlow? .closeFlowSequence)
    else if c = '}' then between (l.closeFlow? .closeFlowMapping)
    else if c = ',' then between l.comma?
    else if c = '-' ∧ atSpace rest then between (l.announce? .openSequence .item true)
    else if c = '?' ∧ (l.inFlow ∨ atSpace rest) then
      between (l.announce? .openMapping .key (!l.inFlow))
    else if c = ':' ∧ (l.inFlow ∨ atSpace rest) then between l.value?
    else
      let l ← l.markKey?
      let l := { l with keyAllowed := false }
      if c = '\'' ∨ c = '"' then pure (l, .quoted (c == '\'') .text .empty)
      else if isSpace c ∨ c ∈ indicators then none
      else pure (l, .plain (Draft.empty.add c))

/-- A character between tokens. Where a key may start, tabs may not. -/
def between? (l : Layout) (c : Char) (rest : List Char) : Option (Layout × Mode) :=
  if c = orderMark ∧ l.column = 0 then some (l, .between)
  else if c = ' ' ∨ (c = '\t' ∧ (l.inFlow ∨ ¬ l.keyAllowed)) then some (l, .between)
  else if c = '#' then some (l, .comment)
  else if isBreak c then some ({ l with keyAllowed := l.keyAllowed || !l.inFlow }, .between)
  else l.begin? c rest

def emitPlain (l : Layout) (d : Draft) : Layout :=
  ({ l with keyAllowed := l.keyAllowed || d.gap.isBroken } : Layout).emit (.scalar true d.text)

/-- A plain scalar ends before the visible character `c`. -/
def endsPlain (l : Layout) (d : Draft) (c : Char) (rest : List Char) : Bool :=
  (!d.gap.isEmpty
      && ((!l.inFlow && l.column < l.margin) || (l.documentMark? c rest).isSome || c = '#'))
    || (c = ':' && atSpace rest)
    || (l.inFlow && c ∈ [',', '[', ']', '{', '}'])

/-- A character inside a plain scalar, or the first behind it. A tab may not stand in place of
indentation. -/
def plain? (l : Layout) (d : Draft) (c : Char) (rest : List Char) : Option (Layout × Mode) :=
  if isSpace c then
    if d.gap.isBroken ∧ c = '\t' ∧ l.column < l.margin then none
    else some (l, .plain (d.space c))
  else if l.endsPlain d c rest then (l.emitPlain d).between? c rest
  else if l.inFlow ∧ c = ':' ∧ rest.head?.any (· ∈ [',', '?', '[', ']', '{', '}']) then none
  else some (l, .plain (d.add c))

/-- A character inside quotes. Between single quotes two of them stand for one. -/
def quoted? (l : Layout) (single : Bool) (d : Draft) (c : Char) (rest : List Char) :
    Inside → Option (Layout × Mode)
  | .text =>
    if isSpace c then some (l, .quoted single .text (d.space c))
    else if (l.documentMark? c rest).isSome then none
    else if c = (if single then '\'' else '"') then
      if single ∧ rest.head? = some '\'' then some (l, .quoted single .twin d)
      else some (l.emit (.scalar false d.settle.text), .between)
    else if c = '\\' ∧ ¬ single then some (l, .quoted single .escape d.settle)
    else some (l, .quoted single .text (d.add c))
  | .twin => some (l, .quoted single .text (d.add c))
  | .escape =>
    if isBreak c then some (l, .quoted single .text { d with gap := .breaks none [] })
    else match escapedDigits? c with
      | some digits => some (l, .quoted single (.hex digits 0) d)
      | none => (escaped? c).map fun e => (l, .quoted single .text (d.add e))
  | .hex left value => do
    let value := value * 16 + (← Number.digit? 16 c)
    if 1 < left then pure (l, .quoted single (.hex (left - 1) value) d)
    else pure (l, .quoted single .text (d.add (← ofCode? value)))

/-- One character, which `rest` follows. -/
def step? (l : Layout) (c : Char) (rest : List Char) : Mode → Option (Layout × Mode)
  | .between => l.between? c rest
  | .comment => if isBreak c then l.between? c rest else some (l, .comment)
  | .skip left => some (l, if 1 < left then .skip (left - 1) else .between)
  | .plain d => l.plain? d c rest
  | .quoted single inside d => l.quoted? single d c rest inside

/-- Moves on by a character. -/
def pass (l : Layout) (c : Char) : Layout :=
  if isBreak c then { l with line := l.line + 1, column := 0, offset := 0 }
  else { l with column := l.column + 1, offset := l.offset + c.utf8Size }

/-- The tokens of a text that ends here. -/
def finish? (l : Layout) : Mode → Option (List Token)
  | .quoted .. => none
  | .plain d => close (l.emitPlain d)
  | _ => close l
where
  close (l : Layout) : Option (List Token) := do
    let l ← (← l.dropStale?).dropKey?
    pure (l.closeBlocks fun _ => true).tokens.reverse

/-- The tokens of a text whose rest is given. -/
def scan? (l : Layout) (mode : Mode) : List Char → Option (List Token)
  | [] => l.finish? mode
  | c :: cs => (l.step? c cs mode).bind fun (l, mode) => scan? (l.pass c) mode cs

end Layout

def tokens? (text : String) : Option (List Token) :=
  let cs := text.toList
  if cs.all isAllowed then Layout.start.scan? .between (endLines cs) else none

end Highlighting.Yaml
