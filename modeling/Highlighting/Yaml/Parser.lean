import Highlighting.Yaml.Basic
import Highlighting.Yaml.Token

/-! Reading a YAML text. The collections under construction stand on a stack, so reading is one pass
over the tokens of the text. Where the next token shows that a part was left out, an absent value
takes its place. -/

namespace Highlighting.Yaml

/-- A collection that waits for a part; its parts so far stand in reverse. -/
inductive Frame where
  | sequence (items : List Yaml)
  /-- A sequence at the column of the mapping that it is a part of. -/
  | dashes (items : List Yaml)
  | key (entries : List (Yaml × Yaml))
  | value (entries : List (Yaml × Yaml)) (key : Yaml)
  | flowSequence (items : List Yaml)
  /-- A mapping of one entry without braces, inside a sequence. -/
  | pairKey (items : List Yaml)
  | pairValue (items : List Yaml) (key : Yaml)
  /-- A key that was not announced stands alone. -/
  | flowKey (entries : List (Yaml × Yaml)) (alone : Bool)
  | flowValue (entries : List (Yaml × Yaml)) (key : Yaml)

/-- What must come next. -/
inductive Expect where
  | part
  /-- The first dash of a sequence. -/
  | firstItem
  /-- The first key of a mapping. -/
  | firstKey
  | flowItem (items : List Yaml)
  | flowEntry (entries : List (Yaml × Yaml))
  | after (part : Yaml)

namespace Frame

/-- The token shows that the part was left out. -/
def leavesOut (t : Token) : Frame → Bool
  | .sequence _ => t ∈ [.item, .closeBlock]
  | .dashes _ | .key _ | .value .. => t ∈ [.item, .key, .value, .closeBlock]
  | .flowKey _ alone => !alone && t ∈ [.value, .comma, .closeFlowMapping]
  | .flowValue .. => t ∈ [.comma, .closeFlowMapping]
  | .pairKey _ => t ∈ [.value, .comma, .closeFlowSequence]
  | .pairValue .. => t ∈ [.comma, .closeFlowSequence]
  | .flowSequence _ => false

/-- Completes what a part ends without a token of its own: the token `t` comes next, and a key
without a value has an absent one. -/
def leaveKey (t : Token) (part : Yaml) : List Frame → Yaml × List Frame
  | .key entries :: outer =>
    if t = .value then (part, .key entries :: outer) else (absent, .value entries part :: outer)
  | .pairKey items :: outer =>
    if t = .value then (part, .pairKey items :: outer)
    else (.mapping [(part, absent)], .flowSequence items :: outer)
  | .pairValue items k :: outer => (.mapping [(k, part)], .flowSequence items :: outer)
  | .flowKey entries alone :: outer =>
    if t = .value ∧ ¬ alone then (part, .flowKey entries alone :: outer)
    else (absent, .flowValue entries part :: outer)
  | stack => (part, stack)

/-- The same, after the end of a sequence whose dashes end there. -/
def leave (t : Token) (part : Yaml) : List Frame → Yaml × List Frame
  | .dashes items :: outer =>
    if t = .item then (part, .dashes items :: outer)
    else leaveKey t (.sequence (part :: items).reverse) outer
  | stack => leaveKey t part stack

/-- The token `t` after a part. -/
def follow? (t : Token) (part : Yaml) (stack : List Frame) : Option (Expect × List Frame) :=
  match leave t part stack with
  | (y, .sequence items :: outer) =>
    match t with
    | .item => some (.part, .sequence (y :: items) :: outer)
    | .closeBlock => some (.after (.sequence (y :: items).reverse), outer)
    | _ => none
  | (y, .dashes items :: outer) => some (.part, .dashes (y :: items) :: outer)
  | (y, .key entries :: outer) => some (.part, .value entries y :: outer)
  | (y, .value entries k :: outer) =>
    match t with
    | .key => some (.part, .key ((k, y) :: entries) :: outer)
    | .closeBlock => some (.after (.mapping ((k, y) :: entries).reverse), outer)
    | _ => none
  | (y, .flowSequence items :: outer) =>
    match t with
    | .comma => some (.flowItem (y :: items), outer)
    | .closeFlowSequence => some (.after (.sequence (y :: items).reverse), outer)
    | _ => none
  | (y, .pairKey items :: outer) => some (.part, .pairValue items y :: outer)
  | (_, .pairValue .. :: _) => none
  | (y, .flowKey entries _ :: outer) => some (.part, .flowValue entries y :: outer)
  | (y, .flowValue entries k :: outer) =>
    match t with
    | .comma => some (.flowEntry ((k, y) :: entries), outer)
    | .closeFlowMapping => some (.after (.mapping ((k, y) :: entries).reverse), outer)
    | _ => none
  | (_, []) => none

/-- The token `t` where a part is due. -/
def part? (t : Token) (stack : List Frame) : Option (Expect × List Frame) :=
  match t, stack with
  | .scalar plain text, stack => some (.after (.scalar plain text), stack)
  | .openSequence, stack => some (.firstItem, stack)
  | .openMapping, stack => some (.firstKey, stack)
  | .openFlowSequence, stack => some (.flowItem [], stack)
  | .openFlowMapping, stack => some (.flowEntry [], stack)
  | .item, .key entries :: outer => some (.part, .dashes [] :: .key entries :: outer)
  | .item, .value entries k :: outer => some (.part, .dashes [] :: .value entries k :: outer)
  | t, .pairKey items :: outer =>
    if leavesOut t (.pairKey items) then some (.after absent, .pairKey items :: outer) else none
  | t, frame :: outer => if leavesOut t frame then follow? t absent (frame :: outer) else none
  | _, [] => none

end Frame

namespace Expect

def step? (t : Token) (stack : List Frame) : Expect → Option (Expect × List Frame)
  | .after y => Frame.follow? t y stack
  | .part => Frame.part? t stack
  | .firstItem =>
    match t with
    | .item => some (.part, .sequence [] :: stack)
    | .closeBlock => some (.after (.sequence []), stack)
    | _ => none
  | .firstKey =>
    match t with
    | .key => some (.part, .key [] :: stack)
    | .closeBlock => some (.after (.mapping []), stack)
    | _ => none
  | .flowItem items =>
    match t with
    | .closeFlowSequence => some (.after (.sequence items.reverse), stack)
    | .key => some (.part, .pairKey items :: stack)
    | t => Frame.part? t (.flowSequence items :: stack)
  | .flowEntry entries =>
    match t with
    | .closeFlowMapping => some (.after (.mapping entries.reverse), stack)
    | .key => some (.part, .flowKey entries false :: stack)
    | t => Frame.part? t (.flowKey entries true :: stack)

/-- Reads the tokens of the one document of a text. -/
def run? : Expect → List Frame → List Token → Option Yaml
  | .after y, [], ts => if ts.all (· == .documentEnd) then some y else none
  | _, _, [] => none
  | e, stack, t :: ts => (e.step? t stack).bind fun (e, stack) => run? e stack ts

end Expect

def ofTokens? : List Token → Option Yaml
  | [] => some absent
  | .documentStart :: ts =>
    if ts.all (· == .documentEnd) then some absent else Expect.run? .part [] ts
  | ts => Expect.run? .part [] ts

/-- Reads a text that holds one document, or none, which is absent. -/
def parse? (text : String) : Option Yaml := (tokens? text).bind ofTokens?

end Highlighting.Yaml
