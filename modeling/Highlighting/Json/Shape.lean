import Highlighting.Json.Fragment

/-! Reading a JSON text as a value of a given shape, from its beginning on: of several faults the
first counts, be it of the text or of the shape. What the shape does not know is passed over. -/

namespace Highlighting.Json

/-- Why a text is not a value of a shape. -/
inductive Fault where
  | text (fault : TextFault)
  /-- It is a value of another shape. -/
  | misfit
  deriving DecidableEq, Repr

instance : MonadLift (Except TextFault) (Except Fault) := ⟨fun x => x.mapError .text⟩

inductive Shape where
  | any
  /-- A value that is neither an array nor an object. -/
  | scalar (accepts : Json → Bool)
  /-- One of some names, as a string or as an object that has it alone, with null. -/
  | choice (names : List String)
  | list (item : Shape)
  /-- An object with these fields, or an array of them in order. -/
  | record (fields : List (String × Shape))
  /-- A record whose tag is one of some kinds. It is taken as a whole before the rest of it is
  looked at. -/
  | tagged (kinds : List String) (accepts : Json → Bool)

/-- How many arrays and objects may be open at once. -/
def maxDepth : Nat := 127

namespace Shape

def string : Shape := scalar fun j => j.asString?.isSome

def boolean : Shape := scalar fun j => j.asBool?.isSome

def unsigned : Shape := scalar fun j => j.asUnsigned?.isSome

/-- The tag of a record. -/
def tag (kinds : List String) : Shape := scalar fun j => j.asString?.any (kinds.contains ·)

/-- A scalar fits. -/
def fits (shape : Shape) (j : Json) : Bool :=
  match shape with
  | any => true
  | scalar accepts => accepts j
  | _ => false

/-- The shapes of the first items of an array, all of which must be there, and of further items. -/
def items : Shape → Except Fault (List Shape × Option Shape)
  | any => pure ([], some any)
  | scalar _ => throw .misfit
  | choice _ => throw (.text .malformed)
  | list item => pure ([], some item)
  | record fields => pure (fields.map Prod.snd, none)
  | tagged kinds _ => pure ([tag kinds], some any)

/-- The fields of an object, all of which must be there, and the shape of further fields, which
are otherwise passed over. -/
def fields : Shape → Except Fault (List (String × Shape) × Option Shape)
  | any => pure ([], some any)
  | scalar _ | choice _ | list _ => throw .misfit
  | record fields => pure (fields, none)
  | tagged kinds _ => pure ([("type", tag kinds)], some any)

/-- An array or an object that was read fits as a whole. -/
def whole (shape : Shape) (j : Json) : Except Fault Json :=
  match shape with
  | tagged _ accepts => if accepts j then pure j else throw .misfit
  | _ => pure j

end Shape

/-- The room that is left inside an array or an object. -/
def enter : Nat → Except Fault Nat
  | 0 => throw (.text .malformed)
  | room + 1 => pure room

def oneOf (names : List String) (name : String) : Except Fault String :=
  if names.contains name then pure name else throw .misfit

mutual

/-- Reads a value of a shape, with room for so many more open arrays and objects. -/
def Fragment.read (room : Nat) (shape : Shape) : Fragment → Except Fault Json
  | .word l => do
    match shape with
    | .choice names => pure (.str (← oneOf names (← l.key)))
    | _ =>
      let j ← l.value
      if shape.fits j then pure j else throw .misfit
  | .array items ending => do
    let (leading, further) ← shape.items
    let room ← enter room
    shape.whole (.arr (← Fragment.readItems room leading further ending items))
  | .object fields ending => do
    match shape with
    | .choice names =>
      let room ← enter room
      Fragment.readSole room names ending fields
    | _ =>
      let (known, further) ← shape.fields
      let room ← enter room
      shape.whole (.obj (← Fragment.readFields room known further [] ending fields))

def Fragment.readItems (room : Nat) (leading : List Shape) (further : Option Shape)
    (ending : Lexeme) : List Fragment → Except Fault (List Json)
  | [] => do
    ending.expect .closeArray
    if leading.isEmpty then pure [] else throw .misfit
  | item :: rest => do
    match leading.head? <|> further with
    | none => throw (.text .malformed)
    | some shape =>
      let j ← item.read room shape
      pure (j :: (← Fragment.readItems room leading.tail further ending rest))

/-- Reads the fields of an object, after those with the names `seen`. -/
def Fragment.readFields (room : Nat) (known : List (String × Shape)) (further : Option Shape)
    (seen : List String) (ending : Lexeme) :
    List (Lexeme × Lexeme × Fragment) → Except Fault (List (String × Json))
  | [] => do
    ending.expect .closeObject
    if known.all fun (name, _) => seen.contains name then pure [] else throw .misfit
  | (key, sep, value) :: rest => do
    let name ← key.key
    if (known.lookup name).isSome && seen.contains name then throw .misfit
    sep.expect .colon
    match known.lookup name <|> further with
    | none =>
      value.pass
      Fragment.readFields room known further seen ending rest
    | some shape =>
      let j ← value.read room shape
      pure ((name, j) :: (← Fragment.readFields room known further (name :: seen) ending rest))

/-- Reads the one field of an object, a name with null. -/
def Fragment.readSole (room : Nat) (names : List String) (ending : Lexeme) :
    List (Lexeme × Lexeme × Fragment) → Except Fault Json
  | [] => throw (.text .malformed)
  | (key, sep, value) :: rest => do
    let name ← oneOf names (← key.key)
    sep.expect .colon
    let j ← value.read room (.scalar (· == .null))
    if rest.isEmpty then
      ending.expect .closeObject
      pure (.obj [(name, j)])
    else throw (.text .malformed)

end

/-- Reads a text that is one value of a shape. -/
def Shape.read (shape : Shape) (text : String) : Except Fault Json := do
  let (fragment, after) := Fragment.ofText text
  let j ← fragment.read maxDepth shape
  after.expect .textEnd
  pure j

def parse (text : String) : Except Fault Json := Shape.any.read text

/-- Reads a text that is one value of a shape, and decodes it. -/
def Shape.decode {α : Type} (shape : Shape) (ofJson? : Json → Option α) (text : String) :
    Except Fault α := do
  match ofJson? (← shape.read text) with
  | some a => pure a
  | none => throw .misfit

end Highlighting.Json
