import Highlighting.Dict
import Highlighting.Number.Double

/-! JSON values, and how records are taken out of them. The fields of an object keep their order
and their repetitions, so that a record can refuse a field that is given twice. -/

namespace Highlighting

open Number

inductive Json where
  | null
  | bool (value : Bool)
  | int (value : Int)
  | double (value : Double)
  | str (value : String)
  | arr (items : List Json)
  | obj (fields : List (String × Json))
  deriving Repr, BEq, Inhabited

namespace Json

def asString? : Json → Option String
  | .str s => some s
  | _ => none

def asBool? : Json → Option Bool
  | .bool b => some b
  | _ => none

/-- An integer from 0 to below `2 ^ 64`. -/
def asUnsigned? : Json → Option UInt64
  | .int n => if 0 ≤ n ∧ n < UInt64.size then some (UInt64.ofNat n.toNat) else none
  | _ => none

def ofUnsigned (n : UInt64) : Json := .int n.toNat

@[simp] theorem asUnsigned?_ofUnsigned (n : UInt64) : (ofUnsigned n).asUnsigned? = some n := by
  have h : n.toNat < UInt64.size := n.toNat_lt_size
  simp only [ofUnsigned, asUnsigned?]
  rw [if_pos (by omega)]
  simp

/-- The items of an array, each decoded; none if one of them does not decode. -/
def asArray? {α : Type} (decode : Json → Option α) : Json → Option (List α)
  | .arr items => items.mapM decode
  | _ => none

def asStrings? (j : Json) : Option (List String) := j.asArray? asString?

def ofStrings (items : List String) : Json := .arr (items.map .str)

/-- The entries of an object, each value decoded; of two with one key the later counts. -/
def asDict? {α : Type} (decode : Json → Option α) : Json → Option (Dict α)
  | .obj fields => do
    let entries ← fields.mapM fun (key, value) => (decode value).map (key, ·)
    pure (Dict.ofList entries)
  | _ => none

def ofDict {α : Type} (encode : α → Json) (d : Dict α) : Json :=
  .obj (d.entries.map fun (key, value) => (key, encode value))

/-- The fields of a record with the given field names. None of them may be given twice; other
fields are left alone. A record may also be an array of its fields in order. -/
def record? (names : List String) : Json → Option (List (String × Json))
  | .obj fields =>
    if names.all fun name => fields.countP (·.1 == name) ≤ 1 then some fields else none
  | .arr items => if items.length ≤ names.length then some (names.zip items) else none
  | _ => none

def required? {α : Type} (fields : List (String × Json)) (name : String)
    (decode : Json → Option α) : Option α :=
  (fields.lookup name).bind decode

/-- A field that stands for `default` where it is missing. -/
def optional? {α : Type} (fields : List (String × Json)) (name : String) (default : α)
    (decode : Json → Option α) : Option α :=
  match fields.lookup name with
  | none => some default
  | some value => decode value

/-- A value that `null` leaves out. -/
def nullable? {α : Type} (decode : Json → Option α) : Json → Option (Option α)
  | .null => some none
  | j => (decode j).map some

/-- Where a value stands: outside of all tagged records, or inside one. -/
inductive Level where
  | outer
  | inner
  deriving DecidableEq, Repr

/-- The kind that a tag means: it is the name of the kind or, inside a tagged record, its number. -/
def kind? (level : Level) (kinds : List String) : Json → Option String
  | .str name => if kinds.contains name then some name else none
  | .int n => if level = .inner ∧ 0 ≤ n then kinds[n.toNat]? else none
  | _ => none

/-- A tagged record: its kind, and the record without the tag. The tag is the field `type`, or the
first item of an array. -/
def tagged? (level : Level) (kinds : List String) : Json → Option (String × Json)
  | .obj fields => do
    if 1 < fields.countP (·.1 == "type") then none
    let kind ← required? fields "type" (kind? level kinds)
    pure (kind, .obj (fields.filter (·.1 != "type")))
  | .arr (tag :: items) => (kind? level kinds tag).map (·, .arr items)
  | _ => none

mutual

/-- The value in which each object has every key once, in key order; of two fields with one key
the later counts. -/
def settle : Json → Json
  | .arr items => .arr (settleItems items)
  | .obj fields => .obj (Dict.ofList (settleFields fields)).entries
  | j => j

def settleItems : List Json → List Json
  | [] => []
  | j :: rest => j.settle :: settleItems rest

def settleFields : List (String × Json) → List (String × Json)
  | [] => []
  | (key, j) :: rest => (key, j.settle) :: settleFields rest

end

end Json

end Highlighting
