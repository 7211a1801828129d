import Highlighting.Json.Basic

/-! Numbers as JSON writes them, read character by character. A number ends before the first
character that cannot go on with it. -/

namespace Highlighting

open Number

/-- A number as it is written; digits stand in reverse. -/
structure Numeral where
  negative : Bool
  whole : List Nat
  fraction : Option (List Nat)
  /-- The power of ten: whether it is negative, and its digits. -/
  power : Option (Bool × List Nat)

namespace Numeral

/-- Where a reader stands inside a number. -/
inductive Place where
  | sign
  /-- After a zero that begins the number; no digit may follow. -/
  | zero
  | whole
  | point
  | fraction
  /-- After the letter before the power. -/
  | mark
  /-- After the sign of the power. -/
  | markSign
  | power

/-- The number may end here. -/
def Place.isComplete : Place → Bool
  | zero | whole | fraction | power => true
  | sign | point | mark | markSign => false

inductive Step where
  | go (place : Place) (numeral : Numeral)
  /-- The number ends before the character. -/
  | done
  | malformed

/-- A number that starts with a character. -/
def start? (c : Char) : Option (Place × Numeral) :=
  if c = '-' then some (.sign, ⟨true, [], none, none⟩)
  else if c = '0' then some (.zero, ⟨false, [0], none, none⟩)
  else if c.isDigit then some (.whole, ⟨false, [c.toNat - '0'.toNat], none, none⟩)
  else none

def addWhole (n : Numeral) (d : Nat) : Numeral := { n with whole := d :: n.whole }

def addFraction (n : Numeral) (d : Nat) : Numeral :=
  { n with fraction := some (d :: n.fraction.getD []) }

def addPower (n : Numeral) (d : Nat) : Numeral :=
  let (down, ds) := n.power.getD (false, [])
  { n with power := some (down, d :: ds) }

/-- A point or the letter before a power, or the end. -/
def afterDigits (n : Numeral) (c : Char) (pointAllowed : Bool) : Step :=
  if pointAllowed ∧ c = '.' then .go .point n
  else if c = 'e' ∨ c = 'E' then .go .mark n
  else .done

def step (n : Numeral) (place : Place) (c : Char) : Step :=
  let digit (go : Nat → Step) (other : Step) : Step :=
    if c.isDigit then go (c.toNat - '0'.toNat) else other
  match place with
  | .sign => digit (fun d => .go (if d = 0 then .zero else .whole) (n.addWhole d)) .malformed
  | .zero => digit (fun _ => .malformed) (n.afterDigits c true)
  | .whole => digit (fun d => .go .whole (n.addWhole d)) (n.afterDigits c true)
  | .point => digit (fun d => .go .fraction (n.addFraction d)) .malformed
  | .fraction => digit (fun d => .go .fraction (n.addFraction d)) (n.afterDigits c false)
  | .mark =>
    if c = '+' ∨ c = '-' then .go .markSign { n with power := some (c == '-', []) }
    else digit (fun d => .go .power (n.addPower d)) .malformed
  | .markSign => digit (fun d => .go .power (n.addPower d)) .malformed
  | .power => digit (fun d => .go .power (n.addPower d)) .done

/-- The significand and the power of ten of the digits before a point. Digits are taken while the
significand fits 64 bits. -/
def takeInteger (digits : List Nat) : Nat × Int :=
  digits.foldl (fun (significand, exponent) d =>
    if exponent = 0 ∧ significand * 10 + d < UInt64.size then (significand * 10 + d, 0)
    else (significand, exponent + 1)) (0, 0)

/-- Takes the digits after a point, up to the first with which the significand would not fit
64 bits. -/
def takeFraction : (digits : List Nat) → Nat × Int → Nat × Int
  | [], taken => taken
  | d :: rest, (significand, exponent) =>
    if significand * 10 + d < UInt64.size then
      takeFraction rest (significand * 10 + d, exponent - 1)
    else (significand, exponent)

/-- The power of ten that is written; none counts as zero. -/
def exponent (n : Numeral) : Int :=
  match n.power with
  | none => 0
  | some (down, ds) =>
    let magnitude : Nat := ds.reverse.foldl (fun k d => k * 10 + d) 0
    if down then -(magnitude : Int) else magnitude

/-- The number, none if it is too great for a double. Without a fraction and a power it is an
integer if it lies from `-2 ^ 63` to below `2 ^ 64` and is not a negative zero. -/
def value? (n : Numeral) : Option Json :=
  let (whole, left) := takeInteger n.whole.reverse
  let isInteger := n.fraction.isNone && n.power.isNone && left == 0
  if isInteger ∧ ¬ n.negative then some (.int whole)
  else if isInteger ∧ 0 < whole ∧ whole ≤ Nat.pow 2 63 then some (.int (-(whole : Int)))
  else
    let (significand, exponent) := takeFraction (n.fraction.getD []).reverse (whole, left)
    (Double.ofDecimal? n.negative significand (exponent + n.exponent)).map .double

end Numeral

end Highlighting
