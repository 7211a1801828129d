import Highlighting.Number.Double

/-! The fewest decimal digits that read back as a given double, and their layout. -/

namespace Highlighting.Number

/-- Digits and the power of ten of their last place. -/
structure Decimal where
  digits : Nat
  exponent : Int
  deriving DecidableEq, Repr

namespace Decimal

/-- A positive ratio and the ends of the interval of ratios that round to it, over one
denominator. -/
structure Target where
  value : Nat
  low : Nat
  high : Nat
  den : Nat
  closed : Bool

/-- The interval of the positive double `m * 2 ^ q`. The gap below a power of two is half as
wide. -/
def Target.ofParts (m : Nat) (q : Int) : Target :=
  let low := if m = Nat.pow 2 52 ∧ -1074 < q then 4 * m - 1 else 4 * m - 2
  let shift := q - 2
  let factor := if 0 ≤ shift then Nat.pow 2 shift.toNat else 1
  { value := 4 * m * factor
    low := low * factor
    high := (4 * m + 2) * factor
    den := if 0 ≤ shift then 1 else Nat.pow 2 (-shift).toNat
    closed := m % 2 == 0 }

def Target.holds (t : Target) (num den : Nat) : Bool :=
  let n := num * t.den
  if t.closed then t.low * den ≤ n && n ≤ t.high * den else t.low * den < n && n < t.high * den

/-- The better of the two neighbours of the value on the grid of multiples of `10 ^ exponent`. -/
def onGrid? (t : Target) (exponent : Int) : Option Decimal :=
  let up := if 0 ≤ exponent then Nat.pow 10 exponent.toNat else 1
  let down := if 0 ≤ exponent then 1 else Nat.pow 10 (-exponent).toNat
  let below := t.value * down / (t.den * up)
  let twice := 2 * (t.value * down % (t.den * up))
  let nearest :=
    if t.den * up < twice ∨ (twice = t.den * up ∧ below % 2 = 1) then below + 1 else below
  let other := if nearest = below then below + 1 else below
  if t.holds (nearest * up) down then some ⟨nearest, exponent⟩
  else if t.holds (other * up) down then some ⟨other, exponent⟩
  else none

/-- The power of ten of the leading digit of `num / den`. -/
def leadingPower (num den : Nat) : Int :=
  let guess : Int := ((Nat.log2 num : Int) - Nat.log2 den) * 30103 / 100000 - 1
  let reaches (p : Int) : Bool :=
    if 0 ≤ p then den * Nat.pow 10 p.toNat ≤ num else den ≤ num * Nat.pow 10 (-p).toNat
  if reaches (guess + 2) then guess + 2 else if reaches (guess + 1) then guess + 1 else guess

/-- The first grid, from coarse to fine, that has a point in the interval. -/
def search (t : Target) (lead : Int) : (left : Nat) → (count : Nat) → Option Decimal
  | 0, _ => none
  | left + 1, count =>
    match onGrid? t (lead - count) with
    | some d => some d
    | none => search t lead left (count + 1)

/-- Drops zeros from the end of the digits. -/
def trim (digits : Nat) (exponent : Int) : Decimal :=
  if digits ≠ 0 ∧ digits % 10 = 0 then trim (digits / 10) (exponent + 1) else ⟨digits, exponent⟩
termination_by digits
decreasing_by omega

/-- The shortest decimal that rounds to the magnitude of a finite double. -/
def shortest (d : Double) : Decimal :=
  let (m, q) := d.parts
  if m = 0 then ⟨0, 0⟩
  else
    let t := Target.ofParts m q
    match search t (leadingPower t.value t.den) 18 0 with
    | some d => trim d.digits d.exponent
    | none => ⟨m, q⟩

/-- Digits with a point: positional for numbers from `10 ^ -5` to below `10 ^ 16`, else with one
digit before the point and an exponent; a number without a fraction ends in `.0`. -/
def layout (d : Decimal) : String :=
  let digits := Nat.repr d.digits
  let length := digits.length
  let point : Int := length + d.exponent
  if 0 ≤ d.exponent ∧ point ≤ 16 then
    digits ++ String.ofList (List.replicate d.exponent.toNat '0') ++ ".0"
  else if 0 < point ∧ point ≤ 16 then
    let cs := digits.toList
    String.ofList (cs.take point.toNat) ++ "." ++ String.ofList (cs.drop point.toNat)
  else if -5 < point ∧ point ≤ 0 then
    "0." ++ String.ofList (List.replicate (-point).toNat '0') ++ digits
  else
    let power := point - 1
    let exponent := if power < 0 then toString power else "+" ++ toString power
    let cs := digits.toList
    let tail := if length = 1 then "" else "." ++ String.ofList (cs.drop 1)
    String.ofList (cs.take 1) ++ tail ++ "e" ++ exponent

end Decimal

/-- The shortest text that reads back as the number. -/
def Double.text (d : Double) : String :=
  (if d.isNegative then "-" else "") ++ (Decimal.shortest d).layout

end Highlighting.Number
