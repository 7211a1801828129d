/-! Double precision numbers as 64 bits, and the rounding of exact ratios to them. -/

namespace Highlighting.Number

/-- A double precision number, by its bits. -/
structure Double where
  bits : UInt64
  deriving DecidableEq, Repr, Inhabited

namespace Double

def isNegative (d : Double) : Bool := Nat.pow 2 63 ≤ d.bits.toNat

/-- A finite number's magnitude is `m * 2 ^ q`; this is `(m, q)`. -/
def parts (d : Double) : Nat × Int :=
  let exponent : Nat := d.bits.toNat / Nat.pow 2 52 % Nat.pow 2 11
  let fraction : Nat := d.bits.toNat % Nat.pow 2 52
  if exponent = 0 then (fraction, -1074) else (fraction + Nat.pow 2 52, (exponent : Int) - 1075)

/-- `m * 2 ^ q` as a numerator and a denominator. -/
def ratio (m : Nat) (q : Int) : Nat × Nat :=
  if 0 ≤ q then (m * Nat.pow 2 q.toNat, 1) else (m, Nat.pow 2 (-q).toNat)

/-- The integer nearest to `num / den`; a half goes to the even neighbour. -/
def roundEven (num den : Nat) : Nat :=
  let floor := num / den
  let twice := 2 * (num % den)
  if den < twice ∨ (twice = den ∧ floor % 2 = 1) then floor + 1 else floor

/-- The exponent of the last bit that a double keeps of `num / den`. -/
def lastBit (num den : Nat) : Int :=
  let guess : Int := (Nat.log2 num : Int) - Nat.log2 den - 52
  let (n, d) :=
    if 0 ≤ guess then (num, den * Nat.pow 2 guess.toNat)
    else (num * Nat.pow 2 (-guess).toNat, den)
  let fitted := if n / d < Nat.pow 2 52 then guess - 1 else guess
  max fitted (-1074)

/-- The magnitude nearest to `num / den`, none if it is beyond the largest double. -/
def ofRatio? (num den : Nat) : Option Double :=
  if num = 0 then some ⟨0⟩
  else
    let q := lastBit num den
    let (n, d) :=
      if 0 ≤ q then (num, den * Nat.pow 2 q.toNat) else (num * Nat.pow 2 (-q).toNat, den)
    let bits := (q + 1074).toNat * Nat.pow 2 52 + roundEven n d
    if bits < 0x7ff0000000000000 then some ⟨UInt64.ofNat bits⟩ else none

/-- A number with the sign bit set to `negative`. -/
def withSign (negative : Bool) (d : Double) : Double :=
  ⟨UInt64.ofNat (d.bits.toNat % Nat.pow 2 63 + if negative then Nat.pow 2 63 else 0)⟩

def ofNat? (n : Nat) : Option Double := ofRatio? n 1

def toRatio (d : Double) : Nat × Nat := ratio d.parts.1 d.parts.2

/-- The rounded product of two magnitudes. -/
def mul? (a b : Double) : Option Double :=
  ofRatio? (a.toRatio.1 * b.toRatio.1) (a.toRatio.2 * b.toRatio.2)

/-- The rounded quotient of two magnitudes. -/
def div? (a b : Double) : Option Double :=
  ofRatio? (a.toRatio.1 * b.toRatio.2) (a.toRatio.2 * b.toRatio.1)

/-- Scales a magnitude by a power of ten, with one rounding of the power and one of the result for
each factor of up to `10 ^ 308`. -/
def scale? (d : Double) (exponent : Int) : Option Double :=
  if exponent.natAbs ≤ 308 then do
    let power ← ofNat? (Nat.pow 10 exponent.natAbs)
    if 0 ≤ exponent then mul? d power else div? d power
  else if d.bits = 0 then some d
  else if 0 ≤ exponent then none
  else do
    let power ← ofNat? (Nat.pow 10 308)
    let smaller ← div? d power
    scale? smaller (exponent + 308)
termination_by exponent.natAbs

/-- The number that a sign, a significand and a power of ten denote. -/
def ofDecimal? (negative : Bool) (significand : Nat) (exponent : Int) : Option Double := do
  let magnitude ← ofNat? significand
  let scaled ← magnitude.scale? exponent
  pure (scaled.withSign negative)

end Double

end Highlighting.Number
