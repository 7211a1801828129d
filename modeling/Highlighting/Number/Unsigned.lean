/-! Unsigned numbers of 64 bits, as they are read from text. -/

namespace Highlighting.Number

/-- The value of a digit below `base`, which is at most 16. -/
def digit? (base : Nat) (c : Char) : Option Nat :=
  let value :=
    if '0' ≤ c ∧ c ≤ '9' then some (c.toNat - '0'.toNat)
    else if 'a' ≤ c ∧ c ≤ 'f' then some (c.toNat - 'a'.toNat + 10)
    else if 'A' ≤ c ∧ c ≤ 'F' then some (c.toNat - 'A'.toNat + 10)
    else none
  value.filter (· < base)

/-- The number that a list of digits denotes after the digits that denote `high`. -/
def ofDigitsAfter? (base high : Nat) : List Char → Option Nat
  | [] => some high
  | c :: cs => (digit? base c).bind fun d => ofDigitsAfter? base (high * base + d) cs

/-- The number that a list of at least one digit denotes. -/
def ofDigits? (base : Nat) : List Char → Option Nat
  | [] => none
  | cs => ofDigitsAfter? base 0 cs

def fit? (n : Nat) : Option UInt64 :=
  if n < UInt64.size then some (UInt64.ofNat n) else none

/-- Reads a decimal number: at least one digit, leading zeros and one leading plus sign allowed,
below `2 ^ 64`. -/
def readUnsigned? : List Char → Option UInt64
  | '+' :: cs => (ofDigits? 10 cs).bind fit?
  | cs => (ofDigits? 10 cs).bind fit?

end Highlighting.Number
