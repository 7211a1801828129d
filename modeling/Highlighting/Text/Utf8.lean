/-! Byte positions in a text. Positions count UTF-8 bytes, so a position may fall
inside a character; only a position between characters is a boundary. -/

namespace Highlighting.Text

def byteLength : List Char → Nat
  | [] => 0
  | c :: cs => c.utf8Size + byteLength cs

@[simp] theorem byteLength_append (a b : List Char) :
    byteLength (a ++ b) = byteLength a + byteLength b := by
  induction a with
  | nil => simp [byteLength]
  | cons c a ih => simp [byteLength, ih, Nat.add_assoc]

/-- Cuts a text after the characters that lie wholly before byte `n`. -/
def splitAtByte (n : Nat) : List Char → List Char × List Char
  | [] => ([], [])
  | c :: cs =>
    if c.utf8Size ≤ n then
      let (before, after) := splitAtByte (n - c.utf8Size) cs
      (c :: before, after)
    else ([], c :: cs)

theorem splitAtByte_append (n : Nat) (cs : List Char) :
    (splitAtByte n cs).1 ++ (splitAtByte n cs).2 = cs := by
  induction cs generalizing n with
  | nil => rfl
  | cons c cs ih =>
    simp only [splitAtByte]
    split <;> simp [ih]

theorem splitAtByte_byteLength (a b : List Char) :
    splitAtByte (byteLength a) (a ++ b) = (a, b) := by
  induction a with
  | nil =>
    cases b with
    | nil => rfl
    | cons c cs =>
      have hc := c.utf8Size_pos
      simp [splitAtByte, byteLength, show ¬ c.utf8Size ≤ 0 by omega]
  | cons c cs ih =>
    have fits : c.utf8Size ≤ byteLength (c :: cs) := Nat.le_add_right _ _
    have rest : byteLength (c :: cs) - c.utf8Size = byteLength cs := Nat.add_sub_cancel_left _ _
    simp only [List.cons_append, splitAtByte, if_pos fits, rest, ih]

/-- Byte `n` is the start of a character or the end of the text. -/
def isBoundary (cs : List Char) (n : Nat) : Bool :=
  byteLength (splitAtByte n cs).1 == n

end Highlighting.Text
