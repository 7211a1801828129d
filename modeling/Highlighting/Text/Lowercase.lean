import Highlighting.Text.CaseTable

/-! The lower case of a text by the full Unicode mapping. -/

namespace Highlighting.Text

def inRanges (ranges : List (Nat × Nat)) (c : Char) : Bool :=
  ranges.any fun (first, last) => first ≤ c.toNat && c.toNat ≤ last

/-- The lower case of a character on its own. Only the dotted capital I has two characters. -/
def lowerChar (c : Char) : List Char :=
  if c = '\u0130' then ['i', '\u0307']
  else
    let n := c.toNat
    match lowerRanges.find? fun r => r.first ≤ n && n ≤ r.last && (n - r.first) % r.step == 0 with
    | some r => [Char.ofNat (n + r.distance).toNat]
    | none => [c]

/-- The next character that is not ignorable for case is cased. -/
def nextIsCased (cs : List Char) : Bool :=
  match cs.dropWhile (inRanges caseIgnorableRanges) with
  | [] => false
  | c :: _ => inRanges casedRanges c

/-- The lower case of a text after the characters `before`, which stand in reverse. A capital sigma
has its final form at the end of a word. -/
def lowerAfter (before : List Char) : List Char → List Char
  | [] => []
  | c :: cs =>
    let lower :=
      if c = 'Σ' then [if nextIsCased before && ! nextIsCased cs then 'ς' else 'σ']
      else lowerChar c
    lower ++ lowerAfter (c :: before) cs

def lowercase (text : String) : String := String.ofList (lowerAfter [] text.toList)

end Highlighting.Text
