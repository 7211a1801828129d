/-! Finding a literal in a text. Occurrences are taken from the left and do not overlap. -/

namespace Highlighting.Text

/-- What follows `needle` at the start of a text that begins with it. -/
def after? : (needle text : List Char) → Option (List Char)
  | [], text => some text
  | _ :: _, [] => none
  | n :: needle, c :: text => if n = c then after? needle text else none

theorem after?_eq_some_iff {needle text rest : List Char} :
    after? needle text = some rest ↔ text = needle ++ rest := by
  induction needle generalizing text with
  | nil => simp [after?]
  | cons n needle ih =>
    cases text with
    | nil => simp [after?]
    | cons c text =>
      by_cases h : n = c
      · simp [after?, h, ih]
      · simp [after?, h, Ne.symm h]

/-- The text before and the text after the first occurrence of `needle`. -/
def splitFirst? (needle : List Char) : List Char → Option (List Char × List Char)
  | [] => (after? needle []).map ([], ·)
  | c :: cs =>
    match after? needle (c :: cs) with
    | some rest => some ([], rest)
    | none => (splitFirst? needle cs).map fun (before, rest) => (c :: before, rest)

theorem append_of_splitFirst? {needle text before rest : List Char}
    (h : splitFirst? needle text = some (before, rest)) : text = before ++ needle ++ rest := by
  induction text generalizing before with
  | nil =>
    simp only [splitFirst?, Option.map_eq_some_iff] at h
    obtain ⟨r, hr, he⟩ := h
    cases he
    simpa using after?_eq_some_iff.1 hr
  | cons c cs ih =>
    simp only [splitFirst?] at h
    split at h
    · next r hr =>
      cases h
      simpa using after?_eq_some_iff.1 hr
    · obtain ⟨⟨b, r⟩, hb, he⟩ := Option.map_eq_some_iff.1 h
      cases he
      simp [ih hb]

/-- Deletes every occurrence of `needle`. -/
def erase (needle text : List Char) : List Char :=
  match splitFirst? needle text with
  | none => text
  | some (before, rest) =>
    if rest.length < text.length then before ++ erase needle rest else text
termination_by text.length

def contains (needle text : List Char) : Bool := (splitFirst? needle text).isSome

end Highlighting.Text
