import Highlighting.Text.Search
import Highlighting.Text.Utf8

/-! Where literals occur in a text. The occurrence that begins first is taken, and of those that
begin there the longest one; the search goes on behind it. -/

namespace Highlighting

/-- A literal that is looked for. An empty one occurs everywhere and is never looked for. -/
abbrev Needle := { literal : List Char // literal ≠ [] }

def Needle.ofLiterals (literals : List String) : List Needle :=
  literals.filterMap fun literal =>
    if h : literal.toList ≠ [] then some ⟨literal.toList, h⟩ else none

/-- Where a needle occurs in a text: the byte where it begins, and its length in bytes. -/
structure Occurrence where
  start : Nat
  length : Nat
  deriving DecidableEq, Repr

namespace Occurrence

def first? (text : List Char) (needle : Needle) : Option Occurrence :=
  (Text.splitFirst? needle.1 text).map fun (before, _) =>
    ⟨Text.byteLength before, Text.byteLength needle.1⟩

/-- The one of two occurrences that begins first, or the longer one if both begin there. -/
def earlier (a b : Occurrence) : Occurrence :=
  if b.start < a.start ∨ b.start = a.start ∧ a.length < b.length then b else a

def earliest? (needles : List Needle) (text : List Char) : Option Occurrence :=
  match needles.filterMap (first? text) with
  | [] => none
  | o :: rest => some (rest.foldl earlier o)

variable {needles : List Needle} {text : List Char} {o : Occurrence}

theorem foldl_earlier_mem (o : Occurrence) (rest : List Occurrence) :
    rest.foldl earlier o ∈ o :: rest := by
  induction rest generalizing o with
  | nil => exact List.mem_cons_self
  | cons next rest ih =>
    have hnext : o.earlier next = o ∨ o.earlier next = next := by
      unfold earlier
      split
      · exact .inr rfl
      · exact .inl rfl
    rcases List.mem_cons.mp (ih (o.earlier next)) with hsame | hlater
    · rw [List.foldl_cons, hsame]
      rcases hnext with hnext | hnext <;> simp [hnext]
    · exact List.mem_cons_of_mem o (List.mem_cons_of_mem next hlater)

/-- What is found is a first occurrence of a needle. -/
theorem exists_of_earliest? (h : earliest? needles text = some o) :
    ∃ needle ∈ needles, first? text needle = some o := by
  unfold earliest? at h
  split at h
  · cases h
  · next first rest hfound =>
    have hmem : o ∈ needles.filterMap (first? text) := by
      rw [hfound, ← Option.some.inj h]
      exact foldl_earlier_mem first rest
    exact List.mem_filterMap.mp hmem

theorem exists_of_first? {needle : Needle} (h : first? text needle = some o) :
    ∃ before after, text = before ++ (needle.1 ++ after) ∧
      o = ⟨Text.byteLength before, Text.byteLength needle.1⟩ := by
  obtain ⟨⟨before, after⟩, hsplit, rfl⟩ := Option.map_eq_some_iff.mp h
  have htext := Text.append_of_splitFirst? hsplit
  rw [List.append_assoc] at htext
  exact ⟨before, after, htext, rfl⟩

/-- The text that is left behind what is found is shorter. -/
theorem length_behind_lt (h : earliest? needles text = some o) :
    (Text.splitAtByte o.length (Text.splitAtByte o.start text).2).2.length < text.length := by
  obtain ⟨needle, -, hfirst⟩ := exists_of_earliest? h
  obtain ⟨before, after, rfl, rfl⟩ := exists_of_first? hfirst
  have hpositive : 0 < needle.1.length := List.length_pos_iff.mpr needle.2
  dsimp only
  rw [Text.splitAtByte_byteLength, Text.splitAtByte_byteLength, List.length_append,
    List.length_append]
  dsimp only
  omega

end Occurrence

/-- A stretch of a text that is an occurrence of a literal, or lies between occurrences. -/
inductive Piece where
  | plain (text : List Char)
  | hit (text : List Char)
  deriving DecidableEq, Repr

namespace Piece

def text : Piece → List Char
  | plain text => text
  | hit text => text

/-- A plain piece, unless it is empty. -/
def ofText (text : List Char) : List Piece := if text.isEmpty then [] else [plain text]

/-- The pieces of a text in order, with the needles found one after the other. -/
def cut (needles : List Needle) (text : List Char) : List Piece :=
  match _h : Occurrence.earliest? needles text with
  | some o =>
    let found := Text.splitAtByte o.start text
    let behind := Text.splitAtByte o.length found.2
    ofText found.1 ++ hit behind.1 :: cut needles behind.2
  | none => ofText text
termination_by text.length
decreasing_by exact Occurrence.length_behind_lt _h

end Piece

end Highlighting
