import Highlighting.Proofs.Marking.Rounds

/-! Two ways to mark literals in a text: one after the other, each in what is not marked yet, or all
at once from the left. They differ only where occurrences collide. Where no two of them overlap,
every occurrence is marked by both. -/

namespace Highlighting

namespace Text

/-- The bytes from which on a stretch stands in a text. -/
def places (part text : List Char) : List Nat :=
  ((List.range (text.length + 1)).filter fun n => part.isPrefixOf (text.drop n)).map fun n =>
    byteLength (text.take n)

theorem mem_places {part text : List Char} {start : Nat} :
    start ∈ places part text ↔ StandsAt text start part := by
  unfold places
  simp only [List.mem_map, List.mem_filter, List.mem_range, List.isPrefixOf_iff_prefix]
  constructor
  · rintro ⟨n, ⟨-, hprefix⟩, rfl⟩
    exact standsAt_of_prefix (List.take_append_drop n text) hprefix
  · rintro ⟨before, after, rfl, rfl⟩
    refine ⟨before.length, ⟨?_, ?_⟩, ?_⟩
    · rw [List.length_append, List.length_append]
      omega
    · rw [List.append_assoc, List.drop_left]
      exact List.prefix_append part after
    · rw [List.append_assoc, List.take_left]

end Text

/-- No two different occurrences of literals in a text overlap. -/
def OccurApart (literals : List (List Char)) (text : List Char) : Prop :=
  ∀ a ∈ literals, ∀ b ∈ literals, ∀ i j, Text.StandsAt text i a → Text.StandsAt text j b →
    Overlap a b i j → i = j ∧ a = b

theorem occurApart_iff {literals : List (List Char)} {text : List Char} :
    OccurApart literals text ↔ ∀ a ∈ literals, ∀ b ∈ literals, ∀ i ∈ Text.places a text,
      ∀ j ∈ Text.places b text, Overlap a b i j → i = j ∧ a = b := by
  unfold OccurApart
  simp only [Text.mem_places]
  constructor
  · exact fun h a ha b hb i hi j hj => h a ha b hb i j hi hj
  · exact fun h a ha b hb i j hi hj => h a ha b hb i hi j hj

instance (literals : List (List Char)) (text : List Char) : Decidable (OccurApart literals text) :=
  decidable_of_iff _ occurApart_iff.symm

namespace Piece

variable {literals : List (List Char)} {text : List Char} {pieces : List Piece}

/-- No other literal stands where a mark does. -/
theorem Settled.isLongest (h : Settled literals text pieces) (hne : [] ∉ literals)
    (hapart : OccurApart literals text) {before after : List Piece} {literal : List Char}
    (heq : pieces = before ++ hit literal :: after) :
    IsLongest literals (literal ++ joined after) literal := by
  have hmem : literal ∈ literals := h.mem literal (by simp [heq])
  have htext : joined before ++ (literal ++ joined after) = text := by
    rw [← h.joined_eq, heq, joined_append]
    rfl
  have hpositive {other : List Char} (hother : other ∈ literals) : 0 < Text.byteLength other :=
    Text.byteLength_pos fun hnil => hne (hnil ▸ hother)
  refine ⟨hmem, fun hnil => hne (hnil ▸ hmem), List.prefix_append literal _, ?_⟩
  intro other hother hstands
  have hhere := Text.standsAt_of_prefix htext (List.prefix_append literal _)
  have hother' := Text.standsAt_of_prefix htext hstands
  obtain ⟨-, rfl⟩ := hapart literal hmem other hother _ _ hhere hother'
    ⟨Nat.lt_add_of_pos_right (hpositive hother), Nat.lt_add_of_pos_right (hpositive hmem)⟩
  exact Nat.le_refl _

/-- No literal stands within plain text, nor does one begin there and run on. -/
theorem Settled.noneAt (h : Settled literals text pieces) (hapart : OccurApart literals text)
    {before after : List Piece} {passed ahead : List Char}
    (heq : pieces = before ++ plain (passed ++ ahead) :: after) (hahead : ahead ≠ []) :
    NoneAt literals (ahead ++ joined after) := by
  intro literal hmem hstands
  by_contra hne
  have hinside (hstarts : literal <+: ahead) : False := by
    have hstretch : literal <:+: passed ++ ahead :=
      hstarts.isInfix.trans (List.suffix_append passed ahead).isInfix
    exact h.not_infix (passed ++ ahead) (by simp [heq]) literal hmem hstretch
  rcases List.prefix_or_prefix_of_prefix hstands (List.prefix_append ahead (joined after)) with
    hstarts | ⟨tail, rfl⟩
  · exact hinside hstarts
  -- The literal runs on beyond the plain text, so it overlaps the mark behind.
  have htail : tail ≠ [] := by
    rintro rfl
    exact hinside (by simp)
  cases after with
  | nil => exact htail (List.prefix_nil.mp ((List.prefix_append_right_inj ahead).mp hstands))
  | cons next more =>
    have hchain := h.isChain
    rw [heq] at hchain
    have hmeet := (List.isChain_append_cons_cons.mp hchain).2.1
    cases next with
    | plain other => exact hmeet
    | hit found =>
      have hhere : joined before ++ passed ++ (ahead ++ joined (hit found :: more)) = text := by
        rw [← h.joined_eq, heq, joined_append]
        simp [joined, Piece.text]
      have hnext : joined before ++ passed ++ ahead ++ joined (hit found :: more) = text := by
        rw [← hhere, List.append_assoc _ ahead]
      have hbegins := Text.standsAt_of_prefix hhere hstands
      have hmark : Text.StandsAt text _ found :=
        Text.standsAt_of_prefix hnext (List.prefix_append found _)
      have hlength := Text.byteLength_append (joined before ++ passed) ahead
      have hpos := Text.byteLength_pos hahead
      have hpos' := Text.byteLength_pos htail
      obtain ⟨hsame, -⟩ := hapart (ahead ++ tail) hmem found (h.mem found (by simp [heq])) _ _
        hbegins hmark ⟨by omega, by rw [Text.byteLength_append ahead tail]; omega⟩
      omega

theorem Settled.leftmost (h : Settled literals text pieces) (hne : [] ∉ literals)
    (htext : text ≠ []) (hapart : OccurApart literals text) : Leftmost literals pieces where
  longest before literal after heq := h.isLongest hne hapart heq
  clear before passed ahead after heq hahead := h.noneAt hapart heq hahead
  ne_nil stretch hmem := by
    rintro rfl
    exact h.ne_nil htext hmem
  apart before a b after heq := by
    have hchain := h.isChain
    rw [heq] at hchain
    exact (List.isChain_append_cons_cons.mp hchain).2.1

end Piece

/-- Where no two different occurrences overlap, it is all the same whether literals are marked one
after the other, in any order, or all at once from the left. -/
theorem renderPlain_eq_mark {text : String} (htext : text ≠ "") {literals : List String}
    (hne : "" ∉ literals) (hapart : OccurApart (literals.map String.toList) text.toList) :
    renderPlain text (literals.map Replacement.markAll) = Forest.mark [.text text] literals := by
  have hne' : [] ∉ literals.map String.toList := by simpa using hne
  have htext' : text.toList ≠ [] := by simpa using htext
  have hsettled := Piece.settled_rounds hne' text.toList
  have hscan := (hsettled.leftmost hne' htext' hapart).eq_scan hsettled.joined_eq
  rw [renderPlain_markAll hne, hscan, Forest.mark_eq]
  simp [Forest.markWith, Node.markWith, markText_eq, htext]

/-- Occurrences of different literals touch, and a literal that does not occur is no obstacle. -/
theorem renderPlain_eq_mark_touching :
    "ébéabé" ≠ "" ∧ "" ∉ ["ab", "éb", "éé"] ∧
      OccurApart (["ab", "éb", "éé"].map String.toList) "ébéabé".toList ∧
        renderPlain "ébéabé" (["ab", "éb", "éé"].map Replacement.markAll) =
          [.mark "éb", .text "é", .mark "ab", .text "é"] := by
  have htext : "ébéabé" ≠ "" := by decide
  have hne : "" ∉ ["ab", "éb", "éé"] := by decide
  have hapart : OccurApart (["ab", "éb", "éé"].map String.toList) "ébéabé".toList := by decide
  exact ⟨htext, hne, hapart, (renderPlain_eq_mark htext hne hapart).trans (by cbv)⟩

end Highlighting
