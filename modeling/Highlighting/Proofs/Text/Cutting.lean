import Highlighting.Text.Blank
import Highlighting.Text.Lines
import Highlighting.Text.Search

/-! Where a text is cut: at each separator, at the end of each line, at white space, at the first
occurrence of a literal. Cutting at separators is `List.splitOn` and joining lines is
`List.intercalate`, so each undoes the other on lines that hold no line feed. -/

namespace Highlighting.Text

/-! ### At separators -/

theorem splitOn_eq (separator : Char) (text : List Char) :
    splitOn separator text = text.splitOn separator := by
  induction text with
  | nil => rfl
  | cons c cs ih =>
    rw [splitOn, List.splitOn_cons_eq_if_modifyHead, ih]
    simp only [beq_iff_eq]
    split
    · rfl
    · split
      · next h => exact absurd h (List.splitOn_ne_nil separator cs)
      · next h => rw [h, List.modifyHead_cons]

theorem split_ne_nil (text : List Char) : split text ≠ [] := by
  rw [split, splitOn_eq]
  exact List.splitOn_ne_nil _ _

theorem split_eq_singleton {line : List Char} (h : '\n' ∉ line) : split line = [line] := by
  rw [split, splitOn_eq]
  exact List.splitOn_eq_singleton h

/-- A text begins with its first line. -/
theorem split_append_cons {line : List Char} (h : '\n' ∉ line) (rest : List Char) :
    split (line ++ '\n' :: rest) = line :: split rest := by
  rw [split, split, splitOn_eq, splitOn_eq]
  exact List.splitOn_append_cons_self_of_not_mem h rest

/-- There is one line more than there are line feeds. -/
theorem length_split (text : List Char) : (split text).length = text.count '\n' + 1 := by
  unfold split
  induction text with
  | nil => rfl
  | cons c cs ih =>
    unfold splitOn
    split
    · next hc => simp [hc, ih]
    · next hc =>
      rw [List.count_cons_of_ne hc, ← ih]
      split
      · next hnil => exact absurd hnil (split_ne_nil cs)
      · next hcons => simp [hcons]

theorem notMem_of_mem_splitOn {separator : Char} {text part : List Char}
    (h : part ∈ splitOn separator text) : separator ∉ part := by
  induction text generalizing part with
  | nil =>
    obtain rfl : part = [] := by simpa [splitOn] using h
    exact List.not_mem_nil
  | cons c cs ih =>
    unfold splitOn at h
    split at h
    · rcases List.mem_cons.mp h with rfl | hrest
      · exact List.not_mem_nil
      · exact ih hrest
    · next hc =>
      split at h
      · next hnil =>
        rw [splitOn_eq] at hnil
        exact absurd hnil (List.splitOn_ne_nil separator cs)
      · next first rest hcons =>
        rcases List.mem_cons.mp h with rfl | hrest
        · have hfirst : separator ∉ first := ih (hcons ▸ List.mem_cons_self)
          simp [Ne.symm hc, hfirst]
        · exact ih (hcons ▸ List.mem_cons_of_mem first hrest)

theorem dropReturn_prefix (line : List Char) : dropReturn line <+: line := by
  unfold dropReturn
  split
  · exact List.dropLast_prefix line
  · exact List.prefix_rfl

theorem dropReturn_eq_self {line : List Char} (h : line.getLast? ≠ some '\r') :
    dropReturn line = line := if_neg h

theorem head?_dropReturn {line : List Char} {c : Char} (h : line.head? = some c) (hc : c ≠ '\r') :
    (dropReturn line).head? = some c := by
  obtain ⟨rest, rfl⟩ := List.head?_eq_some_iff.mp h
  cases rest with
  | nil => rw [dropReturn_eq_self (by simpa using hc)]; rfl
  | cons d rest =>
    unfold dropReturn
    split <;> rfl

theorem split_terminated {ls : List (List Char)} (h : ∀ line ∈ ls, '\n' ∉ line) :
    split (ls.flatMap (· ++ ['\n'])) = ls ++ [[]] := by
  induction ls with
  | nil => rfl
  | cons line rest ih =>
    obtain ⟨hline, hrest⟩ := List.forall_mem_cons.mp h
    rw [List.flatMap_cons, List.append_assoc, List.singleton_append, split_append_cons hline,
      ih hrest, List.cons_append]

theorem finish_append_nil (ls : List (List Char)) :
    lines.finish (ls ++ [[]]) = ls.map dropReturn := by
  induction ls with
  | nil => rfl
  | cons line rest ih =>
    have hne : rest ++ [[]] ≠ [] := by simp
    rw [List.cons_append, lines.finish, ih, List.map_cons]
    exact hne

/-- Lines that each end with a line feed are read as they are, but for a carriage return at the end
of a line. -/
theorem lines_terminated {ls : List (List Char)} (h : ∀ line ∈ ls, '\n' ∉ line) :
    lines (ls.flatMap (· ++ ['\n'])) = ls.map dropReturn := by
  rw [lines, split_terminated h, finish_append_nil]

/-! ### At white space -/

theorem words_blank {c : Char} (hc : isBlank c) (rest : List Char) :
    words (c :: rest) = words rest := by
  rw [words.eq_def]
  exact if_pos hc

theorem words_singleton {c : Char} (hc : ¬ isBlank c) {rest : List Char}
    (hrest : ∀ d, rest.head? = some d → isBlank d) : words (c :: rest) = [c] :: words rest := by
  rw [words.eq_def]
  dsimp only
  rw [if_neg hc]
  split
  · next hwords => rw [if_pos (hrest _ rfl), hwords]
  · rfl

theorem words_cons {c d : Char} (hc : ¬ isBlank c) (hd : ¬ isBlank d) {cs word : List Char}
    {more : List (List Char)} (h : words (d :: cs) = word :: more) :
    words (c :: d :: cs) = (c :: word) :: more := by
  rw [words.eq_def]
  dsimp only
  rw [if_neg hc, h]
  exact if_neg hd

/-- A word ends before the first blank character. -/
theorem words_append {word rest : List Char} (hne : word ≠ []) (hword : ∀ c ∈ word, ¬ isBlank c)
    (hrest : ∀ c, rest.head? = some c → isBlank c) : words (word ++ rest) = word :: words rest := by
  induction word with
  | nil => exact absurd rfl hne
  | cons c word ih =>
    obtain ⟨hc, hword⟩ := List.forall_mem_cons.mp hword
    cases word with
    | nil => exact words_singleton hc hrest
    | cons d word =>
      have hd : ¬ isBlank d := hword d List.mem_cons_self
      exact words_cons hc hd (ih (List.cons_ne_nil d word) hword)

/-- Blank characters in front belong to no word. -/
theorem words_append_of_blank {lead : List Char} (h : ∀ c ∈ lead, isBlank c) (rest : List Char) :
    words (lead ++ rest) = words rest := by
  induction lead with
  | nil => rfl
  | cons c lead ih =>
    obtain ⟨hc, hlead⟩ := List.forall_mem_cons.mp h
    rw [List.cons_append, words_blank hc, ih hlead]

/-- The longest front of a text whose characters have a property ends before one without it. -/
theorem exists_front (p : Char → Bool) (text : List Char) :
    ∃ front rest, text = front ++ rest ∧ (∀ c ∈ front, p c) ∧
      ∀ c, rest.head? = some c → ¬ p c := by
  refine ⟨text.takeWhile p, text.dropWhile p, List.takeWhile_append_dropWhile.symm,
    List.all_eq_true.mp List.all_takeWhile, ?_⟩
  intro c hc
  have hhead := List.head?_dropWhile_not p text
  rw [hc] at hhead
  simpa using hhead

/-- The first word of a text stands behind blank characters only, and ends before a blank one. -/
theorem exists_of_words_eq_cons {text word : List Char} {more : List (List Char)}
    (h : words text = word :: more) :
    ∃ lead rest, text = lead ++ (word ++ rest) ∧ (∀ c ∈ lead, isBlank c) ∧
      (∀ c, rest.head? = some c → isBlank c) ∧ words rest = more := by
  obtain ⟨lead, behind, rfl, hlead, hbehind⟩ := exists_front isBlank text
  obtain ⟨first, rest, rfl, hfirst, hrest⟩ := exists_front (!isBlank ·) behind
  have hword : ∀ c ∈ first, ¬ isBlank c := by simpa using hfirst
  have hblank : ∀ c, rest.head? = some c → isBlank c := by simpa using hrest
  rw [words_append_of_blank hlead] at h
  have hne : first ≠ [] := by
    rintro rfl
    cases rest with
    | nil => cases h
    | cons c rest => exact hbehind c rfl (hblank c rfl)
  rw [words_append hne hword hblank] at h
  obtain ⟨rfl, rfl⟩ := List.cons.inj h
  exact ⟨lead, rest, rfl, hlead, hblank, rfl⟩

/-! ### At a literal -/

/-- A literal is first found at a place unless it already occurs in what ends within it there. -/
theorem splitFirst?_append {needle before : List Char} (hne : needle ≠ [])
    (h : ¬ needle <:+: before ++ needle.dropLast) (rest : List Char) :
    splitFirst? needle (before ++ (needle ++ rest)) = some (before, rest) := by
  induction before with
  | nil =>
    have hafter : after? needle (needle ++ rest) = some rest := after?_eq_some_iff.mpr rfl
    cases needle with
    | nil => exact absurd rfl hne
    | cons n needle =>
      rw [List.cons_append] at hafter
      simp [splitFirst?, hafter]
  | cons c before ih =>
    rw [List.cons_append, List.infix_cons_iff, not_or] at h
    have hafter : after? needle (c :: (before ++ (needle ++ rest))) = none := by
      rw [Option.eq_none_iff_forall_ne_some]
      intro behind hbehind
      have hneedle : needle <+: c :: (before ++ (needle ++ rest)) :=
        ⟨behind, (after?_eq_some_iff.mp hbehind).symm⟩
      have hshort : c :: (before ++ needle.dropLast) <+: c :: (before ++ (needle ++ rest)) := by
        rw [← List.cons_append, ← List.cons_append, List.prefix_append_right_inj]
        exact (List.dropLast_prefix needle).trans (List.prefix_append needle rest)
      refine h.1 (List.prefix_of_prefix_length_le hneedle hshort ?_)
      simp only [List.length_cons, List.length_append, List.length_dropLast]
      omega
    simp [splitFirst?, hafter, ih h.2]

theorem splitFirst?_eq_none {needle text : List Char} (h : ¬ needle <:+: text) :
    splitFirst? needle text = none := by
  rw [Option.eq_none_iff_forall_ne_some]
  rintro ⟨before, rest⟩ hsplit
  exact h ⟨before, rest, (append_of_splitFirst? hsplit).symm⟩

theorem splitFirst?_of_after? {needle text rest : List Char} (h : after? needle text = some rest) :
    splitFirst? needle text = some ([], rest) := by
  cases text <;> simp [splitFirst?, h]

/-- A literal that occurs in a text is found there, or before. -/
theorem exists_splitFirst? (needle passed rest : List Char) :
    ∃ before after, splitFirst? needle (passed ++ (needle ++ rest)) = some (before, after) ∧
      before <+: passed := by
  induction passed with
  | nil => exact ⟨[], rest, splitFirst?_of_after? (after?_eq_some_iff.mpr rfl), List.prefix_refl []⟩
  | cons c passed ih =>
    obtain ⟨before, after, hsplit, hprefix⟩ := ih
    cases hfound : after? needle (c :: passed ++ (needle ++ rest)) with
    | some behind => exact ⟨[], behind, splitFirst?_of_after? hfound, List.nil_prefix⟩
    | none =>
      refine ⟨c :: before, after, ?_, (List.prefix_cons_inj c).mpr hprefix⟩
      rw [List.cons_append] at hfound ⊢
      rw [splitFirst?, hfound, hsplit]
      rfl

theorem exists_of_infix {needle text : List Char} (h : needle <:+: text) :
    ∃ before rest, splitFirst? needle text = some (before, rest) := by
  obtain ⟨passed, rest, rfl⟩ := h
  obtain ⟨before, after, hsplit, -⟩ := exists_splitFirst? needle passed rest
  rw [List.append_assoc]
  exact ⟨before, after, hsplit⟩

end Highlighting.Text
