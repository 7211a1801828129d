import Highlighting.Text.Lines

/-! Cutting a text after its line feeds. `splitKeeping` has one stretch more than there are line
feeds, and `cutAfter` is without the last of them where that is empty. -/

namespace Highlighting.Text

/-- The stretches of a text that is cut after each line feed. None of them is empty. -/
def cutAfter : List Char → List (List Char)
  | [] => []
  | c :: cs =>
    if c = '\n' then [c] :: cutAfter cs
    else match cutAfter cs with
      | [] => [[c]]
      | s :: rest => (c :: s) :: rest

/-- Nothing stands behind the last line feed of a text. -/
def Terminated (text : List Char) : Prop := text = [] ∨ text.getLast? = some '\n'

/-- A text is a line that no line feed ends, or one that a line feed ends and a text behind it. -/
@[elab_as_elim]
theorem line_induction {P : List Char → Prop} (last : ∀ line, '\n' ∉ line → P line)
    (more : ∀ line rest, '\n' ∉ line → P rest → P (line ++ '\n' :: rest)) (text : List Char) :
    P text := by
  have hbehind (before : List Char) (hbefore : '\n' ∉ before) : P (before ++ text) := by
    induction text generalizing before with
    | nil =>
      rw [List.append_nil]
      exact last before hbefore
    | cons c cs ih =>
      by_cases hc : c = '\n'
      · subst hc
        exact more before cs hbefore (ih [] List.not_mem_nil)
      · have hnext : '\n' ∉ before ++ [c] := by simp [hbefore, Ne.symm hc]
        have hrest := ih (before ++ [c]) hnext
        rwa [List.append_assoc] at hrest
  exact hbehind [] List.not_mem_nil

variable {line : List Char}

/-! ### With the last stretch -/

theorem splitKeeping_ne_nil (text : List Char) : splitKeeping text ≠ [] := by
  unfold splitKeeping
  split
  · exact List.cons_ne_nil _ _
  · split
    · exact List.cons_ne_nil _ _
    · split <;> exact List.cons_ne_nil _ _

/-- What holds no line feed goes before the first stretch of what follows. -/
theorem splitKeeping_append (h : '\n' ∉ line) (rest : List Char) :
    splitKeeping (line ++ rest) = (splitKeeping rest).modifyHead (line ++ ·) := by
  induction line with
  | nil => exact (congrFun List.modifyHead_id (splitKeeping rest)).symm
  | cons c line ih =>
    obtain ⟨hc, hline⟩ := not_or.mp (mt List.mem_cons.mpr h)
    rw [List.cons_append, splitKeeping, if_neg (Ne.symm hc), ih hline]
    cases hrest : splitKeeping rest with
    | nil => exact absurd hrest (splitKeeping_ne_nil rest)
    | cons stretch more => rfl

theorem splitKeeping_eq_singleton (h : '\n' ∉ line) : splitKeeping line = [line] := by
  have hcut := splitKeeping_append h []
  rw [List.append_nil] at hcut
  rw [hcut, splitKeeping, List.modifyHead_cons, List.append_nil]

theorem splitKeeping_append_cons (h : '\n' ∉ line) (rest : List Char) :
    splitKeeping (line ++ '\n' :: rest) = (line ++ ['\n']) :: splitKeeping rest := by
  rw [splitKeeping_append h, splitKeeping, if_pos rfl, List.modifyHead_cons]

/-! ### Without it -/

theorem ne_nil_of_mem_cutAfter {text stretch : List Char} (h : stretch ∈ cutAfter text) :
    stretch ≠ [] := by
  induction text generalizing stretch with
  | nil => exact absurd h List.not_mem_nil
  | cons c cs ih =>
    unfold cutAfter at h
    split at h
    · rcases List.mem_cons.mp h with rfl | hrest
      · exact List.cons_ne_nil c []
      · exact ih hrest
    · split at h
      · rw [List.mem_singleton.mp h]
        exact List.cons_ne_nil c []
      · next first rest hcut =>
        rcases List.mem_cons.mp h with rfl | hrest
        · exact List.cons_ne_nil c first
        · exact ih (hcut ▸ List.mem_cons_of_mem first hrest)

theorem cutAfter_eq_singleton (hne : line ≠ []) (h : '\n' ∉ line) : cutAfter line = [line] := by
  induction line with
  | nil => exact absurd rfl hne
  | cons c line ih =>
    obtain ⟨hc, hline⟩ := not_or.mp (mt List.mem_cons.mpr h)
    rw [cutAfter, if_neg (Ne.symm hc)]
    cases line with
    | nil => rfl
    | cons d line => rw [ih (List.cons_ne_nil d line) hline]

theorem cutAfter_append_cons (h : '\n' ∉ line) (rest : List Char) :
    cutAfter (line ++ '\n' :: rest) = (line ++ ['\n']) :: cutAfter rest := by
  induction line with
  | nil => rw [List.nil_append, cutAfter, if_pos rfl, List.nil_append]
  | cons c line ih =>
    obtain ⟨hc, hline⟩ := not_or.mp (mt List.mem_cons.mpr h)
    rw [List.cons_append, cutAfter, if_neg (Ne.symm hc), ih hline]
    rfl

theorem terminated_append (before : List Char) {text : List Char} (hne : text ≠ []) :
    Terminated (before ++ text) ↔ Terminated text := by
  unfold Terminated
  rw [List.getLast?_append, List.getLast?_eq_some_getLast hne, Option.some_or]
  simp [hne]

theorem terminated_append_cons (line rest : List Char) :
    Terminated (line ++ '\n' :: rest) ↔ Terminated rest := by
  unfold Terminated
  cases rest with
  | nil => simp
  | cons c rest => simp [List.getLast?_append, List.getLast?_cons_cons]

theorem not_terminated (hne : line ≠ []) (h : '\n' ∉ line) : ¬ Terminated line := by
  rintro (hnil | hlast)
  · exact hne hnil
  · exact h (List.mem_of_getLast? hlast)

theorem splitKeeping_of_terminated {text : List Char} (h : Terminated text) :
    splitKeeping text = cutAfter text ++ [[]] := by
  induction text using line_induction with
  | last line hline =>
    by_cases hne : line = []
    · subst hne
      rfl
    · exact absurd h (not_terminated hne hline)
  | more line rest hline ih =>
    have hrest := ih ((terminated_append_cons line rest).mp h)
    rw [splitKeeping_append_cons hline, cutAfter_append_cons hline, hrest, List.cons_append]

theorem splitKeeping_of_not_terminated {text : List Char} (h : ¬ Terminated text) :
    splitKeeping text = cutAfter text := by
  induction text using line_induction with
  | last line hline =>
    have hne : line ≠ [] := fun hnil => h (.inl hnil)
    rw [splitKeeping_eq_singleton hline, cutAfter_eq_singleton hne hline]
  | more line rest hline ih =>
    have hrest := ih (mt (terminated_append_cons line rest).mpr h)
    rw [splitKeeping_append_cons hline, cutAfter_append_cons hline, hrest]

end Highlighting.Text
