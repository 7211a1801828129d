import Highlighting.Text.Search
import Mathlib.Data.List.Infix
import Mathlib.Data.List.ReduceOption

/-! Deleting literals from a text with the places kept where something was deleted. What remains of
the text is cut into stretches by gaps. A literal that is found in what remains either lies inside
of a stretch, so that it stood in the text before, or it is put together by what stands on the two
sides of a gap. -/

namespace Highlighting

namespace Text

variable {needle : List Char}

/-- Before the first occurrence of a literal there is none. -/
theorem not_infix_of_splitFirst? (hne : needle ≠ []) {text before rest : List Char}
    (h : splitFirst? needle text = some (before, rest)) : ¬ needle <:+: before := by
  induction text generalizing before with
  | nil =>
    obtain ⟨r, -, heq⟩ := Option.map_eq_some_iff.mp h
    cases heq
    rw [List.infix_nil]
    exact hne
  | cons c cs ih =>
    have htext := append_of_splitFirst? h
    unfold splitFirst? at h
    cases hafter : after? needle (c :: cs) with
    | some r =>
      simp only [hafter, Option.some.injEq, Prod.mk.injEq] at h
      obtain ⟨rfl, -⟩ := h
      rw [List.infix_nil]
      exact hne
    | none =>
      simp only [hafter] at h
      obtain ⟨⟨b, r⟩, hb, heq⟩ := Option.map_eq_some_iff.mp h
      cases heq
      rw [List.infix_cons_iff]
      rintro (⟨more, hbegins⟩ | hinfix)
      · have hstarts : c :: cs = needle ++ (more ++ (needle ++ r)) := by
          rw [htext, ← hbegins, List.append_assoc, List.append_assoc]
        rw [after?_eq_some_iff.mpr hstarts] at hafter
        cases hafter
      · exact ih hb hinfix

/-! ### Deleting from the left -/

theorem erase_nil (hne : needle ≠ []) : erase needle [] = [] := by
  rw [erase]
  cases needle with
  | nil => exact absurd rfl hne
  | cons n needle => simp [splitFirst?, after?]

/-- A literal at the start of a text is deleted. -/
theorem erase_of_after? (hne : needle ≠ []) {text rest : List Char}
    (h : after? needle text = some rest) : erase needle text = erase needle rest := by
  have hlength : rest.length < text.length := by
    have hpositive := List.length_pos_iff.mpr hne
    rw [after?_eq_some_iff.mp h, List.length_append]
    omega
  have hsplit : splitFirst? needle text = some ([], rest) := by
    cases text with
    | nil => simp at hlength
    | cons c cs => simp [splitFirst?, h]
  rw [erase, hsplit]
  simp [hlength]

/-- A character at which no literal starts stays. -/
theorem erase_cons_of_after? (hne : needle ≠ []) {c : Char} {cs : List Char}
    (h : after? needle (c :: cs) = none) : erase needle (c :: cs) = c :: erase needle cs := by
  rw [erase, erase]
  simp only [splitFirst?, h]
  cases hsplit : splitFirst? needle cs with
  | none => rfl
  | some parts =>
    obtain ⟨before, rest⟩ := parts
    have hlength : rest.length < cs.length := by
      have hpositive := List.length_pos_iff.mpr hne
      rw [append_of_splitFirst? hsplit, List.length_append, List.length_append]
      omega
    have hlength' : rest.length < (c :: cs).length := Nat.lt_succ_of_lt hlength
    simp only [Option.map_some, if_pos hlength, if_pos hlength', List.cons_append]

end Text

/-- A text with gaps, `none`, where something was deleted. -/
abbrev Gapped := List (Option Char)

namespace Gapped

/-- What follows a literal at the start of what remains; gaps are read over. -/
def after? : (needle : List Char) → Gapped → Option Gapped
  | [], t => some t
  | _ :: _, [] => none
  | n :: needle, none :: t => after? (n :: needle) t
  | n :: needle, some c :: t => if n = c then after? needle t else none

/-- Deletes a literal wherever it is found in what remains, and leaves gaps. -/
def erase (needle : List Char) : Gapped → Gapped
  | [] => []
  | none :: t => none :: erase needle t
  | some c :: t =>
    match after? needle (some c :: t) with
    | some rest =>
      if rest.length ≤ t.length then none :: erase needle rest else some c :: erase needle t
    | none => some c :: erase needle t
termination_by t => t.length

/-- A literal stands at a gap: its two parts, neither of them empty, stand on the two sides. -/
def Rejoins (needle : List Char) (t : Gapped) : Prop :=
  ∃ (before after : Gapped) (left right : List Char), t = before ++ none :: after ∧
    needle = left ++ right ∧ left ≠ [] ∧ right ≠ [] ∧
      left <:+ before.reduceOption ∧ right <+: after.reduceOption

variable {needle l : List Char} {t rest : Gapped}

@[simp] theorem reduceOption_map_some (l : List Char) : (l.map some).reduceOption = l := by
  induction l with
  | nil => rfl
  | cons c l ih => simp [ih]

theorem map_reduceOption_after? (needle : List Char) (t : Gapped) :
    (after? needle t).map List.reduceOption = Text.after? needle t.reduceOption := by
  fun_induction after? needle t with
  | case1 t => rfl
  | case2 n needle => rfl
  | case3 n needle t ih => simp [ih]
  | case4 needle c t ih => simp [ih, Text.after?]
  | case5 n needle c t hne => simp [hne, Text.after?]

theorem isSuffix_of_after? (h : after? needle t = some rest) : rest <:+ t := by
  fun_induction after? needle t with
  | case1 t =>
    cases h
    exact List.suffix_refl _
  | case2 => cases h
  | case3 n needle t ih => exact (ih h).trans (List.suffix_cons _ _)
  | case4 needle c t ih => exact (ih h).trans (List.suffix_cons _ _)
  | case5 => cases h

theorem after?_map_some_append (needle : List Char) (t : Gapped) :
    after? needle (needle.map some ++ t) = some t := by
  induction needle with
  | nil => simp [after?]
  | cons n needle ih => simp [after?, ih]

/-- What a literal is followed by is shorter than where it stands. -/
theorem length_le_of_after? (hne : needle ≠ []) {c : Char}
    (h : after? needle (some c :: t) = some rest) : rest.length ≤ t.length := by
  cases needle with
  | nil => exact absurd rfl hne
  | cons n needle =>
    unfold after? at h
    split at h
    · exact (isSuffix_of_after? h).length_le
    · cases h

/-- Deleting with gaps leaves what deleting leaves. -/
theorem reduceOption_erase (hne : needle ≠ []) (t : Gapped) :
    (erase needle t).reduceOption = Text.erase needle t.reduceOption := by
  fun_induction erase needle t with
  | case1 => exact (Text.erase_nil hne).symm
  | case2 t ih => simpa using ih
  | case3 c t rest hafter hle ih =>
    have htext := map_reduceOption_after? needle (some c :: t)
    rw [hafter] at htext
    rw [Text.erase_of_after? hne htext.symm, ← ih]
    simp
  | case4 c t rest hafter hlt ih => exact absurd (length_le_of_after? hne hafter) hlt
  | case5 c t hafter ih =>
    have htext := map_reduceOption_after? needle (some c :: t)
    rw [hafter, List.reduceOption_cons_of_some] at htext
    rw [List.reduceOption_cons_of_some, List.reduceOption_cons_of_some, ih,
      Text.erase_cons_of_after? hne htext.symm]

/-! ### Stretches -/

/-- Deleting brings nothing into a stretch at the start. -/
theorem prefix_of_prefix_erase (hne : needle ≠ []) (h : l.map some <+: erase needle t) :
    l.map some <+: t := by
  fun_induction erase needle t generalizing l with
  | case1 => exact h
  | case2 t ih =>
    cases l with
    | nil => exact List.nil_prefix
    | cons c l => simp at h
  | case3 c t rest hafter hle ih =>
    cases l with
    | nil => exact List.nil_prefix
    | cons c l => simp at h
  | case4 c t rest hafter hlt ih => exact absurd (length_le_of_after? hne hafter) hlt
  | case5 c t hafter ih =>
    cases l with
    | nil => exact List.nil_prefix
    | cons d l =>
      rw [List.map_cons, List.cons_prefix_cons] at h ⊢
      exact ⟨h.1, ih h.2⟩

/-- What lies inside of a stretch after deleting did so before, and it is not what was deleted. -/
theorem infix_of_infix_erase (hne : needle ≠ []) (hl : l ≠ [])
    (h : l.map some <:+: erase needle t) : l.map some <:+: t ∧ l ≠ needle := by
  have hstart {u : Gapped} (hu : l.map some <+: none :: u) : False := by
    cases l with
    | nil => exact hl rfl
    | cons d l => simp at hu
  fun_induction erase needle t with
  | case1 => simp_all
  | case2 t ih =>
    rcases List.infix_cons_iff.mp h with h | h
    · exact absurd h hstart
    · exact ⟨List.infix_cons (ih h).1, (ih h).2⟩
  | case3 c t rest hafter hle ih =>
    rcases List.infix_cons_iff.mp h with h | h
    · exact absurd h hstart
    · exact ⟨(ih h).1.trans (isSuffix_of_after? hafter).isInfix, (ih h).2⟩
  | case4 c t rest hafter hlt ih => exact absurd (length_le_of_after? hne hafter) hlt
  | case5 c t hafter ih =>
    rcases List.infix_cons_iff.mp h with hbegins | h
    · have hbefore : l.map some <+: some c :: t := by
        cases l with
        | nil => exact List.nil_prefix
        | cons d l =>
          rw [List.map_cons, List.cons_prefix_cons] at hbegins ⊢
          exact ⟨hbegins.1, prefix_of_prefix_erase hne hbegins.2⟩
      refine ⟨hbefore.isInfix, ?_⟩
      rintro rfl
      obtain ⟨more, hmore⟩ := hbefore
      rw [← hmore, after?_map_some_append] at hafter
      cases hafter
    · exact ⟨List.infix_cons (ih h).1, (ih h).2⟩

theorem prefix_of_prefix_append_none {before after : Gapped}
    (h : l.map some <+: before ++ none :: after) : l.map some <+: before := by
  induction before generalizing l with
  | nil =>
    cases l with
    | nil => exact List.nil_prefix
    | cons c l => simp at h
  | cons o before ih =>
    cases l with
    | nil => exact List.nil_prefix
    | cons c l =>
      rw [List.cons_append, List.map_cons, List.cons_prefix_cons] at h
      rw [List.map_cons, List.cons_prefix_cons]
      exact ⟨h.1, ih h.2⟩

/-- A stretch lies on one side of a gap. -/
theorem infix_append_none_iff (hl : l ≠ []) (before after : Gapped) :
    l.map some <:+: before ++ none :: after ↔ l.map some <:+: before ∨ l.map some <:+: after := by
  constructor
  · intro h
    induction before with
    | nil =>
      rcases List.infix_cons_iff.mp h with h | h
      · cases l with
        | nil => exact absurd rfl hl
        | cons d l => simp at h
      · exact .inr h
    | cons o before ih =>
      rcases List.infix_cons_iff.mp h with hbegins | h
      · have hbefore : l.map some <+: o :: before := prefix_of_prefix_append_none hbegins
        exact .inl hbefore.isInfix
      · exact (ih h).imp_left List.infix_cons
  · rintro (h | h)
    · exact h.trans (List.prefix_append _ _).isInfix
    · exact h.trans ((List.suffix_cons none after).trans (List.suffix_append _ _)).isInfix

/-- What stands at the start of what remains lies in the first stretch or runs over its end. -/
theorem prefix_reduceOption (h : l <+: t.reduceOption) :
    l.map some <+: t ∨ ∃ (left right : List Char) (after : Gapped), l = left ++ right ∧
      right ≠ [] ∧ t = left.map some ++ none :: after ∧ right <+: after.reduceOption := by
  induction t generalizing l with
  | nil =>
    have hl : l = [] := by simpa using h
    exact .inl (by simp [hl])
  | cons o t ih =>
    cases l with
    | nil => exact .inl List.nil_prefix
    | cons c l =>
      cases o with
      | none => exact .inr ⟨[], c :: l, t, rfl, by simp, rfl, by simpa using h⟩
      | some d =>
        rw [List.reduceOption_cons_of_some, List.cons_prefix_cons] at h
        obtain ⟨rfl, h⟩ := h
        rcases ih h with h | ⟨left, right, after, rfl, hright, rfl, hafter⟩
        · exact .inl (by simpa using h)
        · exact .inr ⟨c :: left, right, after, rfl, hright, rfl, hafter⟩

/-- A literal is found in what remains if it lies inside of a stretch or stands at a gap. -/
theorem infix_reduceOption_iff (hl : l ≠ []) :
    l <:+: t.reduceOption ↔ l.map some <:+: t ∨ Rejoins l t := by
  constructor
  · intro h
    induction t with
    | nil => simp_all
    | cons o t ih =>
      have hrest (h : l <:+: t.reduceOption) : l.map some <:+: o :: t ∨ Rejoins l (o :: t) := by
        rcases ih h with h | ⟨before, after, left, right, rfl, hl, hleft, hright, hb, ha⟩
        · exact .inl (List.infix_cons h)
        · refine .inr ⟨o :: before, after, left, right, rfl, hl, hleft, hright, ?_, ha⟩
          cases o with
          | none => simpa using hb
          | some c =>
            rw [List.reduceOption_cons_of_some]
            exact hb.trans (List.suffix_cons _ _)
      cases o with
      | none => exact hrest (by simpa using h)
      | some c =>
        rw [List.reduceOption_cons_of_some, List.infix_cons_iff] at h
        rcases h with h | h
        · have hbegins : l <+: List.reduceOption (some c :: t) := by simpa using h
          rcases prefix_reduceOption hbegins with h | ⟨left, right, after, rfl, hright, ht, hafter⟩
          · exact .inl h.isInfix
          · have hleft : left ≠ [] := by
              rintro rfl
              simp at ht
            exact .inr ⟨left.map some, after, left, right, ht, rfl, hleft, hright, by simp, hafter⟩
        · exact hrest h
  · rintro (⟨u, v, rfl⟩ | ⟨before, after, left, right, rfl, rfl, -, -, ⟨u, hu⟩, ⟨v, hv⟩⟩)
    · refine ⟨u.reduceOption, v.reduceOption, ?_⟩
      rw [List.reduceOption_append, List.reduceOption_append, reduceOption_map_some]
    · refine ⟨u, v, ?_⟩
      rw [List.reduceOption_append, List.reduceOption_cons_of_none, ← hu, ← hv]
      simp

end Gapped

end Highlighting
