import Highlighting.Proofs.Text.Cutting
import Mathlib.Data.List.Infix

/-! Where a literal is found first. A literal that is put behind a text is found there unless it
begins before, within the text. One that does not end as it begins is found behind every text
without it. -/

namespace Highlighting.Text

/-- A literal that is put behind a text is found there: it does not begin within the text. -/
def FoundBehind (needle text : List Char) : Prop :=
  ∀ n < text.length, ¬ needle <+: (text ++ needle).drop n

instance (needle text : List Char) : Decidable (FoundBehind needle text) :=
  inferInstanceAs (Decidable (∀ n < text.length, _))

theorem FoundBehind.not_infix {needle text : List Char} (hne : needle ≠ [])
    (h : FoundBehind needle text) : ¬ needle <:+: text ++ needle.dropLast := by
  rintro ⟨before, after, heq⟩
  have hpositive := List.length_pos_iff.mpr hne
  have hlength := congrArg List.length heq
  simp only [List.length_append, List.length_dropLast] at hlength
  have hbegins : needle <+: (text ++ needle.dropLast).drop before.length := by
    rw [← heq, List.append_assoc, List.drop_left]
    exact List.prefix_append needle after
  have hshort : text ++ needle.dropLast <+: text ++ needle :=
    (List.prefix_append_right_inj text).mpr (List.dropLast_prefix needle)
  exact h before.length (by omega) (hbegins.trans (hshort.drop before.length))

/-- Where a literal is found first. -/
theorem splitFirst?_eq_some_iff {needle text before rest : List Char} (hne : needle ≠ []) :
    splitFirst? needle text = some (before, rest) ↔
      text = before ++ (needle ++ rest) ∧ FoundBehind needle before := by
  constructor
  · intro h
    refine ⟨by simpa using append_of_splitFirst? h, ?_⟩
    induction text generalizing before with
    | nil =>
      have htext := append_of_splitFirst? h
      exact absurd (List.append_eq_nil_iff.mp (List.append_eq_nil_iff.mp htext.symm).1).2 hne
    | cons c cs ih =>
      have htext := append_of_splitFirst? h
      unfold splitFirst? at h
      cases hafter : after? needle (c :: cs) with
      | some r =>
        simp only [hafter, Option.some.injEq, Prod.mk.injEq] at h
        obtain ⟨rfl, -⟩ := h
        exact fun n hn => absurd hn (Nat.not_lt_zero n)
      | none =>
        simp only [hafter] at h
        obtain ⟨⟨b, r⟩, hb, heq⟩ := Option.map_eq_some_iff.mp h
        cases heq
        rintro (_ | n) hn hbegins
        · obtain ⟨more, hmore⟩ := hbegins
          have hstarts : c :: cs = needle ++ (more ++ r) := by
            rw [htext, ← List.append_assoc needle, hmore]
            simp
          rw [after?_eq_some_iff.mpr hstarts] at hafter
          cases hafter
        · exact ih hb n (Nat.lt_of_succ_lt_succ hn) hbegins
  · rintro ⟨rfl, h⟩
    exact splitFirst?_append hne (h.not_infix hne) rest

/-- A literal that shares no end with its own start is found behind every text without it. -/
theorem foundBehind_of_not_infix {needle text : List Char}
    (hborder : ∀ n < needle.length, 0 < n → ¬ needle.drop n <+: needle)
    (h : ¬ needle <:+: text) : FoundBehind needle text := by
  intro n hn hbegins
  rw [List.drop_append_of_le_length (Nat.le_of_lt hn)] at hbegins
  have hsuffix : text.drop n <:+ text := List.drop_suffix n text
  rcases List.prefix_or_prefix_of_prefix hbegins (List.prefix_append (text.drop n) needle) with
    hinside | ⟨tail, htail⟩
  · exact h (hinside.isInfix.trans hsuffix.isInfix)
  · by_cases hwhole : tail = []
    · rw [hwhole, List.append_nil] at htail
      exact h (htail ▸ hsuffix.isInfix)
    · -- The literal begins in the text and ends in the one behind it.
      have hlength := congrArg List.length htail
      have htailpos := List.length_pos_iff.mpr hwhole
      rw [List.length_append, List.length_drop] at hlength
      have hdrop : needle.drop (text.length - n) = tail := by
        rw [← htail, ← List.length_drop, List.drop_left]
      have hagain : text.drop n ++ tail <+: text.drop n ++ needle := by
        rw [htail]
        exact hbegins
      refine hborder (text.length - n) (by omega) (by omega) ?_
      rw [hdrop]
      exact (List.prefix_append_right_inj _).mp hagain

end Highlighting.Text
