import Mathlib.Data.List.Basic

/-! Sorting keeps the order of what it does not tell apart, and erasing duplicates keeps the order
of first appearance. Both together say where each element of a sorted list without duplicates comes
from. -/

namespace Highlighting

section Stable

variable {α : Type} {le : α → α → Bool}

/-- Elements none of which must stand behind another one stay as they came. -/
theorem filter_mergeSort_of_tied (trans : ∀ a b c, le a b = true → le b c = true → le a c = true)
    (total : ∀ a b, (le a b || le b a) = true) {p : α → Bool}
    (tied : ∀ a b, p a = true → p b = true → le a b = true) (l : List α) :
    (l.mergeSort le).filter p = l.filter p := by
  have sorted : (l.filter p).Pairwise (fun a b => le a b = true) := by
    refine List.pairwise_of_forall_mem_list fun a ha b hb => ?_
    exact tied a b (List.mem_filter.mp ha).2 (List.mem_filter.mp hb).2
  have sub : (l.filter p).Sublist (l.mergeSort le) :=
    List.sublist_mergeSort trans total sorted List.filter_sublist
  have subfilter := sub.filter p
  rw [List.filter_filter] at subfilter
  simp only [Bool.and_self] at subfilter
  refine (subfilter.eq_of_length ?_).symm
  exact ((List.mergeSort_perm l le).filter p).length_eq.symm

/-- After sorting, an earlier element is smaller, or as large and stood earlier before. -/
theorem pairwise_mergeSort_or {R : α → α → Prop}
    (trans : ∀ a b c, le a b = true → le b c = true → le a c = true)
    (total : ∀ a b, (le a b || le b a) = true) {l : List α} (h : l.Pairwise R) :
    (l.mergeSort le).Pairwise fun a b => le a b = true ∧ (le b a = true → R a b) := by
  refine (List.pairwise_mergeSort trans total l).and ?_
  rw [List.pairwise_iff_forall_sublist] at h ⊢
  intro a b hsub hba
  have hab : le a b = true :=
    List.pairwise_iff_forall_sublist.mp (List.pairwise_mergeSort trans total l) hsub
  -- Both are among those that are as large as the first one, and these stay as they came.
  let p : α → Bool := fun x => le a x && le x a
  have tied (x y : α) (hx : p x = true) (hy : p y = true) : le x y = true := by
    rw [Bool.and_eq_true] at hx hy
    exact trans x a y hx.2 hy.1
  have haa : le a a = true := by simpa using total a a
  have hkept : [a, b].filter p = [a, b] := by simp [p, haa, hab, hba]
  have hsub' := hsub.filter p
  rw [hkept, filter_mergeSort_of_tied trans total tied] at hsub'
  exact h (hsub'.trans List.filter_sublist)

end Stable

section Appearance

variable {α : Type}

/-- Of two elements of a list, the first is met before the second. -/
def AppearsBefore (l : List α) (a b : α) : Prop :=
  ∃ before after, l = before ++ after ∧ a ∈ before ∧ b ∉ before

theorem AppearsBefore.asymm {l : List α} {a b : α} (h : AppearsBefore l a b) :
    ¬ AppearsBefore l b a := by
  obtain ⟨before, after, rfl, ha, hb⟩ := h
  rintro ⟨before', after', heq, hb', ha'⟩
  have hprefix : before' <+: before ++ after := ⟨after', heq.symm⟩
  rcases List.prefix_or_prefix_of_prefix (List.prefix_append before after) hprefix with h | h
  · exact ha' (h.subset ha)
  · exact hb (h.subset hb')

theorem AppearsBefore.ne {l : List α} {a b : α} (h : AppearsBefore l a b) : a ≠ b := by
  rintro rfl
  exact h.asymm h

/-- Leaving out other elements changes nothing. -/
theorem AppearsBefore.of_filter {l : List α} {a b : α} {p : α → Bool} (hb : p b = true)
    (h : AppearsBefore (l.filter p) a b) : AppearsBefore l a b := by
  obtain ⟨before, after, heq, ha, hbefore⟩ := h
  obtain ⟨front, back, rfl, rfl, -⟩ := List.filter_eq_append_iff.mp heq
  exact ⟨front, back, rfl, (List.mem_filter.mp ha).1,
    fun hfront => hbefore (List.mem_filter.mpr ⟨hfront, hb⟩)⟩

theorem AppearsBefore.cons {l : List α} {a b c : α} (hb : b ≠ c) (h : AppearsBefore l a b) :
    AppearsBefore (c :: l) a b := by
  obtain ⟨before, after, rfl, ha, hbefore⟩ := h
  exact ⟨c :: before, after, rfl, List.mem_cons_of_mem c ha, by simp [hb, hbefore]⟩

/-- Without duplicates, elements stand in the order in which they first appear. -/
theorem pairwise_eraseDups [BEq α] [LawfulBEq α] : ∀ l : List α,
    l.eraseDups.Pairwise (AppearsBefore l)
  | [] => .nil
  | c :: l => by
    have hother {b : α} (hb : b ∈ (l.filter fun b => !b == c).eraseDups) : b ≠ c := by
      simpa using (List.mem_filter.mp (List.mem_eraseDups.mp hb)).2
    rw [List.eraseDups_cons, List.pairwise_cons]
    constructor
    · intro b hb
      exact ⟨[c], l, rfl, List.mem_singleton_self c, by simpa using hother hb⟩
    · refine (pairwise_eraseDups (l.filter fun b => !b == c)).imp_of_mem ?_
      intro a b _ hb h
      exact (h.of_filter (by simpa using hother hb)).cons (hother hb)
termination_by l => l.length
decreasing_by exact Nat.lt_succ_of_le (List.length_filter_le _ _)

theorem nodup_eraseDups [BEq α] [LawfulBEq α] (l : List α) : l.eraseDups.Nodup :=
  (pairwise_eraseDups l).imp AppearsBefore.ne

theorem eraseDups_of_nodup [BEq α] [LawfulBEq α] {l : List α} (h : l.Nodup) : l.eraseDups = l := by
  induction l with
  | nil => rfl
  | cons c l ih =>
    obtain ⟨hc, hl⟩ := List.nodup_cons.mp h
    have hkept : l.filter (fun b => !b == c) = l := by
      refine List.filter_eq_self.mpr fun b hb => ?_
      have hne : b ≠ c := fun heq => hc (heq ▸ hb)
      simpa using hne
    rw [List.eraseDups_cons, hkept, ih hl]

end Appearance

end Highlighting
