import Highlighting.Proofs.Diff.Blocks

/-! What the reader of a unified diff accepts, and which fault it reports. A line offends where it
begins a block and is no header, or where it begins with a space outside of all hunks. A diff in
which no line offends is read block by block, and the first line that does is reported. -/

namespace Highlighting

namespace Hunk

theorem OpenedBy.unique {h h' : Hunk} {line : List Char} (hopened : h.OpenedBy line)
    (hopened' : h'.OpenedBy line) : h = h' := by
  have hread := ofHeader?_eq_some_iff.mpr hopened
  rw [ofHeader?_eq_some_iff.mpr hopened'] at hread
  exact (Option.some.inj hread).symm

end Hunk

namespace DiffBlock

/-! ### Offending lines -/

/-- A block that begins with a header, and behind whose body no line begins with a space. -/
def Accepted (b : DiffBlock) : Prop :=
  ∃ h : Hunk, h.OpenedBy b.header ∧ ∀ line ∈ b.behind h, line.head? ≠ some ' '

/-- Every block is accepted, and before the first one no line begins with a space. -/
structure WellFormed (ls : List (List Char)) : Prop where
  preamble : ∀ line ∈ preamble ls, line.head? ≠ some ' '
  blocks : ∀ b ∈ cut ls, b.Accepted

/-- A line is outside of all hunks if no block begins in the lines before it, or if the body of the
last one ends in them. -/
inductive Outside (before : List (List Char)) : Prop
  | preamble : cut before = [] → Outside before
  | behind {init : List DiffBlock} {b : DiffBlock} {h : Hunk} : cut before = init ++ [b] →
      h.OpenedBy b.header → h.Filled (b.body h) → Outside before

/-- The fault of a line with the lines before it. -/
inductive Offends (before : List (List Char)) (line : List Char) : DiffFault → Prop
  | header : Opens line → (∀ h : Hunk, ¬ h.OpenedBy line) →
      Offends before line (.malformedHeader (before.length + 1) (String.ofList line))
  | orphan : line.head? = some ' ' → Outside before →
      Offends before line (.orphanChange (before.length + 1))

variable {ls before : List (List Char)} {line : List Char}

theorem not_opens_of_head? (h : line.head? = some ' ') : ¬ Opens line := by
  obtain ⟨rest, rfl⟩ := List.head?_eq_some_iff.mp h
  simp [Opens]

theorem Offends.unique {fault fault' : DiffFault} (h : Offends before line fault)
    (h' : Offends before line fault') : fault = fault' := by
  cases h with
  | header hopens =>
    cases h' with
    | header => rfl
    | orphan hspace => exact absurd hopens (not_opens_of_head? hspace)
  | orphan hspace =>
    cases h' with
    | header hopens => exact absurd hopens (not_opens_of_head? hspace)
    | orphan => rfl

theorem wellFormed_nil : WellFormed [] := by
  refine ⟨?_, ?_⟩
  · intro line hline
    cases hline
  · intro b hb
    cases hb

theorem wellFormed_iff :
    WellFormed ls ↔
      (∀ line ∈ preamble ls, line.head? ≠ some ' ') ∧ ∀ b ∈ cut ls, b.Accepted :=
  ⟨fun h => ⟨h.preamble, h.blocks⟩, fun h => ⟨h.1, h.2⟩⟩

theorem accepted_of_later_eq_nil {b : DiffBlock} (hlater : b.later = []) :
    b.Accepted ↔ ∃ h : Hunk, h.OpenedBy b.header := by
  simp [Accepted, behind, hlater]

/-- A line more behind the body of a block must not begin with a space. -/
theorem accepted_extend_iff {b : DiffBlock} : (b.extend line).Accepted ↔
    b.Accepted ∧ ∀ h : Hunk, h.OpenedBy b.header → h.Filled (b.body h) → line.head? ≠ some ' ' := by
  constructor
  · rintro ⟨h, hopened, hbehind⟩
    by_cases hfilled : h.Filled (b.body h)
    · rw [behind_extend_of_filled hfilled] at hbehind
      obtain ⟨hearlier, hline⟩ := List.forall_mem_append.mp hbehind
      exact ⟨⟨h, hopened, hearlier⟩, fun _ _ _ => hline line (List.mem_singleton_self line)⟩
    · refine ⟨⟨h, hopened, by simp [behind_eq_nil hfilled]⟩, ?_⟩
      intro h' hopened' hfilled'
      obtain rfl := Hunk.OpenedBy.unique hopened' hopened
      exact absurd hfilled' hfilled
  · rintro ⟨⟨h, hopened, hbehind⟩, hline⟩
    refine ⟨h, hopened, ?_⟩
    by_cases hfilled : h.Filled (b.body h)
    · rw [behind_extend_of_filled hfilled]
      exact List.forall_mem_append.mpr
        ⟨hbehind, List.forall_mem_singleton.mpr (hline h hopened hfilled)⟩
    · simp [behind_extend_of_not_filled hfilled]

theorem wellFormed_append_of_opens (hopens : Opens line) :
    WellFormed (ls ++ [line]) ↔ WellFormed ls ∧ ∃ h : Hunk, h.OpenedBy line := by
  rw [wellFormed_iff, wellFormed_iff, cut_append_of_opens hopens, preamble_append_of_opens hopens,
    List.forall_mem_append, List.forall_mem_singleton, accepted_of_later_eq_nil rfl, and_assoc]

theorem wellFormed_append_of_cut_eq_nil (hplain : ¬ Opens line) (hcut : cut ls = []) :
    WellFormed (ls ++ [line]) ↔ WellFormed ls ∧ line.head? ≠ some ' ' := by
  have hcut' := cut_append_eq_nil hplain hcut
  rw [wellFormed_iff, wellFormed_iff, preamble_eq_self hcut, preamble_eq_self hcut', hcut, hcut',
    List.forall_mem_append, List.forall_mem_singleton, and_right_comm]

theorem wellFormed_append_of_not_opens (hplain : ¬ Opens line) {init : List DiffBlock}
    {b : DiffBlock} (hcut : cut ls = init ++ [b]) :
    WellFormed (ls ++ [line]) ↔ WellFormed ls ∧
      ∀ h : Hunk, h.OpenedBy b.header → h.Filled (b.body h) → line.head? ≠ some ' ' := by
  have hpreamble : preamble (ls ++ [line]) = preamble ls :=
    preamble_append_of_cut_ne_nil (by simp [hcut]) line
  rw [wellFormed_iff, wellFormed_iff, hpreamble, cut_append_of_not_opens hplain hcut, hcut,
    List.forall_mem_append, List.forall_mem_append, List.forall_mem_singleton,
    List.forall_mem_singleton, accepted_extend_iff, and_assoc, and_assoc]

theorem outside_iff {init : List DiffBlock} {b : DiffBlock} (hcut : cut before = init ++ [b]) :
    Outside before ↔ ∃ h : Hunk, h.OpenedBy b.header ∧ h.Filled (b.body h) := by
  constructor
  · intro houtside
    cases houtside with
    | preamble hnil => simp [hcut] at hnil
    | behind hcut' hopened hfilled =>
      obtain ⟨-, hb⟩ := List.append_inj' (hcut.symm.trans hcut') rfl
      obtain rfl := (List.cons.inj hb).1
      exact ⟨_, hopened, hfilled⟩
  · rintro ⟨h, hopened, hfilled⟩
    exact .behind hcut hopened hfilled

theorem not_offends_iff_of_opens (hopens : Opens line) :
    (∀ fault, ¬ Offends before line fault) ↔ ∃ h : Hunk, h.OpenedBy line := by
  constructor
  · intro hnone
    by_contra hno
    exact hnone _ (.header hopens (not_exists.mp hno))
  · rintro ⟨h, hopened⟩ fault hoffends
    cases hoffends with
    | header _ hnone => exact hnone h hopened
    | orphan hspace => exact not_opens_of_head? hspace hopens

theorem not_offends_iff_of_not_opens (hplain : ¬ Opens line) :
    (∀ fault, ¬ Offends before line fault) ↔ (Outside before → line.head? ≠ some ' ') := by
  constructor
  · intro hnone houtside hspace
    exact hnone _ (.orphan hspace houtside)
  · intro hline fault hoffends
    cases hoffends with
    | header hopens => exact hplain hopens
    | orphan hspace houtside => exact hline houtside hspace

/-- A line more keeps a diff well-formed unless it offends. -/
theorem wellFormed_append_singleton_iff :
    WellFormed (ls ++ [line]) ↔ WellFormed ls ∧ ∀ fault, ¬ Offends ls line fault := by
  by_cases hopens : Opens line
  · rw [wellFormed_append_of_opens hopens, not_offends_iff_of_opens hopens]
  · rw [not_offends_iff_of_not_opens hopens]
    rcases List.eq_nil_or_concat' (cut ls) with hcut | ⟨init, b, hcut⟩
    · have houtside : Outside ls := .preamble hcut
      rw [wellFormed_append_of_cut_eq_nil hopens hcut, forall_prop_of_true houtside]
    · rw [wellFormed_append_of_not_opens hopens hcut, outside_iff hcut]
      simp only [forall_exists_index, and_imp]

theorem WellFormed.of_append {more : List (List Char)} (h : WellFormed (ls ++ more)) :
    WellFormed ls := by
  induction more using List.reverseRecOn with
  | nil => rwa [List.append_nil] at h
  | append_singleton more line ih =>
    rw [← List.append_assoc] at h
    exact ih (wellFormed_append_singleton_iff.mp h).1

end DiffBlock

end Highlighting
