import Highlighting.Proofs.Diff.Outcome

/-! How far the numbers of a header bound the hunk that is read. A hunk is open while one of its
sides lacks lines, and it takes every change that comes, also for the side that has all of its
lines. -/

namespace Highlighting

theorem Hunk.length_oldSide (h : Hunk) :
    h.oldSide.length = h.changes.countP (·.kind != .insert) := by
  rw [oldSide, List.length_map, List.countP_eq_length_filter]

theorem Hunk.length_newSide (h : Hunk) :
    h.newSide.length = h.changes.countP (·.kind != .delete) := by
  rw [newSide, List.length_map, List.countP_eq_length_filter]

namespace DiffBlock

theorem exists_isReadAs_of_mem {text : String} {hunks : List Hunk} {hunk : Hunk}
    (h : parseDiff text = .ok hunks) (hmem : hunk ∈ hunks) : ∃ b : DiffBlock, b.IsReadAs hunk := by
  cases parseDiff_eq_iff.mp h with
  | read _ hhunks =>
    obtain ⟨i, hi, rfl⟩ := List.getElem_of_mem hmem
    exact ⟨_, hhunks.get (hhunks.length_eq ▸ hi) hi⟩

/-- Where a change is taken, the changes before it leave a side with fewer lines than declared. -/
theorem IsReadAs.lacks {b : DiffBlock} {hunk : Hunk} (hread : b.IsReadAs hunk)
    {before after : List Change} {c : Change} (hchanges : hunk.changes = before ++ c :: after) :
    before.countP (·.kind != .insert) < hunk.oldLines.toNat ∨
      before.countP (·.kind != .delete) < hunk.newLines.toNat := by
  have htaken := Change.eq_filterMap_of_forall₂ hread.changes
  rw [hchanges] at htaken
  obtain ⟨short, more, hbody, hshort, hmore⟩ := List.filterMap_eq_append_iff.mp htaken.symm
  have hne : short ≠ b.body hunk := by
    rintro rfl
    obtain rfl : more = [] := by simpa using hbody
    cases hmore
  have hfilled := not_filled_of_prefix ⟨more, hbody.symm⟩ hne
  rw [Hunk.Filled, Change.countP_isLineFor (by decide), Change.countP_isLineFor (by decide),
    hshort] at hfilled
  simp only [Change.kind_mem_old, Change.kind_mem_new] at hfilled
  omega

/-- A hunk takes a change only while one of its sides has fewer lines than its header declares. So
at most one side is longer than declared, and only by lines that come while the other one lacks
some. -/
theorem changes_of_parseDiff {text : String} {hunks : List Hunk}
    (h : parseDiff text = .ok hunks) : ∀ hunk ∈ hunks,
      (∀ before c after, hunk.changes = before ++ c :: after →
        before.countP (·.kind != .insert) < hunk.oldLines.toNat ∨
          before.countP (·.kind != .delete) < hunk.newLines.toNat) ∧
      (hunk.oldSide.length ≤ hunk.oldLines.toNat ∨ hunk.newSide.length ≤ hunk.newLines.toNat) := by
  intro hunk hhunk
  obtain ⟨b, hread⟩ := exists_isReadAs_of_mem h hhunk
  refine ⟨fun before c after hchanges => hread.lacks hchanges, ?_⟩
  rw [hunk.length_oldSide, hunk.length_newSide]
  rcases List.eq_nil_or_concat' hunk.changes with hnil | ⟨before, c, hchanges⟩
  · simp [hnil]
  · have hlacks := hread.lacks hchanges
    have hlast (p : Change → Bool) : [c].countP p ≤ 1 := List.countP_le_length
    have hold := hlast (·.kind != .insert)
    have hnew := hlast (·.kind != .delete)
    rw [hchanges, List.countP_append, List.countP_append]
    omega

/-- The deletion comes when the old side has its line and the new one lacks one. -/
def overrunHunk : Hunk :=
  ⟨"@@ -1 +1,2 @@", 1, 1, 1, 2, [⟨.normal, "a"⟩, ⟨.delete, "b"⟩, ⟨.insert, "c"⟩]⟩

theorem parseDiff_overrunHunk :
    parseDiff "@@ -1 +1,2 @@\n a\n-b\n+c\n" = .ok [overrunHunk] := by cbv

theorem changes_of_parseDiff_overrunHunk :
    parseDiff "@@ -1 +1,2 @@\n a\n-b\n+c\n" = .ok [overrunHunk] ∧
      overrunHunk.newSide.length ≤ overrunHunk.newLines.toNat := by
  have hbound := (changes_of_parseDiff parseDiff_overrunHunk overrunHunk
    (List.mem_singleton_self _)).2
  have hold : ¬ overrunHunk.oldSide.length ≤ overrunHunk.oldLines.toNat := by decide
  exact ⟨parseDiff_overrunHunk, hbound.resolve_left hold⟩

/-- A hunk may be longer than its header declares. -/
theorem not_length_side_le : ¬ ∀ text hunks, parseDiff text = .ok hunks → ∀ hunk ∈ hunks,
    hunk.oldSide.length ≤ hunk.oldLines.toNat ∧ hunk.newSide.length ≤ hunk.newLines.toNat := by
  intro hbound
  have hold := (hbound _ _ parseDiff_overrunHunk overrunHunk (List.mem_singleton_self _)).1
  exact absurd hold (by decide)

end DiffBlock

end Highlighting
