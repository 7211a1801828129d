import Mathlib
import Highlighting.Diff.Whitespace
import Highlighting.Proofs.Lines.Cells

/-! What showing white space makes of the texts of a forest. A text with spaces or tabs comes to a
text for each run of other characters and two for each space or tab: the character itself under one
class more, and an empty text behind it. Other texts stay. -/

namespace Highlighting

def isSpaceOrTab (c : Char) : Bool := c == ' ' || c == '\t'

theorem isSome_visibleClass? (c : Char) : (visibleClass? c).isSome = isSpaceOrTab c := by
  unfold visibleClass? isSpaceOrTab
  split
  · next h => simp [h]
  · next h => split <;> simp_all

theorem visibleClass?_eq_none_iff {c : Char} : visibleClass? c = none ↔ isSpaceOrTab c = false := by
  rw [← isSome_visibleClass?, Option.isSome_eq_false_iff, Option.isNone_iff_eq_none]

theorem isSpaceOrTab_of_visibleClass? {c : Char} {visible : String}
    (h : visibleClass? c = some visible) : isSpaceOrTab c = true := by
  rw [← isSome_visibleClass?, h, Option.isSome_some]

theorem any_visible (text : List Char) :
    (text.any fun c => (visibleClass? c).isSome) = text.any isSpaceOrTab := by
  simp only [isSome_visibleClass?]

/-! ### Counts -/

theorem leafCount_leaf (text : List Char) :
    (Forest.leaf text).leafCount = if text = [] then 0 else 1 := by
  cases text with
  | nil => rfl
  | cons c cs => simp [Forest.leaf, Forest.plain, Forest.leafCount, Node.leafCount]

/-- The parts of a text are two for each space or tab, and one for each run of other characters. -/
theorem leafCount_visibleParts {run : List Char} (hrun : ∀ c ∈ run, isSpaceOrTab c = false)
    (cs : List Char) : (visibleParts run cs).leafCount =
      2 * cs.countP isSpaceOrTab + ((run.reverse ++ cs).splitOnP isSpaceOrTab).countP (· ≠ []) := by
  induction cs generalizing run with
  | nil =>
    have hreverse : ∀ c ∈ run.reverse, isSpaceOrTab c = false := by simpa using hrun
    rw [visibleParts, leafCount_leaf, List.append_nil, List.splitOnP_eq_singleton hreverse]
    by_cases hempty : run = [] <;> simp [hempty]
  | cons c cs ih =>
    have hreverse : ∀ c ∈ run.reverse, isSpaceOrTab c = false := by simpa using hrun
    unfold visibleParts
    split
    · next visible hvisible =>
      have hc := isSpaceOrTab_of_visibleClass? hvisible
      have hrest := ih fun d hd => absurd hd List.not_mem_nil
      rw [List.reverse_nil, List.nil_append] at hrest
      rw [List.splitOnP_append_cons_of_forall_mem hreverse c hc, List.countP_cons_of_pos hc,
        List.countP_cons, Forest.leafCount_append, leafCount_leaf]
      simp only [Forest.leafCount, Node.leafCount, Node.span, hrest]
      by_cases hempty : run = [] <;> simp [hempty] <;> omega
    · next hnone =>
      have hc : isSpaceOrTab c = false := visibleClass?_eq_none_iff.mp hnone
      have hrest := ih (List.forall_mem_cons.mpr ⟨hc, hrun⟩)
      rw [List.reverse_cons, List.append_assoc, List.singleton_append] at hrest
      rw [hrest, List.countP_cons_of_neg (by simp [hc])]

/-- A text with spaces or tabs comes to as many texts as it has parts, and another one stays. -/
theorem visualizeText_of_countP_eq_zero {value : String}
    (h : value.toList.countP isSpaceOrTab = 0) : visualizeText value = .text value := by
  have hnone : ¬ value.toList.any isSpaceOrTab := by
    rw [List.any_eq_true]
    rintro ⟨c, hc, hblank⟩
    exact List.countP_eq_zero.mp h c hc hblank
  rw [visualizeText, any_visible, if_neg hnone]

theorem visualizeText_of_countP_pos {value : String}
    (h : 0 < value.toList.countP isSpaceOrTab) :
    visualizeText value = .span [] (visibleParts [] value.toList) := by
  obtain ⟨c, hc, hblank⟩ := List.countP_pos_iff.mp h
  rw [visualizeText, any_visible, if_pos (List.any_eq_true.mpr ⟨c, hc, hblank⟩)]

theorem leafCount_visualizeText {value : String} (h : 0 < value.toList.countP isSpaceOrTab) :
    (visualizeText value).leafCount = 2 * value.toList.countP isSpaceOrTab +
      (value.toList.splitOnP isSpaceOrTab).countP (· ≠ []) := by
  rw [visualizeText_of_countP_pos h]
  exact leafCount_visibleParts (fun c hc => absurd hc List.not_mem_nil) value.toList

mutual

theorem Node.leafCount_visualize (around : List String) : ∀ n : Node, n.visualize.leafCount =
    ((n.leaves around).map fun leaf => (visualizeText leaf.2).leafCount).sum
  | .text value => by simp [Node.visualize, Node.leaves]
  | .element _ properties children =>
    Forest.leafCount_visualize (around ++ properties.classes) children

/-- Each text of a forest is shown on its own. -/
theorem Forest.leafCount_visualize (around : List String) : ∀ f : Forest,
    Forest.leafCount (Forest.visualize f) =
      ((Forest.leaves around f).map fun leaf => (visualizeText leaf.2).leafCount).sum
  | [] => rfl
  | n :: rest => by
    rw [Forest.visualize, Forest.leafCount, Forest.leaves, List.map_append, List.sum_append,
      Node.leafCount_visualize around n, Forest.leafCount_visualize around rest]

end

end Highlighting
