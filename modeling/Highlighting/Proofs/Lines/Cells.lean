import Highlighting.Proofs.Lines.Partition

/-! The characters of a forest with the classes around each of them. Grouping by lines cuts a text
into fragments that all keep its classes, so that the characters and their classes go through it
unchanged, and of the empty texts those that have a class. -/

namespace Highlighting

/-- The characters of a text, each under the classes around the text. An empty text is one cell
without a character. -/
def leafCells (leaf : List String × String) : List (List String × Option Char) :=
  if leaf.2 = "" then [(leaf.1, none)] else leaf.2.toList.map fun c => (leaf.1, some c)

namespace FlatNode

def leaf (p : FlatNode) : List String × String := (p.classes, p.text)

@[simp] theorem classes_withText (text : String) (p : FlatNode) :
    (p.withText text).classes = p.classes := by
  cases p <;> rfl

theorem withText_text (p : FlatNode) : p.withText p.text = p := by
  cases p <;> rfl

theorem leaf_ofLeaf (classes : List String) (value : String) :
    (ofLeaf (classes, value)).leaf = (classes.eraseDups, value) := by
  rw [← mergeClasses_nil_eq_eraseDups]
  by_cases h : classes = []
  · subst h
    rfl
  · rw [ofLeaf_eq_span h]
    rfl

theorem isBare_ofLeaf (leaf : List String × String) :
    (ofLeaf leaf).isBare ↔ (ofLeaf leaf).classes = [] := by
  unfold ofLeaf ofClasses
  split
  · simp [isBare, classes]
  · next h => simpa [isBare, classes] using h

theorem leaves_toNode (p : FlatNode) : p.toNode.leaves [] = [p.leaf] := by
  cases p <;> rfl

theorem leaves_map_toNode (pieces : List FlatNode) :
    Forest.leaves [] (pieces.map toNode) = pieces.map leaf := by
  induction pieces with
  | nil => rfl
  | cons p pieces ih =>
    rw [List.map_cons, Forest.leaves, leaves_toNode, ih, List.map_cons, List.singleton_append]

end FlatNode

namespace LineItem

open FlatNode (leaf)

/-- An empty piece stays if it is not bare, and another one is cut into its stretches. -/
theorem pieces_keeping (p : FlatNode) :
    pieces (keeping p) =
      if p.text = "" then if p.isBare then [] else [p]
      else ((Text.splitKeeping p.text.toList).filter (· ≠ [])).map fun part =>
        p.withText (String.ofList part) := by
  by_cases hfeed : '\n' ∈ p.text.toList
  · have hne : p.text ≠ "" := by
      intro hempty
      rw [hempty] at hfeed
      cases hfeed
    obtain ⟨line, rest, htext, hline⟩ := List.eq_append_cons_of_mem hfeed
    rw [keeping_of_eq_append hline htext, ← htext, pieces_ofParts, if_neg hne]
  · rw [keeping_of_notMem hfeed, Text.splitKeeping_eq_singleton hfeed]
    by_cases hempty : p.text = ""
    · cases p.isBare <;> simp [hempty, pieces]
    · simp [hempty, FlatNode.withText_text, pieces]

theorem exists_withText_of_mem_keeping {p q : FlatNode} (h : q ∈ pieces (keeping p)) :
    ∃ text, q = p.withText text := by
  rw [pieces_keeping] at h
  split at h
  · split at h
    · cases h
    · exact ⟨p.text, (List.mem_singleton.mp h).trans p.withText_text.symm⟩
  · obtain ⟨part, -, rfl⟩ := List.mem_map.mp h
    exact ⟨String.ofList part, rfl⟩

/-- The parts of a cut piece have its characters, each under its classes. -/
theorem flatMap_leafCells_parts (p : FlatNode) (parts : List (List Char)) :
    (((parts.filter (· ≠ [])).map fun part => p.withText (String.ofList part)).map leaf).flatMap
        leafCells = parts.flatten.map fun c => (p.classes, some c) := by
  rw [← List.flatten_filter_ne_nil, List.map_flatten, List.map_map, List.flatMap_map,
    List.flatMap_def]
  refine congrArg List.flatten (List.map_congr_left fun part hpart => ?_)
  have hne : part ≠ [] := by simpa using (List.mem_filter.mp hpart).2
  simp [leafCells, leaf, hne]

theorem flatMap_leafCells_keeping {p : FlatNode} (hbare : p.isBare ↔ p.classes = []) :
    ((pieces (keeping p)).map leaf).flatMap leafCells =
      ([p.leaf].filter (· ≠ ([], ""))).flatMap leafCells := by
  rw [pieces_keeping]
  by_cases hempty : p.text = ""
  · by_cases hclasses : p.classes = [] <;> simp [hempty, hbare, hclasses, leaf]
  · rw [if_neg hempty, flatMap_leafCells_parts, Text.flatten_splitKeeping]
    simp [hempty, leaf, leafCells]

/-- Cutting the pieces of leaves keeps the cells of all leaves but those with neither a class nor a
text. -/
theorem flatMap_leafCells_flatMap_keeping (leaves : List (List String × String)) :
    ((pieces ((leaves.map FlatNode.ofLeaf).flatMap keeping)).map leaf).flatMap leafCells =
      ((leaves.map fun leaf => (leaf.1.eraseDups, leaf.2)).filter (· ≠ ([], ""))).flatMap
        leafCells := by
  induction leaves with
  | nil => rfl
  | cons first leaves ih =>
    rw [List.map_cons, List.flatMap_cons, pieces_append, List.map_append, List.flatMap_append, ih,
      flatMap_leafCells_keeping (FlatNode.isBare_ofLeaf first), FlatNode.leaf_ofLeaf,
      ← List.flatMap_append, ← List.filter_append, List.singleton_append, List.map_cons]

end LineItem

theorem numberLines_eq_mapIdx (first : Nat) (ls : List (List FlatNode)) :
    numberLines first ls =
      (ls.map fun line => line.map FlatNode.toNode).mapIdx fun i body =>
        Node.line (first + i) body := by
  induction ls generalizing first with
  | nil => rfl
  | cons line rest ih =>
    have hnext (i : Nat) : first + 1 + i = first + (i + 1) := by omega
    rw [numberLines, ih, List.map_cons, List.mapIdx_cons]
    simp only [hnext]
    rfl

namespace Forest

/-- A child of a line is a bare text, or a text in a span with a class. -/
theorem toNode_of_mem_keptLines {f : Forest} {p : FlatNode}
    (h : p ∈ (keptLines (f.pieces [])).flatten) :
    (∃ value, p.toNode = .text value) ∨
      ∃ classes value, classes ≠ [] ∧ p.toNode = .span classes [.text value] := by
  rw [flatten_keptLines, pieces_nil_eq_map, LineItem.pieces, List.filterMap_flatMap] at h
  obtain ⟨q, hq, hp⟩ := List.mem_flatMap.mp h
  obtain ⟨⟨classes, value⟩, -, rfl⟩ := List.mem_map.mp hq
  obtain ⟨text, rfl⟩ := LineItem.exists_withText_of_mem_keeping hp
  by_cases hclasses : classes = []
  · rw [FlatNode.ofLeaf_eq_bare hclasses]
    exact .inl ⟨text, rfl⟩
  · rw [FlatNode.ofLeaf_eq_span hclasses]
    exact .inr ⟨_, text, mt mergeClasses_eq_nil_iff.mp hclasses, rfl⟩

/-- Grouping by lines gives numbered line elements, and in their bodies it keeps all characters in
order, each under the classes around it without the repeated ones, and each empty text inside a
class in its place among them. Nothing but these stands in the bodies, whose nodes are bare texts
and spans with a class and one text. -/
theorem cells_groupByLines {f lines : Forest} {limit : Option Nat}
    (h : f.groupByLines limit = .ok lines) :
    ∃ bodies : List Forest,
      lines = bodies.mapIdx (fun i body =>
        .element "span" ⟨["line"], .single "data-line-number" (.int ↑(1 + i))⟩ body) ∧
        (∀ child ∈ bodies.flatten, (∃ value, child = .text value) ∨
          ∃ classes value, classes ≠ [] ∧
            child = .element "span" ⟨classes, ∅⟩ [.text value]) ∧
        (leaves [] bodies.flatten).flatMap leafCells =
          (((f.leaves []).map fun leaf => (leaf.1.eraseDups, leaf.2)).filter
            (· ≠ ([], ""))).flatMap leafCells := by
  obtain rfl := eq_numberLines_of_groupByLines h
  have hflatten : ((keptLines (f.pieces [])).map fun line => line.map FlatNode.toNode).flatten =
      (keptLines (f.pieces [])).flatten.map FlatNode.toNode := List.map_flatten.symm
  refine ⟨_, numberLines_eq_mapIdx 1 _, ?_, ?_⟩
  · rw [hflatten]
    intro child hchild
    obtain ⟨p, hp, rfl⟩ := List.mem_map.mp hchild
    exact toNode_of_mem_keptLines hp
  · rw [hflatten, FlatNode.leaves_map_toNode, flatten_keptLines, pieces_nil_eq_map,
      LineItem.flatMap_leafCells_flatMap_keeping]

/-- A class that occurs twice around a text over two lines, with an empty text behind it, and an
empty text without a class. -/
theorem cells_groupByLines_nested :
    let f : Forest :=
      [.span ["a"] [.span ["b", "a"] [.text "x\ny", .text ""]], .text "", .text "z"]
    ∃ lines, f.groupByLines (some 4) = .ok lines ∧ ∃ bodies : List Forest,
      lines = bodies.mapIdx (fun i body =>
        .element "span" ⟨["line"], .single "data-line-number" (.int ↑(1 + i))⟩ body) ∧
        (leaves [] bodies.flatten).flatMap leafCells =
          [(["a", "b"], some 'x'), (["a", "b"], some '\n'), (["a", "b"], some 'y'),
            (["a", "b"], none), ([], some 'z')] := by
  intro f
  have succeeds : (f.groupByLines (some 4)).toBool = true := by cbv
  cases h : f.groupByLines (some 4) with
  | error e => rw [h] at succeeds; cases succeeds
  | ok lines =>
    obtain ⟨bodies, hlines, -, hcells⟩ := cells_groupByLines h
    refine ⟨lines, rfl, bodies, hlines, hcells.trans ?_⟩
    decide

end Forest

end Highlighting
