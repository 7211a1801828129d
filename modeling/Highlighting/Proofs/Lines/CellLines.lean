import Highlighting.Proofs.Lines.Agreement

/-! The cells of the lines that flat text is split into. They are the cells of the whole text, cut
at those that hold a line feed, so that no class moves from one line to another. -/

namespace Highlighting

/-! ### Cutting lists -/

section Cut

variable {α β : Type} {p : α → Bool} {q : β → Bool}

/-- What holds no separator goes before the first stretch of what follows. -/
theorem splitOnP_append_of_forall_mem {before : List α} (h : ∀ x ∈ before, p x = false)
    (rest : List α) :
    (before ++ rest).splitOnP p = (rest.splitOnP p).modifyHead (before ++ ·) := by
  induction before with
  | nil => exact (congrFun List.modifyHead_id _).symm
  | cons x before ih =>
    obtain ⟨hx, hbefore⟩ := List.forall_mem_cons.mp h
    rw [List.cons_append, List.splitOnP_cons_eq_if_modifyHead, hx, if_neg Bool.false_ne_true,
      ih hbefore, List.modifyHead_modifyHead]
    rfl

/-- Replacing elements commutes with cutting where separators stay separators and others bring
none. -/
theorem splitOnP_flatMap {g : α → List β} (hsep : ∀ x, p x = true → ∃ y, g x = [y] ∧ q y = true)
    (hother : ∀ x, p x = false → ∀ y ∈ g x, q y = false) (xs : List α) :
    (xs.flatMap g).splitOnP q = (xs.splitOnP p).map (List.flatMap g) := by
  induction xs with
  | nil => simp [List.splitOnP_nil]
  | cons x xs ih =>
    rw [List.flatMap_cons, List.splitOnP_cons_eq_if_modifyHead]
    cases hx : p x with
    | true =>
      obtain ⟨y, hy, hq⟩ := hsep x hx
      rw [hy, List.singleton_append, List.splitOnP_cons_eq_if_modifyHead, if_pos hq, if_pos rfl, ih,
        List.map_cons, List.flatMap_nil]
    | false =>
      rw [splitOnP_append_of_forall_mem (hother x hx), if_neg Bool.false_ne_true, ih]
      cases xs.splitOnP p <;> rfl

end Cut

/-! ### Cells -/

/-- The cells of pieces in order. -/
def FlatNode.cells (flat : List FlatNode) : List (List String × Option Char) :=
  flat.flatMap fun p => leafCells p.leaf

/-- A cell that holds a line feed. -/
def isFeed (cell : List String × Option Char) : Bool := cell.2 == some '\n'

theorem leafCells_of_ne_nil (classes : List String) {value : String} (h : value.toList ≠ []) :
    leafCells (classes, value) = value.toList.map fun c => (classes, some c) :=
  if_neg fun hempty => h (String.toList_eq_nil_iff.mpr hempty)

theorem isFeed_of_mem_map {classes : List String} {line : List Char} (h : '\n' ∉ line) :
    ∀ cell ∈ line.map fun c => (classes, some c), isFeed cell = false := by
  intro cell hcell
  obtain ⟨c, hc, rfl⟩ := List.mem_map.mp hcell
  have hne : c ≠ '\n' := fun heq => h (heq ▸ hc)
  simpa [isFeed] using hne

theorem isFeed_of_mem_leafCells {leaf : List String × String} (h : '\n' ∉ leaf.2.toList) :
    ∀ cell ∈ leafCells leaf, isFeed cell = false := by
  unfold leafCells
  split
  · intro cell hcell
    obtain rfl := List.mem_singleton.mp hcell
    rfl
  · exact isFeed_of_mem_map h

namespace Forest

/-- The characters and empty texts of a forest in order, each with the classes around it. -/
def cells (f : Forest) : List (List String × Option Char) := (f.leaves []).flatMap leafCells

theorem cells_map_toNode (pieces : List FlatNode) :
    cells (pieces.map FlatNode.toNode) = FlatNode.cells pieces := by
  rw [cells, FlatNode.leaves_map_toNode, List.flatMap_map, FlatNode.cells]

theorem filterMap_cells (f : Forest) : f.cells.filterMap Prod.snd = f.content.toList := by
  have hleaf (leaf : List String × String) :
      (leafCells leaf).filterMap Prod.snd = leaf.2.toList := by
    unfold leafCells
    split
    · next h => simp [h]
    · simp [List.filterMap_map]
  rw [← joined_pieces [] f, pieces_nil_eq_map, FlatNode.joined, List.flatMap_map, cells,
    List.filterMap_flatMap]
  simp only [hleaf, FlatNode.text_ofLeaf]

/-- How many texts of a forest are empty. -/
def emptyCount (f : Forest) : Nat := (f.leaves []).countP (·.2 = "")

theorem countP_cells (f : Forest) : f.cells.countP (·.2.isNone) = f.emptyCount := by
  rw [cells, emptyCount]
  induction f.leaves [] with
  | nil => rfl
  | cons leaf leaves ih =>
    rw [List.flatMap_cons, List.countP_append, List.countP_cons, ih, Nat.add_comm]
    congr 1
    unfold leafCells
    split
    · next h => simp [h]
    · next h => simp [h, List.countP_map, Function.comp_def]

end Forest

namespace LineItem

open FlatNode (cells)

variable {items : List LineItem}

theorem map_cells_lines_fragmentOf (piece : FlatNode) (part : List Char) (items : List LineItem) :
    (lines (ofParts.fragmentOf piece part ++ items)).map cells =
      ((lines items).map cells).modifyHead ((part.map fun c => (piece.classes, some c)) ++ ·) := by
  by_cases hpart : part = []
  · subst hpart
    exact (congrFun List.modifyHead_id _).symm
  · have hcells : leafCells (piece.withText (String.ofList part)).leaf =
        part.map fun c => (piece.classes, some c) := by
      rw [FlatNode.leaf, FlatNode.classes_withText, FlatNode.text_withText,
        leafCells_of_ne_nil _ (by simpa using hpart), String.toList_ofList]
    have hfragment : ofParts.fragmentOf piece part =
        [fragment (piece.withText (String.ofList part))] := by
      simp [ofParts.fragmentOf, hpart]
    rw [hfragment, List.singleton_append, ← hcells]
    exact map_flatMap_lines_fragment _ _ items

/-- Whatever items stand behind the lines of a text, the last of these goes on in their first. -/
theorem map_cells_lines_ofParts (piece : FlatNode) (text : List Char)
    {behind : List (List String × Option Char)}
    (h : (lines items).map cells = behind.splitOnP isFeed) :
    (lines (ofParts piece (Text.split text) ++ items)).map cells =
      ((text.map fun c => (piece.classes, some c)) ++ behind).splitOnP isFeed := by
  induction text using Text.line_induction with
  | last line hline =>
    rw [Text.split_eq_singleton hline, ofParts, map_cells_lines_fragmentOf, h,
      splitOnP_append_of_forall_mem (isFeed_of_mem_map hline)]
  | more line rest hline ih =>
    have hfeed : isFeed (piece.classes, some '\n') = true := rfl
    rw [Text.split_append_cons hline, ofParts_cons piece line (Text.split_ne_nil rest),
      List.append_assoc, List.cons_append, map_cells_lines_fragmentOf, lines, List.map_cons, ih,
      List.map_append, List.map_cons, List.append_assoc, List.cons_append,
      List.splitOnP_append_cons_of_forall_mem (isFeed_of_mem_map hline) _ hfeed,
      List.modifyHead_cons]
    exact congrArg (· :: _) (List.append_nil _)

theorem map_cells_lines_dropping (piece : FlatNode) {behind : List (List String × Option Char)}
    (h : (lines items).map cells = behind.splitOnP isFeed) :
    (lines (dropping piece ++ items)).map cells =
      (leafCells piece.leaf ++ behind).splitOnP isFeed := by
  by_cases hfeed : '\n' ∈ piece.text.toList
  · have hne : piece.text.toList ≠ [] := List.ne_nil_of_mem hfeed
    rw [dropping_of_mem hfeed, map_cells_lines_ofParts piece _ h, FlatNode.leaf,
      leafCells_of_ne_nil _ hne]
  · rw [dropping_of_notMem hfeed, splitOnP_append_of_forall_mem (isFeed_of_mem_leafCells hfeed),
      ← h]
    exact map_flatMap_lines_fragment _ piece items

end LineItem

/-- The lines of flat text hold its cells between line feeds. -/
theorem map_cells_splitLines (flat : List FlatNode) :
    (splitLines flat).map FlatNode.cells = (FlatNode.cells flat).splitOnP isFeed := by
  unfold splitLines
  induction flat with
  | nil => rfl
  | cons piece flat ih => exact LineItem.map_cells_lines_dropping piece ih

/-- A piece of a line is a piece of the whole, or holds some characters of one with line feeds. -/
theorem exists_of_mem_splitLines {flat line : List FlatNode} {p : FlatNode}
    (hline : line ∈ splitLines flat) (hp : p ∈ line) :
    ∃ whole ∈ flat, p = whole ∨ '\n' ∈ whole.text.toList ∧ p.text.toList ⊆ whole.text.toList := by
  have hpieces : p ∈ LineItem.pieces (flat.flatMap LineItem.dropping) := by
    rw [← LineItem.flatten_lines]
    exact List.mem_flatten_of_mem hline hp
  rw [LineItem.pieces, List.filterMap_flatMap] at hpieces
  obtain ⟨whole, hwhole, hcut⟩ := List.mem_flatMap.mp hpieces
  change p ∈ LineItem.pieces (LineItem.dropping whole) at hcut
  refine ⟨whole, hwhole, ?_⟩
  by_cases hfeed : '\n' ∈ whole.text.toList
  · rw [LineItem.dropping_of_mem hfeed, LineItem.pieces_ofParts] at hcut
    obtain ⟨part, hpart, rfl⟩ := List.mem_map.mp hcut
    have hsubset := Text.subset_of_mem_split (List.mem_filter.mp hpart).1
    exact .inr ⟨hfeed, by simpa using hsubset⟩
  · rw [LineItem.dropping_of_notMem hfeed] at hcut
    exact .inl (List.mem_singleton.mp hcut)

end Highlighting
