import Highlighting.Proofs.Diff.Sides
import Highlighting.Proofs.Diff.Whitespace
import Highlighting.Proofs.Lines.CellLines

/-! What showing white space adds to the lines of a diff. The lines with and without it have the
same characters; a space or tab has one class more and an empty text behind it, and everything else
is as it was. This goes through a forest text by text, through flattening as equal class lists merge
equally, and through cutting since no line feed is made or lost. -/

namespace Highlighting

/-! ### Cells -/

/-- A class list with a class at its end, unless the class is in it. -/
def withClass (classes : List String) (c : String) : List String :=
  if c ∈ classes then classes else classes ++ [c]

/-- What showing white space makes of a cell: a space or tab gets its class, and an empty text
behind it that has the classes it had before. -/
def revealCell : List String × Option Char → List (List String × Option Char)
  | (classes, none) => [(classes, none)]
  | (classes, some c) =>
    if c = ' ' then [(withClass classes spaceClass, some c), (classes, none)]
    else if c = '\t' then [(withClass classes tabClass, some c), (classes, none)]
    else [(classes, some c)]

theorem revealCell_of_visible {c : Char} {visible : String} (h : visibleClass? c = some visible)
    (classes : List String) :
    revealCell (classes, some c) = [(withClass classes visible, some c), (classes, none)] := by
  unfold visibleClass? at h
  unfold revealCell
  split at h
  · next hspace =>
    obtain rfl := Option.some.inj h
    simp [hspace]
  · next hspace =>
    split at h
    · next htab =>
      obtain rfl := Option.some.inj h
      simp [htab]
    · cases h

theorem revealCell_of_not_visible {c : Char} (h : isSpaceOrTab c = false) (classes : List String) :
    revealCell (classes, some c) = [(classes, some c)] := by
  have hc : c ≠ ' ' ∧ c ≠ '\t' := by simpa [isSpaceOrTab] using h
  simp [revealCell, hc]

/-- A cell with a space or tab is shown as two cells, and another one stays. -/
theorem revealCell_cases (cell : List String × Option Char) :
    (∃ classes c visible, cell = (classes, some c) ∧ isSpaceOrTab c = true ∧
      revealCell cell = [(withClass classes visible, some c), (classes, none)]) ∨
    (∀ c, cell.2 = some c → isSpaceOrTab c = false) ∧ revealCell cell = [cell] := by
  obtain ⟨classes, _ | c⟩ := cell
  · exact .inr ⟨fun c hc => (by cases hc), rfl⟩
  · cases hvisible : visibleClass? c with
    | some visible =>
      exact .inl ⟨classes, c, visible, rfl, isSpaceOrTab_of_visibleClass? hvisible,
        revealCell_of_visible hvisible classes⟩
    | none =>
      have hc := visibleClass?_eq_none_iff.mp hvisible
      refine .inr ⟨fun d hd => ?_, revealCell_of_not_visible hc classes⟩
      obtain rfl := Option.some.inj hd
      exact hc

theorem filterMap_revealCell (cell : List String × Option Char) :
    (revealCell cell).filterMap Prod.snd = cell.2.toList := by
  rcases revealCell_cases cell with ⟨classes, c, visible, rfl, -, hshown⟩ | ⟨-, hshown⟩
  · rw [hshown]
    rfl
  · rw [hshown, List.filterMap_cons]
    cases cell.2 <;> rfl

theorem countP_revealCell (cell : List String × Option Char) :
    (revealCell cell).countP (·.2.isNone) =
      (if cell.2.isNone then 1 else 0) + cell.2.toList.countP isSpaceOrTab := by
  rcases revealCell_cases cell with ⟨classes, c, visible, rfl, hc, hshown⟩ | ⟨hother, hshown⟩
  · simp [hshown, hc]
  · have hnone : cell.2.toList.countP isSpaceOrTab = 0 :=
      List.countP_eq_zero.mpr fun c hc => by simp [hother c (Option.mem_toList.mp hc)]
    rw [hshown, hnone, List.countP_singleton, Nat.add_zero]

theorem filterMap_flatMap_revealCell (cells : List (List String × Option Char)) :
    (cells.flatMap revealCell).filterMap Prod.snd = cells.filterMap Prod.snd := by
  induction cells with
  | nil => rfl
  | cons cell cells ih =>
    rw [List.flatMap_cons, List.filterMap_append, filterMap_revealCell, ih, List.filterMap_cons]
    cases cell.2 <;> rfl

theorem countP_flatMap_revealCell (cells : List (List String × Option Char)) :
    (cells.flatMap revealCell).countP (·.2.isNone) =
      cells.countP (·.2.isNone) + (cells.filterMap Prod.snd).countP isSpaceOrTab := by
  induction cells with
  | nil => rfl
  | cons cell cells ih =>
    rw [List.flatMap_cons, List.countP_append, countP_revealCell, ih, List.countP_cons,
      List.filterMap_cons]
    cases cell.2 with
    | none => simp; omega
    | some c => simp [List.countP_cons]; omega

/-! Line feeds stay. -/

theorem exists_revealCell_of_isFeed (cell : List String × Option Char) (h : isFeed cell = true) :
    ∃ shown, revealCell cell = [shown] ∧ isFeed shown = true := by
  obtain ⟨classes, value⟩ := cell
  obtain rfl : value = some '\n' := by simpa [isFeed] using h
  exact ⟨_, revealCell_of_not_visible (by decide) classes, rfl⟩

theorem isFeed_of_mem_revealCell (cell : List String × Option Char) (h : isFeed cell = false) :
    ∀ shown ∈ revealCell cell, isFeed shown = false := by
  rcases revealCell_cases cell with ⟨classes, c, visible, rfl, -, hshown⟩ | ⟨-, hshown⟩
  · rw [hshown]
    exact List.forall_mem_cons.mpr ⟨h, List.forall_mem_singleton.mpr rfl⟩
  · rw [hshown]
    exact List.forall_mem_singleton.mpr h

theorem eraseDups_append_singleton (classes : List String) (c : String) :
    (classes ++ [c]).eraseDups = withClass classes.eraseDups c := by
  rw [← mergeClasses_nil_eq_eraseDups, ← mergeClasses_append, mergeClasses_nil_eq_eraseDups]
  rfl

/-- The cells of a text once the classes around it are merged. -/
def mergedCells (leaf : List String × String) : List (List String × Option Char) :=
  leafCells (leaf.1.eraseDups, leaf.2)

theorem cells_pieces (f : Forest) :
    FlatNode.cells (f.pieces []) = (f.leaves []).flatMap mergedCells := by
  rw [FlatNode.cells, Forest.pieces_nil_eq_map, List.flatMap_map]
  exact List.flatMap_congr fun leaf _ =>
    congrArg leafCells (FlatNode.leaf_ofLeaf leaf.1 leaf.2)

/-! ### Texts -/

section Texts

variable (around : List String)

theorem leaves_leaf (text : List Char) :
    Forest.leaves around (Forest.leaf text) =
      if text = [] then [] else [(around, String.ofList text)] := by
  by_cases h : text = [] <;> simp [Forest.leaf, Forest.plain, Forest.leaves, Node.leaves, h]

theorem flatMap_mergedCells_leaf (text : List Char) :
    (Forest.leaves around (Forest.leaf text)).flatMap mergedCells =
      text.map fun c => (around.eraseDups, some c) := by
  rw [leaves_leaf]
  split
  · next h => simp [h]
  · next h => simp [mergedCells, leafCells, h]

/-- The cells of the parts of a text. Those of the run before it stay, since nothing is to be shown
in a run. -/
theorem flatMap_mergedCells_visibleParts (run cs : List Char) :
    (Forest.leaves around (visibleParts run cs)).flatMap mergedCells =
      (run.reverse.map fun c => (around.eraseDups, some c)) ++
        (cs.map fun c => (around.eraseDups, some c)).flatMap revealCell := by
  induction cs generalizing run with
  | nil => simp [visibleParts, flatMap_mergedCells_leaf]
  | cons c cs ih =>
    rw [List.map_cons, List.flatMap_cons]
    unfold visibleParts
    split
    · next visible hvisible =>
      have hmarked : mergedCells (around ++ [visible], String.singleton c) =
          [(withClass around.eraseDups visible, some c)] := by
        simp [mergedCells, leafCells, eraseDups_append_singleton]
      have hempty : mergedCells (around, "") = [(around.eraseDups, none)] := by
        simp [mergedCells, leafCells]
      rw [Forest.leaves_append, List.flatMap_append, flatMap_mergedCells_leaf,
        revealCell_of_visible hvisible]
      simp [Forest.leaves, Node.leaves, Node.span, hmarked, hempty, ih]
    · next hnone =>
      rw [ih, revealCell_of_not_visible (visibleClass?_eq_none_iff.mp hnone)]
      simp

theorem flatMap_mergedCells_visualizeText (value : String) :
    ((visualizeText value).leaves around).flatMap mergedCells =
      (mergedCells (around, value)).flatMap revealCell := by
  by_cases hblank : value.toList.countP isSpaceOrTab = 0
  · have hstay : ∀ cell ∈ mergedCells (around, value), revealCell cell = [cell] := by
      intro cell hcell
      unfold mergedCells leafCells at hcell
      split at hcell
      · obtain rfl := List.mem_singleton.mp hcell
        rfl
      · obtain ⟨c, hc, rfl⟩ := List.mem_map.mp hcell
        exact revealCell_of_not_visible (by simpa using List.countP_eq_zero.mp hblank c hc) _
    rw [visualizeText_of_countP_eq_zero hblank, List.flatMap_congr hstay, Node.leaves,
      List.flatMap_singleton, List.flatMap_singleton']
  · have hpos := Nat.pos_of_ne_zero hblank
    have hne : value.toList ≠ [] := by
      intro hnil
      simp [hnil] at hblank
    rw [visualizeText_of_countP_pos hpos, mergedCells, leafCells_of_ne_nil _ hne, Node.span,
      Node.leaves, List.append_nil, flatMap_mergedCells_visibleParts]
    rfl

end Texts

mutual

theorem Node.leaves_visualize (around : List String) : ∀ n : Node, n.visualize.leaves around =
    (n.leaves around).flatMap fun leaf => (visualizeText leaf.2).leaves leaf.1
  | .text value => by simp [Node.visualize, Node.leaves]
  | .element _ properties children =>
    Forest.leaves_visualize (around ++ properties.classes) children

/-- The texts of a shown forest, text by text. -/
theorem Forest.leaves_visualize (around : List String) : ∀ f : Forest,
    Forest.leaves around (Forest.visualize f) =
      (Forest.leaves around f).flatMap fun leaf => (visualizeText leaf.2).leaves leaf.1
  | [] => rfl
  | n :: rest => by
    rw [Forest.visualize, Forest.leaves, Forest.leaves, List.flatMap_append,
      Node.leaves_visualize around n, Forest.leaves_visualize around rest]

end

theorem cells_pieces_visualize (f : Forest) :
    FlatNode.cells (f.visualize.pieces []) =
      (FlatNode.cells (f.pieces [])).flatMap revealCell := by
  rw [cells_pieces, cells_pieces, Forest.leaves_visualize, List.flatMap_assoc, List.flatMap_assoc]
  exact List.flatMap_congr fun leaf _ => flatMap_mergedCells_visualizeText leaf.1 leaf.2

/-! ### Spaces and tabs on their own -/

/-- A text that is a space or tab, or holds none. -/
def Separated (text : List Char) : Prop := ∀ c ∈ text, isSpaceOrTab c = true → text = [c]

theorem separated_of_forall {text : List Char} (h : ∀ c ∈ text, isSpaceOrTab c = false) :
    Separated text := by
  intro c hc hblank
  rw [h c hc] at hblank
  cases hblank

theorem separated_singleton (c : Char) : Separated [c] := by
  intro d hd _
  rw [List.mem_singleton.mp hd]

/-- A part of a text with line feeds stays separated. -/
theorem Separated.of_subset {text part : List Char} (h : Separated text) (hfeed : '\n' ∈ text)
    (hpart : part ⊆ text) : Separated part := by
  intro c hc hblank
  have htext := h c (hpart hc) hblank
  rw [htext, List.mem_singleton] at hfeed
  subst hfeed
  cases hblank

theorem separated_of_mem_leaf {around : List String} {text : List Char}
    (h : ∀ c ∈ text, isSpaceOrTab c = false) :
    ∀ leaf ∈ Forest.leaves around (Forest.leaf text), Separated leaf.2.toList := by
  intro leaf hleaf
  rw [leaves_leaf] at hleaf
  split at hleaf
  · cases hleaf
  · obtain rfl := List.mem_singleton.mp hleaf
    simpa using separated_of_forall h

theorem separated_visibleParts (around : List String) {run : List Char}
    (hrun : ∀ c ∈ run, isSpaceOrTab c = false) (cs : List Char) :
    ∀ leaf ∈ Forest.leaves around (visibleParts run cs), Separated leaf.2.toList := by
  induction cs generalizing run with
  | nil => exact separated_of_mem_leaf (by simpa using hrun)
  | cons c cs ih =>
    unfold visibleParts
    split
    · intro leaf hleaf
      rw [Forest.leaves_append, List.mem_append] at hleaf
      simp only [Forest.leaves, Node.leaves, Node.span, List.append_nil, List.singleton_append,
        List.mem_cons] at hleaf
      rcases hleaf with hbefore | rfl | rfl | hbehind
      · exact separated_of_mem_leaf (by simpa using hrun) leaf hbefore
      · simpa using separated_singleton c
      · exact separated_of_forall fun d hd => absurd hd List.not_mem_nil
      · exact ih (fun d hd => absurd hd List.not_mem_nil) leaf hbehind
    · next hnone =>
      exact ih (List.forall_mem_cons.mpr ⟨visibleClass?_eq_none_iff.mp hnone, hrun⟩)

theorem separated_visualizeText (around : List String) (value : String) :
    ∀ leaf ∈ (visualizeText value).leaves around, Separated leaf.2.toList := by
  by_cases hblank : value.toList.countP isSpaceOrTab = 0
  · rw [visualizeText_of_countP_eq_zero hblank]
    intro leaf hleaf
    obtain rfl := List.mem_singleton.mp hleaf
    exact separated_of_forall (by simpa using List.countP_eq_zero.mp hblank)
  · rw [visualizeText_of_countP_pos (Nat.pos_of_ne_zero hblank)]
    exact separated_visibleParts _ (fun c hc => absurd hc List.not_mem_nil) value.toList

theorem separated_of_mem_pieces_visualize {f : Forest} {p : FlatNode}
    (h : p ∈ f.visualize.pieces []) : Separated p.text.toList := by
  rw [Forest.pieces_nil_eq_map, Forest.leaves_visualize] at h
  obtain ⟨leaf, hleaf, rfl⟩ := List.mem_map.mp h
  obtain ⟨⟨around, value⟩, -, hshown⟩ := List.mem_flatMap.mp hleaf
  rw [FlatNode.text_ofLeaf]
  exact separated_visualizeText around value leaf hshown

theorem separated_of_mem_splitLines {f : Forest} {line : List FlatNode}
    (hline : line ∈ splitLines (f.visualize.pieces [])) :
    ∀ p ∈ line, Separated p.text.toList := by
  intro p hp
  obtain ⟨whole, hwhole, rfl | ⟨hfeed, hsubset⟩⟩ := exists_of_mem_splitLines hline hp
  · exact separated_of_mem_pieces_visualize hwhole
  · exact (separated_of_mem_pieces_visualize hwhole).of_subset hfeed hsubset

/-! ### Lines -/

/-- What a line that is shown with its white space adds to the same line without. -/
structure Reveals (shown plain : Forest) : Prop where
  content_eq : shown.content = plain.content
  cells_eq : shown.cells = plain.cells.flatMap revealCell
  separated : ∀ leaf ∈ shown.leaves [], Separated leaf.2.toList
  emptyCount_eq : shown.emptyCount = plain.emptyCount + plain.content.toList.countP isSpaceOrTab

theorem Reveals.of_cells_eq {shown plain : Forest}
    (h : shown.cells = plain.cells.flatMap revealCell)
    (hseparated : ∀ leaf ∈ shown.leaves [], Separated leaf.2.toList) : Reveals shown plain where
  content_eq := by
    rw [← String.toList_inj, ← Forest.filterMap_cells, ← Forest.filterMap_cells, h,
      filterMap_flatMap_revealCell]
  cells_eq := h
  separated := hseparated
  emptyCount_eq := by
    rw [← Forest.countP_cells, ← Forest.countP_cells, h, countP_flatMap_revealCell,
      Forest.filterMap_cells]

theorem reveals_map_toNode {shown plain : List FlatNode}
    (h : FlatNode.cells shown = (FlatNode.cells plain).flatMap revealCell)
    (hseparated : ∀ p ∈ shown, Separated p.text.toList) :
    Reveals (shown.map FlatNode.toNode) (plain.map FlatNode.toNode) := by
  apply Reveals.of_cells_eq
  · rw [Forest.cells_map_toNode, Forest.cells_map_toNode, h]
  · rw [FlatNode.leaves_map_toNode]
    exact List.forall_mem_map.mpr hseparated

theorem map_cells_splitLines_visualize (f : Forest) :
    (splitLines (f.visualize.pieces [])).map FlatNode.cells =
      (splitLines (f.pieces [])).map fun line => (FlatNode.cells line).flatMap revealCell := by
  calc
    (splitLines (f.visualize.pieces [])).map FlatNode.cells
        = ((FlatNode.cells (f.pieces [])).flatMap revealCell).splitOnP isFeed := by
          rw [map_cells_splitLines, cells_pieces_visualize]
    _ = ((FlatNode.cells (f.pieces [])).splitOnP isFeed).map (List.flatMap revealCell) :=
        splitOnP_flatMap exists_revealCell_of_isFeed isFeed_of_mem_revealCell _
    _ = ((splitLines (f.pieces [])).map FlatNode.cells).map (List.flatMap revealCell) := by
        rw [map_cells_splitLines]
    _ = (splitLines (f.pieces [])).map fun line => (FlatNode.cells line).flatMap revealCell :=
        List.map_map

/-- The lines of a forest with and without its white space, one by one. -/
theorem forall₂_reveals_splitLines (f : Forest) :
    List.Forall₂ Reveals ((splitLines (f.visualize.pieces [])).map (·.map FlatNode.toNode))
      ((splitLines (f.pieces [])).map (·.map FlatNode.toNode)) := by
  have hcells := List.forall₂_eq_eq_eq ▸ map_cells_splitLines_visualize f
  rw [List.forall₂_map_left_iff, List.forall₂_map_right_iff] at hcells
  have hseparated : ∀ line ∈ splitLines (f.visualize.pieces []),
      ∀ p ∈ line, Separated p.text.toList := fun _ hline => separated_of_mem_splitLines hline
  rw [List.forall₂_map_left_iff, List.forall₂_map_right_iff]
  apply ((List.forall₂_and_left _ _).mpr ⟨hseparated, hcells⟩).imp
  rintro shown plain ⟨hline, heq⟩
  exact reveals_map_toNode heq hline

section Hunks

variable {σ : Type} [Engine σ] {s : σ} {grammar : String} {limit limit' : Nat}

theorem forall₂_reveals_of_highlightSide {side : List String} {used used' count count' : Nat}
    {shown plain : List Forest}
    (hshown : highlightSide s side grammar ⟨true, limit⟩ used = .ok (shown, count))
    (hplain : highlightSide s side grammar ⟨false, limit'⟩ used' = .ok (plain, count')) :
    List.Forall₂ Reveals shown plain := by
  by_cases hside : side = []
  · subst hside
    obtain ⟨rfl, -⟩ := Prod.mk.inj (Except.ok.inj (highlightSide_nil.symm.trans hshown))
    obtain ⟨rfl, -⟩ := Prod.mk.inj (Except.ok.inj (highlightSide_nil.symm.trans hplain))
    exact .nil
  · obtain ⟨f, flat, hforest, hflat, rfl, -⟩ := exists_of_highlightSide hside hshown
    obtain ⟨g, flat', hforest', hflat', rfl, -⟩ := exists_of_highlightSide hside hplain
    obtain rfl : f = g := Except.ok.inj (hforest.symm.trans hforest')
    obtain rfl := Forest.eq_pieces_of_flatten hflat
    obtain rfl := Forest.eq_pieces_of_flatten hflat'
    exact forall₂_reveals_splitLines f

/-- Showing white space adds to the lines of a diff and changes nothing else, line by line on both
sides. A line has the same characters. A space or tab has its class behind the classes it has
without, unless it has that class already; it is alone in its text, and the next text of the line is
an empty one under the classes that it has without. Other characters have the classes they have
without, and beside the empty texts behind spaces and tabs there are as many as without. This holds
for every engine, whatever limits admit both. -/
theorem highlightHunks_reveals {hunks : List Hunk} {shown plain : DiffTokens}
    (hshown : highlightHunks s hunks grammar ⟨true, limit⟩ = .ok shown)
    (hplain : highlightHunks s hunks grammar ⟨false, limit'⟩ = .ok plain) :
    List.Forall₂ Reveals shown.old plain.old ∧ List.Forall₂ Reveals shown.new plain.new := by
  obtain ⟨_, _, holdShown, hnewShown⟩ := exists_of_highlightHunks hshown
  obtain ⟨_, _, holdPlain, hnewPlain⟩ := exists_of_highlightHunks hplain
  exact ⟨forall₂_reveals_of_highlightSide holdShown holdPlain,
    forall₂_reveals_of_highlightSide hnewShown hnewPlain⟩

end Hunks

/-- A token that has the class of spaces already goes over a line feed; it holds a space and a tab,
and another space stands behind it. -/
theorem highlightHunks_reveals_themed :
    let e : CaptureEngine := ⟨spanningSource, ["c"], ⟨.single "tag" spaceClass⟩⟩
    let hunks : List Hunk := [⟨"", 0, 0, 1, 2, [⟨.insert, "a b"⟩, ⟨.insert, "\tc d"⟩]⟩]
    (highlightHunks e hunks "c" ⟨true, 10⟩).toOption.map (·.new.map Forest.cells) =
        some [[(["token", "space_char"], some 'a'), (["token", "space_char"], some ' '),
            (["token", "space_char"], none), (["token", "space_char"], some 'b')],
          [(["token", "space_char", "tabulator_char"], some '\t'),
            (["token", "space_char"], none), (["token", "space_char"], some 'c'),
            (["space_char"], some ' '), ([], none), ([], some 'd')]] ∧
      ∃ shown plain, highlightHunks e hunks "c" ⟨true, 10⟩ = .ok shown ∧
        highlightHunks e hunks "c" ⟨false, 10⟩ = .ok plain ∧
          List.Forall₂ Reveals shown.old plain.old ∧ List.Forall₂ Reveals shown.new plain.new := by
  intro e hunks
  have hlong : (highlightHunks e hunks "c" ⟨true, 10⟩).toBool = true := by cbv
  have hshort : (highlightHunks e hunks "c" ⟨false, 10⟩).toBool = true := by cbv
  refine ⟨by cbv, ?_⟩
  cases hshown : highlightHunks e hunks "c" ⟨true, 10⟩ with
  | error fault => rw [hshown] at hlong; cases hlong
  | ok shown =>
    cases hplain : highlightHunks e hunks "c" ⟨false, 10⟩ with
    | error fault => rw [hplain] at hshort; cases hshort
    | ok plain => exact ⟨shown, plain, rfl, rfl, highlightHunks_reveals hshown hplain⟩

end Highlighting
