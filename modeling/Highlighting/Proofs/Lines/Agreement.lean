import Highlighting.Proofs.Lines.Cells
import Highlighting.Proofs.Text.Cutting

/-! Both ways to cut flat text into lines agree. The one keeps the line feeds and drops a last line
without a piece, the other drops the line feeds and keeps the bare empty texts. Without line feeds
and without bare empty texts they give the same lines, up to that last one. -/

namespace Highlighting

open FlatNode (joined)

/-! ### Line feeds at the end -/

namespace Text

/-- Drops one line feed from the end. -/
def dropFeed (line : List Char) : List Char :=
  if line.getLast? = some '\n' then line.dropLast else line

theorem dropFeed_of_notMem {line : List Char} (h : '\n' ∉ line) : dropFeed line = line :=
  if_neg (mt List.mem_of_getLast? h)

theorem dropFeed_append (line : List Char) : dropFeed (line ++ ['\n']) = line := by
  simp [dropFeed]

theorem dropFeed_eq_nil_iff {line : List Char} :
    dropFeed line = [] ↔ line = [] ∨ line = ['\n'] := by
  unfold dropFeed
  split
  · next h =>
    obtain ⟨init, rfl⟩ := List.getLast?_eq_some_iff.mp h
    simp
  · next h =>
    constructor
    · exact .inl
    · rintro (rfl | rfl)
      · rfl
      · exact absurd rfl h

/-- No line of a text has a character that the text has not. -/
theorem subset_of_mem_split {text part : List Char} (h : part ∈ split text) : part ⊆ text := by
  induction text using line_induction with
  | last line hline =>
    rw [split_eq_singleton hline, List.mem_singleton] at h
    exact h ▸ List.Subset.refl part
  | more line rest hline ih =>
    rw [split_append_cons hline, List.mem_cons] at h
    rcases h with rfl | hrest
    · exact List.subset_append_left part _
    · intro c hc
      exact List.mem_append_right line (List.mem_cons_of_mem '\n' (ih hrest hc))

theorem split_eq_map_dropFeed (text : List Char) :
    split text = (splitKeeping text).map dropFeed := by
  induction text using line_induction with
  | last line hline =>
    rw [split_eq_singleton hline, splitKeeping_eq_singleton hline, List.map_singleton,
      dropFeed_of_notMem hline]
  | more line rest hline ih =>
    rw [split_append_cons hline, splitKeeping_append_cons hline, List.map_cons, dropFeed_append, ih]

theorem length_splitKeeping (text : List Char) :
    (splitKeeping text).length = text.count '\n' + 1 := by
  rw [← length_split, split_eq_map_dropFeed, List.length_map]

end Text

namespace FlatNode

/-- A piece without the line feed at its end, and none if it is nothing but a line feed. -/
def dropFeed? (p : FlatNode) : Option FlatNode :=
  if p.text = "\n" then none else some (p.withText (String.ofList (Text.dropFeed p.text.toList)))

/-- A piece that is not a bare empty text. -/
def isVisible (p : FlatNode) : Bool := !(p.isBare && p.text == "")

theorem withText_withText (p : FlatNode) (text text' : String) :
    (p.withText text').withText text = p.withText text := by
  cases p <;> rfl

theorem dropFeed?_of_notMem {p : FlatNode} (h : '\n' ∉ p.text.toList) : p.dropFeed? = some p := by
  have hne : p.text ≠ "\n" := by
    intro heq
    rw [heq] at h
    exact h (List.mem_singleton_self _)
  rw [dropFeed?, if_neg hne, Text.dropFeed_of_notMem h, String.ofList_toList, withText_text]

end FlatNode

/-! ### Items -/

namespace LineItem

/-- What a way to change pieces makes of an item. Line ends stay. -/
def onPiece (g : FlatNode → Option FlatNode) : LineItem → Option LineItem
  | fragment piece => (g piece).map fragment
  | lineEnd => some lineEnd

/-- The pieces of lines may be changed before the items are cut into lines. -/
theorem lines_filterMap_onPiece (g : FlatNode → Option FlatNode) (items : List LineItem) :
    lines (items.filterMap (onPiece g)) = (lines items).map (List.filterMap g) := by
  induction items with
  | nil => rfl
  | cons item items ih =>
    cases item with
    | lineEnd =>
      have hend : onPiece g lineEnd = some lineEnd := rfl
      rw [List.filterMap_cons_some hend, lines, ih, lines, List.map_cons, List.filterMap_nil]
    | fragment piece =>
      rw [lines_fragment]
      cases hlines : lines items with
      | nil => exact absurd hlines (lines_ne_nil items)
      | cons line more =>
        rw [hlines, List.map_cons] at ih
        cases hg : g piece with
        | none => simp [onPiece, hg, ih]
        | some q => simp [onPiece, hg, lines_fragment, ih]

theorem filterMap_fragmentOf_dropFeed (piece : FlatNode) (part : List Char) :
    (ofParts.fragmentOf piece part).filterMap (onPiece FlatNode.dropFeed?) =
      ofParts.fragmentOf piece (Text.dropFeed part) := by
  by_cases hpart : part = [] ∨ part = ['\n']
  · rw [Text.dropFeed_eq_nil_iff.mpr hpart]
    rcases hpart with rfl | rfl
    · rfl
    · simp [ofParts.fragmentOf, onPiece, FlatNode.dropFeed?]
  · have hdrop : Text.dropFeed part ≠ [] := mt Text.dropFeed_eq_nil_iff.mp hpart
    obtain ⟨hne, hfeed⟩ := not_or.mp hpart
    have htext : String.ofList part ≠ "\n" := by
      intro heq
      exact hfeed (String.ofList_injective heq)
    simp [ofParts.fragmentOf, hne, hdrop, onPiece, FlatNode.dropFeed?, htext,
      FlatNode.withText_withText]

theorem filterMap_fragmentOf_visible (piece : FlatNode) (part : List Char) :
    (ofParts.fragmentOf piece part).filterMap (onPiece (Option.guard FlatNode.isVisible)) =
      ofParts.fragmentOf piece part := by
  by_cases hpart : part = []
  · subst hpart
    rfl
  · simp [ofParts.fragmentOf, hpart, onPiece, Option.guard, FlatNode.isVisible]

theorem filterMap_ofParts {g : FlatNode → Option FlatNode} {change : List Char → List Char}
    (piece : FlatNode) (h : ∀ part, (ofParts.fragmentOf piece part).filterMap (onPiece g) =
      ofParts.fragmentOf piece (change part)) (parts : List (List Char)) :
    (ofParts piece parts).filterMap (onPiece g) = ofParts piece (parts.map change) := by
  induction parts with
  | nil => rfl
  | cons part rest ih =>
    by_cases hrest : rest = []
    · subst hrest
      exact h part
    · have hend : onPiece g lineEnd = some lineEnd := rfl
      have hne : rest.map change ≠ [] := by simpa using hrest
      rw [ofParts_cons piece part hrest, List.filterMap_append, List.filterMap_cons_some hend, h,
        ih, List.map_cons, ofParts_cons piece _ hne]

/-- A piece that holds a line feed is cut at it. -/
theorem dropping_of_mem {piece : FlatNode} (h : '\n' ∈ piece.text.toList) :
    dropping piece = ofParts piece (Text.split piece.text.toList) := by
  obtain ⟨line, rest, htext, hline⟩ := List.eq_append_cons_of_mem h
  unfold dropping
  rw [htext, Text.split_append_cons hline]
  cases hrest : Text.split rest with
  | nil => exact absurd hrest (Text.split_ne_nil rest)
  | cons stretch more => rfl

theorem dropping_of_notMem {piece : FlatNode} (h : '\n' ∉ piece.text.toList) :
    dropping piece = [fragment piece] := by
  unfold dropping
  rw [Text.split_eq_singleton h]

/-- Both ways to cut a piece give the same items, apart from line feeds and a bare empty text. -/
theorem filterMap_keeping (piece : FlatNode) :
    (keeping piece).filterMap (onPiece FlatNode.dropFeed?) =
      (dropping piece).filterMap (onPiece (Option.guard FlatNode.isVisible)) := by
  by_cases hfeed : '\n' ∈ piece.text.toList
  · obtain ⟨line, rest, htext, hline⟩ := List.eq_append_cons_of_mem hfeed
    rw [keeping_of_eq_append hline htext, ← htext, dropping_of_mem hfeed,
      filterMap_ofParts piece (filterMap_fragmentOf_dropFeed piece),
      filterMap_ofParts piece (filterMap_fragmentOf_visible piece), List.map_id',
      Text.split_eq_map_dropFeed]
  · have hkept : (piece.text.toList.isEmpty && piece.isBare) = !piece.isVisible := by
      rw [Bool.eq_iff_iff]
      simp [FlatNode.isVisible, and_comm]
    rw [keeping_of_notMem hfeed, dropping_of_notMem hfeed, hkept]
    cases hvisible : piece.isVisible with
    | false => simp [onPiece, Option.guard, hvisible]
    | true => simp [onPiece, Option.guard, hvisible, FlatNode.dropFeed?_of_notMem hfeed]

theorem filterMap_flatMap_keeping (flat : List FlatNode) :
    (flat.flatMap keeping).filterMap (onPiece FlatNode.dropFeed?) =
      (flat.flatMap dropping).filterMap (onPiece (Option.guard FlatNode.isVisible)) := by
  rw [List.filterMap_flatMap, List.filterMap_flatMap]
  exact List.flatMap_congr fun piece _ => filterMap_keeping piece

end LineItem

/-! ### Lines -/

/-- A line is dropped if and only if there are only as many kept lines as line feeds. -/
theorem lines_flatMap_keeping (flat : List FlatNode) :
    LineItem.lines (flat.flatMap LineItem.keeping) =
      keptLines flat ++
        if (keptLines flat).length = (joined flat).count '\n' then [[]] else [] := by
  have hcount : (LineItem.lines (flat.flatMap LineItem.keeping)).length =
      (joined flat).count '\n' + 1 := by
    rw [← Text.length_splitKeeping, ← LineItem.map_joined_lines_flatMap_keeping, List.length_map]
  unfold keptLines
  dsimp only
  split
  · next hlast =>
    obtain ⟨init, hinit⟩ := List.getLast?_eq_some_iff.mp hlast
    rw [hinit, List.length_append, List.length_singleton] at hcount
    rw [hinit, List.dropLast_concat, if_pos (Nat.succ.inj hcount)]
  · have hne : (LineItem.lines (flat.flatMap LineItem.keeping)).length ≠
        (joined flat).count '\n' := by omega
    rw [if_neg hne, List.append_nil]

theorem map_filter_splitLines (flat : List FlatNode) :
    (splitLines flat).map (·.filter FlatNode.isVisible) =
      (LineItem.lines (flat.flatMap LineItem.keeping)).map (·.filterMap FlatNode.dropFeed?) := by
  have hfilter :
      List.filter FlatNode.isVisible = List.filterMap (Option.guard FlatNode.isVisible) :=
    List.filterMap_eq_filter.symm
  calc
    (splitLines flat).map (List.filter FlatNode.isVisible)
        = (LineItem.lines (flat.flatMap LineItem.dropping)).map
            (List.filterMap (Option.guard FlatNode.isVisible)) := by rw [hfilter, splitLines]
    _ = LineItem.lines ((flat.flatMap LineItem.dropping).filterMap
          (LineItem.onPiece (Option.guard FlatNode.isVisible))) :=
        (LineItem.lines_filterMap_onPiece _ _).symm
    _ = LineItem.lines ((flat.flatMap LineItem.keeping).filterMap
          (LineItem.onPiece FlatNode.dropFeed?)) := by rw [LineItem.filterMap_flatMap_keeping]
    _ = (LineItem.lines (flat.flatMap LineItem.keeping)).map (List.filterMap FlatNode.dropFeed?) :=
        LineItem.lines_filterMap_onPiece _ _

/-- Grouping by lines and splitting into lines agree for every forest. The kept lines are the
children of the line elements that grouping gives. Without the line feeds at the
ends of the fragments that grouping gives, and without the bare empty texts that splitting gives,
the lines are the same, up to an empty one that splitting gives at the end where grouping has a line
for each line feed and none behind the last. -/
theorem groupByLines_agrees_splitLines (f : Forest) :
    ∃ (kept : List (List FlatNode)) (flat : List FlatNode),
      f.groupByLines none = .ok ((kept.map (·.map FlatNode.toNode)).mapIdx fun i body =>
        .element "span" ⟨["line"], .single "data-line-number" (.int ↑(1 + i))⟩ body) ∧
      f.flatten none = .ok flat ∧
      (splitLines flat).map (·.filter FlatNode.isVisible) =
        kept.map (·.filterMap FlatNode.dropFeed?) ++
          if kept.length = f.content.toList.count '\n' then [[]] else [] := by
  refine ⟨keptLines (f.pieces []), f.pieces [], ?_, f.flatten_none, ?_⟩
  · rw [f.groupByLines_none, numberLines_eq_mapIdx]
    rfl
  · rw [map_filter_splitLines, lines_flatMap_keeping, List.map_append, Forest.joined_pieces]
    split <;> rfl

end Highlighting
