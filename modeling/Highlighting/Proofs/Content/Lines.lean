import Highlighting.Node.Lines
import Highlighting.Proofs.Content.Pieces

/-! Flattening a forest and regrouping it by lines keep its text. Empty parts of a cut piece are
dropped, so the statements are about joined texts and not about the pieces themselves. -/

namespace Highlighting

/-- The texts of pieces, joined. -/
def FlatNode.joined (pieces : List FlatNode) : List Char := pieces.flatMap fun p => p.text.toList

namespace FlatNode

@[simp] theorem joined_nil : joined [] = [] := rfl

@[simp] theorem joined_cons (p : FlatNode) (pieces : List FlatNode) :
    joined (p :: pieces) = p.text.toList ++ joined pieces := rfl

@[simp] theorem joined_append (a b : List FlatNode) : joined (a ++ b) = joined a ++ joined b :=
  List.flatMap_append

@[simp] theorem text_ofClasses (classes : List String) (text : String) :
    (ofClasses classes text).text = text := by
  unfold ofClasses
  split <;> rfl

@[simp] theorem text_withText (text : String) (p : FlatNode) : (p.withText text).text = text := by
  cases p <;> rfl

@[simp] theorem content_toNode (p : FlatNode) : p.toNode.content = p.text := by
  cases p with
  | bare text => rfl
  | span classes text => simp [toNode, Node.span, Node.content, Forest.content, FlatNode.text]

end FlatNode

open FlatNode (joined)

theorem content_map_toNode (pieces : List FlatNode) :
    (Forest.content (pieces.map FlatNode.toNode)).toList = joined pieces := by
  induction pieces with
  | nil => rfl
  | cons p pieces ih => simp [Forest.content, ih]

/-! ### Flattening -/

mutual

theorem Node.joined_pieces (context : List String) :
    ∀ n : Node, joined (n.pieces context) = n.content.toList
  | .text _ => by simp [Node.pieces, Node.content]
  | .element _ _ children => Forest.joined_pieces _ children

/-- The pieces of a forest join to its text, whatever is around it. -/
theorem Forest.joined_pieces (context : List String) :
    ∀ f : Forest, joined (f.pieces context) = (Forest.content f).toList
  | [] => rfl
  | n :: rest => by
    simp [Forest.pieces, Forest.content, Node.joined_pieces context n,
      Forest.joined_pieces context rest]

end

theorem Text.flatten_splitKeeping (text : List Char) : (splitKeeping text).flatten = text := by
  induction text with
  | nil => rfl
  | cons c cs ih =>
    unfold splitKeeping
    split
    · simp [ih]
    · split
      · next h => rw [h] at ih; simp_all
      · next h => rw [h] at ih; simpa using ih

namespace LineItem

/-- The pieces between line ends. -/
def pieces (items : List LineItem) : List FlatNode :=
  items.filterMap fun
    | fragment piece => some piece
    | lineEnd => none

@[simp] theorem pieces_append (a b : List LineItem) : pieces (a ++ b) = pieces a ++ pieces b :=
  List.filterMap_append

theorem lines_ne_nil (items : List LineItem) : lines items ≠ [] := by
  induction items with
  | nil => exact List.cons_ne_nil _ _
  | cons item rest ih =>
    cases item with
    | lineEnd => exact List.cons_ne_nil _ _
    | fragment piece =>
      unfold lines
      split <;> exact List.cons_ne_nil _ _

theorem lines_fragment (piece : FlatNode) (items : List LineItem) :
    lines (fragment piece :: items) = (lines items).modifyHead (piece :: ·) := by
  rw [lines]
  split
  · next h => exact absurd h (lines_ne_nil items)
  · next h => rw [h, List.modifyHead_cons]

theorem flatten_lines (items : List LineItem) : (lines items).flatten = pieces items := by
  induction items with
  | nil => rfl
  | cons item rest ih =>
    cases item with
    | lineEnd => simpa [lines, pieces] using ih
    | fragment piece =>
      have hp : pieces (fragment piece :: rest) = piece :: pieces rest := rfl
      unfold lines
      rw [hp, ← ih]
      split
      · next h => simp [h]
      · next h => simp [h]

theorem pieces_fragmentOf (piece : FlatNode) (part : List Char) :
    pieces (ofParts.fragmentOf piece part) =
      ([part].filter (· ≠ [])).map fun part => piece.withText (String.ofList part) := by
  unfold ofParts.fragmentOf
  cases part <;> rfl

/-- The pieces of a cut piece are its parts that are not empty. -/
theorem pieces_ofParts (piece : FlatNode) (parts : List (List Char)) :
    pieces (ofParts piece parts) =
      (parts.filter (· ≠ [])).map fun part => piece.withText (String.ofList part) := by
  induction parts with
  | nil => rfl
  | cons part rest ih =>
    cases rest with
    | nil => exact pieces_fragmentOf piece part
    | cons next more =>
      have hend : pieces (lineEnd :: ofParts piece (next :: more)) =
        pieces (ofParts piece (next :: more)) := rfl
      unfold ofParts
      rw [pieces_append, pieces_fragmentOf, hend, ih, ← List.map_append, ← List.filter_append,
        List.singleton_append]

theorem joined_ofParts (piece : FlatNode) (parts : List (List Char)) :
    joined (pieces (ofParts piece parts)) = parts.flatten := by
  rw [pieces_ofParts, FlatNode.joined, List.flatMap_map]
  simp only [FlatNode.text_withText, String.toList_ofList, List.flatMap_id',
    List.flatten_filter_ne_nil]

theorem joined_keeping (piece : FlatNode) :
    joined (pieces (keeping piece)) = piece.text.toList := by
  have hsplit := Text.flatten_splitKeeping piece.text.toList
  unfold keeping
  split
  · next part h =>
    have hpart : part = piece.text.toList := by simpa [h] using hsplit
    split
    · next hempty =>
      have : piece.text.toList = [] := by
        rw [← hpart]
        simpa using (Bool.and_eq_true_iff.mp hempty).1
      simp [pieces, this]
    · simp [pieces]
  · rw [joined_ofParts, hsplit]

theorem joined_flatMap_keeping (flat : List FlatNode) :
    joined (pieces (flat.flatMap keeping)) = joined flat := by
  induction flat with
  | nil => rfl
  | cons piece flat ih => simp [joined_keeping, ih]

end LineItem

theorem dropLast_flatten_of_getLast? {α : Type} {lines : List (List α)}
    (h : lines.getLast? = some []) : lines.dropLast.flatten = lines.flatten := by
  obtain ⟨init, rfl⟩ := List.getLast?_eq_some_iff.mp h
  simp

theorem flatten_keptLines (flat : List FlatNode) :
    (keptLines flat).flatten = LineItem.pieces (flat.flatMap LineItem.keeping) := by
  rw [← LineItem.flatten_lines]
  unfold keptLines
  dsimp only
  split
  · next h => exact dropLast_flatten_of_getLast? h
  · rfl

/-- Nothing is lost between the kept lines. -/
theorem joined_keptLines (flat : List FlatNode) :
    joined (keptLines flat).flatten = joined flat := by
  rw [flatten_keptLines, LineItem.joined_flatMap_keeping]

theorem content_numberLines (first : Nat) (lines : List (List FlatNode)) :
    (Forest.content (numberLines first lines)).toList = joined lines.flatten := by
  induction lines generalizing first with
  | nil => rfl
  | cons line rest ih =>
    have hline : (Node.line first (line.map FlatNode.toNode)).content.toList = joined line :=
      content_map_toNode line
    simp [numberLines, Forest.content, hline, ih]

namespace Forest

theorem groupByLines_none (f : Forest) :
    f.groupByLines none = .ok (numberLines 1 (keptLines (f.pieces []))) := by
  rw [groupByLines, flatten_none]
  rfl

theorem groupByLines_some (f : Forest) (limit : Nat) : f.groupByLines (some limit) =
    if f.leafCount ≤ limit then .ok (numberLines 1 (keptLines (f.pieces [])))
    else .error ⟨limit, limit + 1⟩ := by
  rw [groupByLines, flatten_some]
  split <;> rfl

end Forest

/-- What grouping gives, if the limit admits it, does not depend on the limit. -/
theorem Forest.eq_numberLines_of_groupByLines {f g : Forest} {limit : Option Nat}
    (h : f.groupByLines limit = .ok g) : g = numberLines 1 (keptLines (f.pieces [])) := by
  cases limit with
  | none => exact (Except.ok.inj (f.groupByLines_none.symm.trans h)).symm
  | some limit =>
    rw [groupByLines_some] at h
    split at h
    · exact (Except.ok.inj h).symm
    · cases h

/-- A forest and its lines have the same text. -/
theorem Forest.content_groupByLines {f g : Forest} {limit : Option Nat}
    (h : f.groupByLines limit = .ok g) : g.content = f.content := by
  rw [← String.toList_inj, eq_numberLines_of_groupByLines h, content_numberLines, joined_keptLines,
    joined_pieces]

end Highlighting
