import Mathlib.Data.List.Basic
import Mathlib.Data.List.Induction
import Highlighting.Proofs.Content.Lines
import Highlighting.Proofs.Text.Keeping

/-! The kept lines of flat text are the stretches of its joined text that are cut after each line
feed. The parts that cutting makes empty are dropped, and so are bare empty pieces; an empty piece
under classes stays, and behind the last line feed it makes a line in which nothing is to be
read. -/

namespace Highlighting

open FlatNode (joined)

namespace LineItem

variable {items : List LineItem}

theorem keeping_of_notMem {piece : FlatNode} (h : '\n' ∉ piece.text.toList) :
    keeping piece =
      if piece.text.toList.isEmpty && piece.isBare then [] else [fragment piece] := by
  unfold keeping
  rw [Text.splitKeeping_eq_singleton h]

/-- A piece that holds a line feed is cut behind its first line. -/
theorem keeping_of_eq_append {piece : FlatNode} {line rest : List Char} (hline : '\n' ∉ line)
    (h : piece.text.toList = line ++ '\n' :: rest) :
    keeping piece = ofParts piece (Text.splitKeeping (line ++ '\n' :: rest)) := by
  unfold keeping
  rw [h, Text.splitKeeping_append_cons hline]
  cases hrest : Text.splitKeeping rest with
  | nil => exact absurd hrest (Text.splitKeeping_ne_nil rest)
  | cons stretch more => rfl

theorem ofParts_cons (piece : FlatNode) (part : List Char) {parts : List (List Char)}
    (h : parts ≠ []) :
    ofParts piece (part :: parts) =
      ofParts.fragmentOf piece part ++ lineEnd :: ofParts piece parts := by
  cases parts with
  | nil => exact absurd rfl h
  | cons next more => rfl

/-! ### Texts of lines -/

/-- What is read off the pieces of a first line begins with what is read off the first piece. -/
theorem map_flatMap_lines_fragment {α : Type} (read : FlatNode → List α) (piece : FlatNode)
    (items : List LineItem) :
    (lines (fragment piece :: items)).map (List.flatMap read) =
      ((lines items).map (List.flatMap read)).modifyHead (read piece ++ ·) := by
  rw [lines_fragment]
  cases lines items <;> rfl

theorem map_joined_lines_fragment (piece : FlatNode) (items : List LineItem) :
    (lines (fragment piece :: items)).map joined =
      ((lines items).map joined).modifyHead (piece.text.toList ++ ·) :=
  map_flatMap_lines_fragment (fun p => p.text.toList) piece items

theorem map_joined_lines_fragmentOf (piece : FlatNode) (part : List Char)
    (items : List LineItem) :
    (lines (ofParts.fragmentOf piece part ++ items)).map joined =
      ((lines items).map joined).modifyHead (part ++ ·) := by
  unfold ofParts.fragmentOf
  split
  · next h =>
    obtain rfl := List.isEmpty_iff.mp h
    exact (congrFun List.modifyHead_id _).symm
  · rw [List.singleton_append, map_joined_lines_fragment, FlatNode.text_withText,
      String.toList_ofList]

/-- Whatever items stand behind the parts of a text, their lines go on where the text ends. -/
theorem map_joined_lines_ofParts (piece : FlatNode) (text : List Char) {behind : List Char}
    (h : (lines items).map joined = Text.splitKeeping behind) :
    (lines (ofParts piece (Text.splitKeeping text) ++ items)).map joined =
      Text.splitKeeping (text ++ behind) := by
  induction text using Text.line_induction with
  | last line hline =>
    rw [Text.splitKeeping_eq_singleton hline, ofParts, map_joined_lines_fragmentOf, h,
      Text.splitKeeping_append hline]
  | more line rest hline ih =>
    have hparts := ofParts_cons piece (line ++ ['\n']) (Text.splitKeeping_ne_nil rest)
    have hbehind : (line ++ '\n' :: rest) ++ behind = line ++ '\n' :: (rest ++ behind) :=
      List.append_assoc line _ behind
    rw [Text.splitKeeping_append_cons hline, hparts, List.append_assoc, List.cons_append,
      map_joined_lines_fragmentOf, lines, List.map_cons, ih, List.modifyHead_cons, hbehind,
      Text.splitKeeping_append_cons hline, FlatNode.joined_nil, List.append_nil]

theorem map_joined_lines_keeping (piece : FlatNode) {behind : List Char}
    (h : (lines items).map joined = Text.splitKeeping behind) :
    (lines (keeping piece ++ items)).map joined =
      Text.splitKeeping (piece.text.toList ++ behind) := by
  by_cases hfeed : '\n' ∈ piece.text.toList
  · obtain ⟨line, rest, htext, hline⟩ := List.eq_append_cons_of_mem hfeed
    rw [keeping_of_eq_append hline htext, map_joined_lines_ofParts piece _ h, htext]
  · rw [keeping_of_notMem hfeed, Text.splitKeeping_append hfeed, ← h]
    split
    · next hempty =>
      obtain ⟨hnil, -⟩ := Bool.and_eq_true_iff.mp hempty
      rw [List.isEmpty_iff.mp hnil]
      exact (congrFun List.modifyHead_id _).symm
    · exact map_joined_lines_fragment piece items

/-- The lines of cut pieces are the stretches of their joined text. -/
theorem map_joined_lines_flatMap_keeping (flat : List FlatNode) :
    (lines (flat.flatMap keeping)).map joined = Text.splitKeeping (joined flat) := by
  induction flat with
  | nil => rfl
  | cons piece flat ih => exact map_joined_lines_keeping piece ih

/-! ### The last line -/

theorem lines_append_lineEnd (items : List LineItem) :
    lines (items ++ [lineEnd]) = lines items ++ [[]] := by
  induction items with
  | nil => rfl
  | cons item items ih =>
    cases item with
    | lineEnd => rw [List.cons_append, lines, ih, lines, List.cons_append]
    | fragment piece =>
      rw [List.cons_append, lines_fragment, ih, lines_fragment]
      cases hlines : lines items with
      | nil => exact absurd hlines (lines_ne_nil items)
      | cons line more => rfl

theorem exists_lines_append_fragment (items : List LineItem) (piece : FlatNode) :
    ∃ init last, lines (items ++ [fragment piece]) = init ++ [last ++ [piece]] := by
  induction items with
  | nil => exact ⟨[], [], rfl⟩
  | cons item items ih =>
    obtain ⟨init, last, hlines⟩ := ih
    cases item with
    | lineEnd => exact ⟨[] :: init, last, by rw [List.cons_append, lines, hlines]; rfl⟩
    | fragment first =>
      rw [List.cons_append, lines_fragment, hlines]
      cases init with
      | nil => exact ⟨[], first :: last, rfl⟩
      | cons line init => exact ⟨(first :: line) :: init, last, rfl⟩

/-- A last item that lies within the last line. -/
def EndsWithin (items : List LineItem) : Prop := ∃ piece, items.getLast? = some (fragment piece)

/-- The last line is empty if and only if no item stands behind the last line end. -/
theorem getLast?_lines_iff (items : List LineItem) :
    (lines items).getLast? = some [] ↔ ¬ EndsWithin items := by
  induction items using List.reverseRecOn with
  | nil => simp [lines, EndsWithin]
  | append_singleton items item _ =>
    cases item with
    | lineEnd => simp [lines_append_lineEnd, EndsWithin]
    | fragment piece =>
      obtain ⟨init, last, hlines⟩ := exists_lines_append_fragment items piece
      simp [hlines, EndsWithin]

theorem endsWithin_append_singleton (items : List LineItem) (item : LineItem) :
    EndsWithin (items ++ [item]) ↔ ∃ piece, item = fragment piece := by
  simp [EndsWithin]

/-- The parts of a text that a line feed ends are followed by a line end. -/
theorem exists_ofParts_eq (piece : FlatNode) {text : List Char} (h : Text.Terminated text)
    (hne : text ≠ []) :
    ∃ items, ofParts piece (Text.splitKeeping text) = items ++ [lineEnd] := by
  induction text using Text.line_induction with
  | last line hline => exact absurd h (Text.not_terminated hne hline)
  | more line rest hline ih =>
    rw [Text.splitKeeping_append_cons hline, ofParts_cons piece _ (Text.splitKeeping_ne_nil rest)]
    by_cases hrest : rest = []
    · subst hrest
      exact ⟨ofParts.fragmentOf piece (line ++ ['\n']), rfl⟩
    · obtain ⟨items, hitems⟩ := ih ((Text.terminated_append_cons line rest).mp h) hrest
      rw [hitems]
      exact ⟨ofParts.fragmentOf piece (line ++ ['\n']) ++ lineEnd :: items,
        (List.append_assoc _ (lineEnd :: items) _).symm⟩

end LineItem

/-- An empty piece under classes stands behind the last line feed. -/
def FlatNode.OpensLastLine (flat : List FlatNode) : Prop :=
  ∃ before classes after, flat = before ++ span classes "" :: after ∧
    ∀ p ∈ after, '\n' ∉ p.text.toList

theorem FlatNode.opensLastLine_append_singleton (flat : List FlatNode) (p : FlatNode) :
    OpensLastLine (flat ++ [p]) ↔
      (∃ classes, p = span classes "") ∨ (OpensLastLine flat ∧ '\n' ∉ p.text.toList) := by
  constructor
  · rintro ⟨before, classes, after, heq, hafter⟩
    rcases List.eq_nil_or_concat' after with rfl | ⟨after, q, rfl⟩
    · obtain ⟨-, hp⟩ := List.append_inj' heq rfl
      exact .inl ⟨classes, (List.cons.inj hp).1⟩
    · rw [← List.cons_append, ← List.append_assoc] at heq
      obtain ⟨rfl, hp⟩ := List.append_inj' heq rfl
      obtain rfl := (List.cons.inj hp).1
      have hflat : ∀ r ∈ after, '\n' ∉ r.text.toList := fun r hr =>
        hafter r (List.mem_append_left _ hr)
      exact .inr ⟨⟨before, classes, after, rfl, hflat⟩,
        hafter p (List.mem_append_right _ (List.mem_singleton_self p))⟩
  · rintro (⟨classes, rfl⟩ | ⟨⟨before, classes, after, rfl, hafter⟩, hp⟩)
    · exact ⟨flat, classes, [], rfl, fun _ hr => absurd hr List.not_mem_nil⟩
    · refine ⟨before, classes, after ++ [p], by simp, fun r hr => ?_⟩
      rcases List.mem_append.mp hr with hr | hr
      · exact hafter r hr
      · rwa [List.mem_singleton.mp hr]

/-- A piece that a line feed ends is cut behind it. -/
theorem LineItem.exists_keeping_eq {p : FlatNode} (h : Text.Terminated p.text.toList)
    (hne : p.text.toList ≠ []) : ∃ items, keeping p = items ++ [lineEnd] := by
  have hfeed : '\n' ∈ p.text.toList := List.mem_of_getLast? (h.resolve_left hne)
  obtain ⟨line, rest, htext, hline⟩ := List.eq_append_cons_of_mem hfeed
  rw [keeping_of_eq_append hline htext, ← htext]
  exact exists_ofParts_eq p h hne

/-- Where nothing is to be read behind the last line feed, the last line has an item only if there
is an empty piece under classes. -/
theorem endsWithin_flatMap_keeping_iff {flat : List FlatNode} (h : Text.Terminated (joined flat)) :
    LineItem.EndsWithin (flat.flatMap LineItem.keeping) ↔ FlatNode.OpensLastLine flat := by
  induction flat using List.reverseRecOn with
  | nil => simp [LineItem.EndsWithin, FlatNode.OpensLastLine]
  | append_singleton flat p ih =>
    rw [FlatNode.joined_append, FlatNode.joined_cons, FlatNode.joined_nil, List.append_nil] at h
    rw [FlatNode.opensLastLine_append_singleton, List.flatMap_append, List.flatMap_singleton]
    by_cases hempty : p.text.toList = []
    · have hfeed : '\n' ∉ p.text.toList := hempty ▸ List.not_mem_nil
      rw [hempty, List.append_nil] at h
      rw [LineItem.keeping_of_notMem hfeed, hempty]
      cases p with
      | bare text => simp [FlatNode.isBare, ih h]
      | span classes text =>
        obtain rfl : text = "" := String.toList_inj.mp hempty
        simp [FlatNode.isBare, LineItem.endsWithin_append_singleton]
    · have hp := (Text.terminated_append (joined flat) hempty).mp h
      obtain ⟨items, hitems⟩ := LineItem.exists_keeping_eq hp hempty
      have hfeed : '\n' ∈ p.text.toList := List.mem_of_getLast? (hp.resolve_left hempty)
      rw [hitems, ← List.append_assoc, LineItem.endsWithin_append_singleton]
      constructor
      · rintro ⟨piece, hpiece⟩
        cases hpiece
      · rintro (⟨classes, rfl⟩ | ⟨-, hnone⟩)
        · exact absurd rfl hempty
        · exact absurd hfeed hnone

/-! ### Kept lines -/

section Kept

variable {flat : List FlatNode}

/-- Unless an empty piece under classes makes one more, the kept lines are the stretches of the
text. -/
theorem map_joined_keptLines (h : ¬ (Text.Terminated (joined flat) ∧ FlatNode.OpensLastLine flat)) :
    (keptLines flat).map joined = Text.cutAfter (joined flat) := by
  have hlines := LineItem.map_joined_lines_flatMap_keeping flat
  have hlast := LineItem.getLast?_lines_iff (flat.flatMap LineItem.keeping)
  unfold keptLines
  dsimp only
  by_cases hterminated : Text.Terminated (joined flat)
  · have hend : ¬ LineItem.EndsWithin (flat.flatMap LineItem.keeping) := fun hend =>
      h ⟨hterminated, (endsWithin_flatMap_keeping_iff hterminated).mp hend⟩
    rw [if_pos (hlast.mpr hend), List.map_dropLast, hlines,
      Text.splitKeeping_of_terminated hterminated, List.dropLast_concat]
  · have hcut := Text.splitKeeping_of_not_terminated hterminated
    rw [if_neg, hlines, hcut]
    -- An empty last line would be an empty stretch.
    intro hempty
    obtain ⟨init, hinit⟩ := List.getLast?_eq_some_iff.mp hempty
    rw [hinit, hcut, List.map_append] at hlines
    have hmem : [] ∈ Text.cutAfter (joined flat) := by
      rw [← hlines]
      exact List.mem_append_right _ (List.mem_singleton_self _)
    exact Text.ne_nil_of_mem_cutAfter hmem rfl

/-- An empty piece under classes makes a line of its own behind a line feed. -/
theorem map_joined_keptLines_of_opensLastLine (hterminated : Text.Terminated (joined flat))
    (hopens : FlatNode.OpensLastLine flat) :
    (keptLines flat).map joined = Text.cutAfter (joined flat) ++ [[]] := by
  have hlast := LineItem.getLast?_lines_iff (flat.flatMap LineItem.keeping)
  have hend := (endsWithin_flatMap_keeping_iff hterminated).mpr hopens
  unfold keptLines
  dsimp only
  rw [if_neg (mt hlast.mp (not_not_intro hend)), LineItem.map_joined_lines_flatMap_keeping,
    Text.splitKeeping_of_terminated hterminated]

end Kept

end Highlighting
