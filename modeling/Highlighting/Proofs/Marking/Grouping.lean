import Highlighting.Proofs.Lines.Cells
import Highlighting.Proofs.Marking.Rounds

/-! Marking before and after grouping by lines. A literal without a line feed stands on one side of
each line feed, so what is marked in front of it and what is marked behind it do not depend on each
other; where a text is cut there the same bytes are marked. -/

namespace Highlighting

/-- What holds no separator cannot begin before one and end behind it. -/
theorem prefix_append_cons_iff {α : Type} {part : List α} {c : α} (h : c ∉ part)
    (before rest : List α) : part <+: before ++ c :: rest ↔ part <+: before := by
  constructor
  · intro hstands
    rcases List.prefix_or_prefix_of_prefix hstands (List.prefix_append before (c :: rest)) with
      hstarts | ⟨tail, rfl⟩
    · exact hstarts
    · cases tail with
      | nil => simp
      | cons d tail =>
        have htail := (List.prefix_append_right_inj before).mp hstands
        obtain ⟨rfl, -⟩ := List.cons_prefix_cons.mp htail
        exact absurd (List.mem_append_right before List.mem_cons_self) h
  · exact fun hstarts => hstarts.trans (List.prefix_append before (c :: rest))

namespace Piece

variable {literals : List (List Char)}

/-! ### Where pieces are marked -/

/-- The ranges of bytes that are marked, of pieces from byte `start` on. -/
def ranges (start : Nat) : List Piece → List (Nat × Nat)
  | [] => []
  | plain text :: rest => ranges (start + Text.byteLength text) rest
  | hit text :: rest =>
    (start, start + Text.byteLength text) :: ranges (start + Text.byteLength text) rest

theorem ranges_append (start : Nat) (a b : List Piece) : ranges start (a ++ b) =
    ranges start a ++ ranges (start + Text.byteLength (joined a)) b := by
  induction a generalizing start with
  | nil => rfl
  | cons piece a ih =>
    have hjoined : Text.byteLength (joined (piece :: a)) =
        Text.byteLength piece.text + Text.byteLength (joined a) := Text.byteLength_append _ _
    rw [hjoined, ← Nat.add_assoc]
    cases piece with
    | plain text => exact ih (start + Text.byteLength text)
    | hit text =>
      exact congrArg ((start, start + Text.byteLength text) :: ·)
        (ih (start + Text.byteLength text))

theorem ranges_consPlain (start : Nat) (c : Char) (pieces : List Piece) :
    ranges start (consPlain c pieces) = ranges (start + c.utf8Size) pieces := by
  unfold consPlain
  split
  · simp [ranges, Text.byteLength, Nat.add_assoc]
  · simp [ranges, Text.byteLength]

theorem scan_append_of_longestAt? {literal rest : List Char}
    (h : longestAt? literals (literal ++ rest) = some literal) :
    scan literals (literal ++ rest) = hit literal :: scan literals rest := by
  obtain ⟨c, more, rfl⟩ := List.exists_cons_of_length_pos (longestAt?_eq_some h).2
  rw [List.cons_append] at h ⊢
  rw [scan, h]
  simp

/-! ### At a separator -/

section Separator

variable {c : Char} (hc : ∀ literal ∈ literals, c ∉ literal)
include hc

theorem longestAt?_append_cons (before rest : List Char) :
    longestAt? literals (before ++ c :: rest) = longestAt? literals before := by
  have hlongest (literal : List Char) : IsLongest literals (before ++ c :: rest) literal ↔
      IsLongest literals before literal := by
    constructor
    · intro h
      refine ⟨h.mem, h.ne_nil, (prefix_append_cons_iff (hc _ h.mem) _ _).mp h.starts, ?_⟩
      intro other hother hstarts
      exact h.longest other hother ((prefix_append_cons_iff (hc _ hother) _ _).mpr hstarts)
    · intro h
      refine ⟨h.mem, h.ne_nil, (prefix_append_cons_iff (hc _ h.mem) _ _).mpr h.starts, ?_⟩
      intro other hother hstarts
      exact h.longest other hother ((prefix_append_cons_iff (hc _ hother) _ _).mp hstarts)
  refine Option.ext fun literal => ?_
  rw [longestAt?_eq_some_iff, longestAt?_eq_some_iff, hlongest]

/-- No choice of the scan before a separator has a part in those behind it. -/
theorem ranges_scan_append_cons (start : Nat) (before rest : List Char) :
    ranges start (scan literals (before ++ c :: rest)) =
      ranges start (scan literals before) ++
        ranges (start + Text.byteLength (before ++ [c])) (scan literals rest) := by
  fun_induction scan literals before generalizing start with
  | case1 =>
    have hnone : longestAt? literals (c :: rest) = none :=
      (longestAt?_append_cons hc [] rest).trans
        (longestAt?_eq_none_iff.mpr fun _ _ hstarts => List.prefix_nil.mp hstarts)
    rw [List.nil_append, scan, hnone]
    exact ranges_consPlain start c (scan literals rest)
  | case2 d cs literal found ih =>
    obtain ⟨⟨tail, htail⟩, positive⟩ := longestAt?_eq_some found
    have hbehind : cs.drop (literal.length - 1) = tail := by
      obtain ⟨e, more, rfl⟩ := List.exists_cons_of_length_pos positive
      obtain ⟨-, rfl⟩ : e = d ∧ more ++ tail = cs := by simpa using htail
      simp
    rw [hbehind] at ih ⊢
    rw [← htail] at found ⊢
    have hfound : longestAt? literals (literal ++ (tail ++ c :: rest)) = some literal := by
      rw [← List.append_assoc, longestAt?_append_cons hc, found]
    rw [List.append_assoc, scan_append_of_longestAt? hfound, List.append_assoc,
      Text.byteLength_append, ← Nat.add_assoc]
    exact congrArg (_ :: ·) (ih (start + Text.byteLength literal))
  | case3 d cs hnone ih =>
    have hnone' : longestAt? literals (d :: (cs ++ c :: rest)) = none :=
      (longestAt?_append_cons hc (d :: cs) rest).trans hnone
    have hlength : Text.byteLength (d :: cs ++ [c]) =
        d.utf8Size + Text.byteLength (cs ++ [c]) := rfl
    rw [List.cons_append, scan, hnone']
    dsimp only
    rw [ranges_consPlain, ranges_consPlain, ih, hlength, Nat.add_assoc]

end Separator

/-- Empty texts have no pieces. -/
theorem flatMap_scan_filter (literals : List (List Char)) (texts : List (List Char)) :
    (texts.filter (· ≠ [])).flatMap (scan literals) = texts.flatMap (scan literals) := by
  induction texts with
  | nil => rfl
  | cons text texts ih =>
    by_cases hempty : text = []
    · rw [List.filter_cons_of_neg (by simpa using hempty), ih, List.flatMap_cons, hempty, scan,
        List.nil_append]
    · rw [List.filter_cons_of_pos (by simpa using hempty), List.flatMap_cons, ih, List.flatMap_cons]

/-- The same bytes are marked in a text and in its lines. -/
theorem ranges_scan_splitKeeping (hfeed : ∀ literal ∈ literals, '\n' ∉ literal) (start : Nat)
    (text : List Char) :
    ranges start ((Text.splitKeeping text).flatMap (scan literals)) =
      ranges start (scan literals text) := by
  induction text using Text.line_induction generalizing start with
  | last line hline => rw [Text.splitKeeping_eq_singleton hline, List.flatMap_singleton]
  | more line rest hline ih =>
    have hended : ranges start (scan literals (line ++ ['\n'])) =
        ranges start (scan literals line) := by
      rw [ranges_scan_append_cons hfeed, scan]
      exact List.append_nil _
    rw [Text.splitKeeping_append_cons hline, List.flatMap_cons, ranges_append, joined_scan, hended,
      ih, ranges_scan_append_cons hfeed]

end Piece

/-! ### In the lines of flat text -/

namespace FlatNode

variable {literals : List (List Char)}

/-- The pieces of all texts of flat text, in order. -/
def scanned (literals : List (List Char)) (flat : List FlatNode) : List Piece :=
  flat.flatMap fun p => Piece.scan literals p.text.toList

theorem scanned_append (a b : List FlatNode) :
    scanned literals (a ++ b) = scanned literals a ++ scanned literals b := List.flatMap_append

theorem joined_scanned (flat : List FlatNode) :
    Piece.joined (scanned literals flat) = joined flat := by
  unfold Piece.joined scanned joined
  rw [List.flatMap_assoc]
  exact List.flatMap_congr fun p _ => Piece.joined_scan literals p.text.toList

theorem scanned_map_withText (p : FlatNode) (parts : List (List Char)) :
    scanned literals (parts.map fun part => p.withText (String.ofList part)) =
      parts.flatMap (Piece.scan literals) := by
  simp [scanned, List.flatMap_map]

/-- Cutting a piece does not change what is marked in it. -/
theorem ranges_scanned_keeping (hfeed : ∀ literal ∈ literals, '\n' ∉ literal) (start : Nat)
    (p : FlatNode) :
    Piece.ranges start (scanned literals (LineItem.pieces (LineItem.keeping p))) =
      Piece.ranges start (Piece.scan literals p.text.toList) := by
  rw [LineItem.pieces_keeping]
  by_cases hempty : p.text = ""
  · rw [if_pos hempty]
    cases p.isBare <;> simp [scanned, hempty, Piece.scan]
  · rw [if_neg hempty, scanned_map_withText, Piece.flatMap_scan_filter,
      Piece.ranges_scan_splitKeeping hfeed]

theorem ranges_scanned_flatMap_keeping (hfeed : ∀ literal ∈ literals, '\n' ∉ literal)
    (start : Nat) (flat : List FlatNode) :
    Piece.ranges start (scanned literals (LineItem.pieces (flat.flatMap LineItem.keeping))) =
      Piece.ranges start (scanned literals flat) := by
  induction flat generalizing start with
  | nil => rfl
  | cons p flat ih =>
    have hcons : scanned literals (p :: flat) =
        Piece.scan literals p.text.toList ++ scanned literals flat := rfl
    rw [List.flatMap_cons, LineItem.pieces_append, scanned_append, Piece.ranges_append,
      joined_scanned, LineItem.joined_keeping, ranges_scanned_keeping hfeed, ih, hcons,
      Piece.ranges_append, Piece.joined_scan]

/-- The texts of numbered lines are those of the pieces in them. -/
theorem scanned_pieces_map_toNode (context : List String) (line : List FlatNode) :
    scanned literals (Forest.pieces context (line.map toNode)) = scanned literals line := by
  induction line with
  | nil => rfl
  | cons p line ih =>
    obtain ⟨classes, hp⟩ : ∃ classes, p.toNode.pieces context = [ofClasses classes p.text] := by
      cases p <;> exact ⟨_, rfl⟩
    rw [List.map_cons, Forest.pieces, scanned_append, hp, ih]
    simp [scanned]

theorem scanned_pieces_numberLines (context : List String) (first : Nat)
    (ls : List (List FlatNode)) :
    scanned literals (Forest.pieces context (numberLines first ls)) =
      scanned literals ls.flatten := by
  induction ls generalizing first with
  | nil => rfl
  | cons line rest ih =>
    rw [numberLines, Forest.pieces, scanned_append, ih, List.flatten_cons, scanned_append]
    exact congrArg (· ++ _) (scanned_pieces_map_toNode _ line)

end FlatNode

/-! ### In a forest -/

def Placed.range (p : Placed) : Nat × Nat := (p.start, p.stop)

namespace Forest

/-- The ranges of bytes under the marks of a forest, one for each mark, in order. -/
def markedRanges (f : Forest) : List (Nat × Nat) := f.marks.map Placed.range

/-- The same of a forest that starts at byte `start` inside an element. -/
def markedFrom (parent : Option (Nat × Nat)) (start : Nat) (f : Forest) : List (Nat × Nat) :=
  ((placed parent start f).filter Placed.isMark).map Placed.range

variable (parent : Option (Nat × Nat)) (start : Nat)

theorem markedFrom_append (f g : Forest) : markedFrom parent start (f ++ g) =
    markedFrom parent start f ++
      markedFrom parent (start + Text.byteLength f.content.toList) g := by
  unfold markedFrom
  rw [placed_append, List.filter_append, List.map_append]

theorem markedFrom_cons (n : Node) (rest : Forest) : markedFrom parent start (n :: rest) =
    markedFrom parent start [n] ++
      markedFrom parent (start + Text.byteLength n.content.toList) rest := by
  have happend := markedFrom_append parent start [n] rest
  rwa [List.singleton_append, content, content, String.append_empty] at happend

theorem markedFrom_element (tag : String) (properties : Properties) (children : Forest) :
    let stop := start + Text.byteLength children.content.toList
    markedFrom parent start [.element tag properties children] =
      (if tag == Node.markTag && properties.data.contains Node.markedKey then [(start, stop)]
        else []) ++ markedFrom (some (start, stop)) start children := by
  intro stop
  have hplaced : placed parent start [.element tag properties children] =
      ⟨start, stop, tag, properties, children.content, parent⟩ ::
        placed (some (start, stop)) start children := List.append_nil _
  unfold markedFrom
  rw [hplaced, List.filter_cons, Placed.isMark]
  split <;> rfl

theorem markedFrom_mark (value : String) : markedFrom parent start [.mark value] =
    [(start, start + Text.byteLength value.toList)] := by
  have hplaced : placed parent start [.mark value] =
      [⟨start, start + Text.byteLength value.toList, Node.markTag,
        ⟨[], .single Node.markedKey (.bool true)⟩, value, parent⟩] := by
    simp [Node.mark, placed, Node.placed, content, Node.content]
  unfold markedFrom
  rw [hplaced]
  rfl

theorem markedFrom_map_toNode (pieces : List Piece) :
    markedFrom parent start (pieces.map Piece.toNode) = Piece.ranges start pieces := by
  induction pieces generalizing start with
  | nil => rfl
  | cons piece pieces ih =>
    rw [List.map_cons, markedFrom_cons, ih]
    cases piece with
    | plain text =>
      have hcontent : (Piece.toNode (.plain text)).content.toList = text := String.toList_ofList
      rw [hcontent]
      rfl
    | hit text =>
      have hcontent : (Node.mark (String.ofList text)).content.toList = text := by
        simp [Node.mark, Node.content, content]
      rw [Piece.toNode, markedFrom_mark, hcontent, String.toList_ofList]
      rfl

end Forest

theorem Forest.markedFrom_markText (literals : List String) (parent : Option (Nat × Nat))
    (start : Nat) (value : String) :
    markedFrom parent start (markText (Needle.ofLiterals literals) value) =
      Piece.ranges start (Piece.scan (literals.map String.toList) value.toList) := by
  rw [markText_eq]
  split
  · next hempty =>
    rw [hempty, String.toList_empty, Piece.scan]
    rfl
  · exact markedFrom_map_toNode parent start _

mutual

theorem Node.markedFrom_markWith (literals : List String) (context : List String)
    (parent : Option (Nat × Nat)) (start : Nat) : ∀ n : Node,
      Forest.markedFrom parent start [n] = [] →
        Forest.markedFrom parent start (n.markWith (Needle.ofLiterals literals)) =
          Piece.ranges start
            (FlatNode.scanned (literals.map String.toList) (n.pieces context))
  | .text value, _ => by
    rw [Node.markWith, Node.pieces, FlatNode.scanned, List.flatMap_singleton,
      FlatNode.text_ofClasses]
    exact Forest.markedFrom_markText literals parent start value
  | .element tag properties children, h => by
    rw [Forest.markedFrom_element] at h
    obtain ⟨hnode, hchildren⟩ := List.append_eq_nil_iff.mp h
    rw [Node.markWith, Forest.markedFrom_element, Forest.content_markWith, hnode, List.nil_append]
    exact Forest.markedFrom_markWith literals _ _ start children hchildren

/-- In a forest without marks the bytes are marked that are marked in its pieces. -/
theorem Forest.markedFrom_markWith (literals : List String) (context : List String)
    (parent : Option (Nat × Nat)) (start : Nat) : ∀ f : Forest,
      Forest.markedFrom parent start f = [] →
        Forest.markedFrom parent start (f.markWith (Needle.ofLiterals literals)) =
          Piece.ranges start
            (FlatNode.scanned (literals.map String.toList) (f.pieces context))
  | [], _ => rfl
  | n :: rest, h => by
    rw [Forest.markedFrom_cons] at h
    obtain ⟨hnode, hrest⟩ := List.append_eq_nil_iff.mp h
    rw [Forest.markWith, Forest.markedFrom_append, Node.content_markWith, Forest.pieces,
      FlatNode.scanned_append, Piece.ranges_append, FlatNode.joined_scanned, Node.joined_pieces,
      Node.markedFrom_markWith literals context parent start n hnode,
      Forest.markedFrom_markWith literals context parent _ rest hrest]

end

/-- The marks of a marked forest are those that the scan finds in its pieces. -/
theorem Forest.markedFrom_mark_eq (literals : List String) {f : Forest}
    (h : Forest.markedFrom none 0 f = []) : Forest.markedFrom none 0 (f.mark literals) =
      Piece.ranges 0 (FlatNode.scanned (literals.map String.toList) (f.pieces [])) := by
  rw [Forest.mark_eq]
  exact Forest.markedFrom_markWith literals [] none 0 f h

namespace Forest

/-! ### In the lines of a forest -/

theorem markedFrom_map_flat (parent : Option (Nat × Nat)) (start : Nat) (line : List FlatNode) :
    markedFrom parent start (line.map FlatNode.toNode) = [] := by
  induction line generalizing start with
  | nil => rfl
  | cons p line ih =>
    rw [List.map_cons, markedFrom_cons, ih, List.append_nil]
    cases p <;> rfl

theorem markedFrom_numberLines (parent : Option (Nat × Nat)) (start first : Nat)
    (ls : List (List FlatNode)) : markedFrom parent start (numberLines first ls) = [] := by
  induction ls generalizing start first with
  | nil => rfl
  | cons line rest ih =>
    rw [numberLines, markedFrom_cons, ih, List.append_nil, Node.line, markedFrom_element,
      markedFrom_map_flat, List.append_nil]
    rfl

/-- Whether a forest is grouped by lines or not, the same bytes of its text are marked, and by as
many marks. -/
theorem markedRanges_mark_groupByLines {f : Forest} (hmarks : f.marks = []) {literals : List String}
    (hfeed : ∀ literal ∈ literals, '\n' ∉ literal.toList) :
    ∃ lines, f.groupByLines none = .ok lines ∧
      (lines.mark literals).content = f.content ∧ (f.mark literals).content = f.content ∧
      (lines.mark literals).markedRanges = (f.mark literals).markedRanges := by
  have hlines := f.groupByLines_none
  have hfeed' : ∀ literal ∈ literals.map String.toList, '\n' ∉ literal :=
    List.forall_mem_map.mpr hfeed
  have hunmarked : markedFrom none 0 f = [] := congrArg (List.map Placed.range) hmarks
  refine ⟨_, hlines, ?_, content_mark f literals, ?_⟩
  · rw [content_mark, content_groupByLines hlines]
  · have hgrouped := markedFrom_mark_eq literals
      (markedFrom_numberLines none 0 1 (keptLines (f.pieces [])))
    have hwhole := markedFrom_mark_eq literals hunmarked
    calc
      _ = Piece.ranges 0 (FlatNode.scanned (literals.map String.toList)
          (keptLines (f.pieces [])).flatten) := by
        rw [← FlatNode.scanned_pieces_numberLines [] 1]
        exact hgrouped
      _ = Piece.ranges 0 (FlatNode.scanned (literals.map String.toList) (f.pieces [])) := by
        rw [flatten_keptLines, FlatNode.ranges_scanned_flatMap_keeping hfeed']
      _ = _ := hwhole.symm

/-- Marks over two lines and two texts, one of which ends where a literal would run on. -/
theorem markedRanges_mark_groupByLines_adjoining :
    let f : Forest := [.span ["a"] [.text "éb\néba"], .text "", .text "b\néb"]
    let literals := ["éb", "ab", "éba", ""]
    f.marks = [] ∧ (∀ literal ∈ literals, '\n' ∉ literal.toList) ∧
      ∃ lines, f.groupByLines none = .ok lines ∧
        (lines.mark literals).markedRanges = [(0, 3), (4, 8), (10, 13)] := by
  intro f literals
  have hmarks : f.marks = [] := rfl
  have hfeed : ∀ literal ∈ literals, '\n' ∉ literal.toList := by decide
  obtain ⟨lines, hlines, -, -, hranges⟩ := markedRanges_mark_groupByLines hmarks hfeed
  exact ⟨hmarks, hfeed, lines, hlines, hranges.trans (by cbv)⟩

end Forest

end Highlighting
