import Highlighting.Proofs.Content.Leaves
import Highlighting.Proofs.Content.Marks
import Highlighting.Proofs.Lines.Kept

/-! The line elements of a forest are the stretches of its text that are cut after each line feed,
numbered from one, also where literals are marked in them. One element more is made, with nothing in
it to read, where an empty text inside a class stands behind the last line feed. -/

namespace Highlighting

open FlatNode (joined)

/-- Marking goes on inside of line elements and leaves their numbers. -/
theorem Forest.markWith_numberLines (needles : List Needle) (first : Nat)
    (ls : List (List FlatNode)) :
    Forest.markWith needles (numberLines first ls) =
      (ls.map fun line => Forest.markWith needles (line.map FlatNode.toNode)).mapIdx
        fun i body => Node.line (first + i) body := by
  induction ls generalizing first with
  | nil => rfl
  | cons line rest ih =>
    have hnext (i : Nat) : first + 1 + i = first + (i + 1) := by omega
    rw [numberLines, Forest.markWith, ih, List.map_cons, List.mapIdx_cons]
    simp only [hnext]
    rfl

theorem toList_content_markWith_map_toNode (needles : List Needle) (line : List FlatNode) :
    (Forest.content (Forest.markWith needles (line.map FlatNode.toNode))).toList =
      joined line := by
  rw [Forest.content_markWith, content_map_toNode]

namespace Forest

/-- An empty text inside a class stands behind the last line feed of a forest. -/
def OpensLastLine (f : Forest) : Prop :=
  ∃ before classes after, f.leaves [] = before ++ (classes, "") :: after ∧ classes ≠ [] ∧
    ∀ leaf ∈ after, '\n' ∉ leaf.2.toList

theorem opensLastLine_pieces_iff (f : Forest) :
    FlatNode.OpensLastLine (f.pieces []) ↔ f.OpensLastLine := by
  rw [pieces_nil_eq_map]
  constructor
  · rintro ⟨before, classes, after, hpieces, hafter⟩
    obtain ⟨leaves, rest, hleaves, -, hrest⟩ := List.map_eq_append_iff.mp hpieces
    obtain ⟨⟨around, value⟩, behind, rfl, hleaf, rfl⟩ := List.map_eq_cons_iff.mp hrest
    have hclasses : around ≠ [] := by
      intro hnone
      rw [FlatNode.ofLeaf_eq_bare hnone] at hleaf
      cases hleaf
    rw [FlatNode.ofLeaf_eq_span hclasses] at hleaf
    cases hleaf
    refine ⟨leaves, around, behind, hleaves, hclasses, fun leaf hleaf => ?_⟩
    have hpiece := hafter _ (List.mem_map_of_mem hleaf)
    rwa [FlatNode.text_ofLeaf] at hpiece
  · rintro ⟨before, classes, after, hleaves, hclasses, hafter⟩
    refine ⟨before.map FlatNode.ofLeaf, mergeClasses [] classes, after.map FlatNode.ofLeaf, ?_, ?_⟩
    · rw [hleaves, List.map_append, List.map_cons, FlatNode.ofLeaf_eq_span hclasses]
    · intro p hp
      obtain ⟨leaf, hleaf, rfl⟩ := List.mem_map.mp hp
      rw [FlatNode.text_ofLeaf]
      exact hafter leaf hleaf

/-- Grouped by lines and marked, a forest is a list of line elements: spans with the class of lines
and with numbers that go up from one without gaps. Their texts are the stretches of the text of the
forest that end with its line feeds, and what follows the last line feed if that is not empty. There
is one line more, with an empty text, if and only if nothing is to be read behind the last line feed
and an empty text inside a class stands there. -/
theorem mark_groupByLines {f lines : Forest} {limit : Option Nat}
    (h : f.groupByLines limit = .ok lines) (literals : List String) :
    let text := f.content.toList
    let opens := (text = [] ∨ text.getLast? = some '\n') ∧ f.OpensLastLine
    ∃ bodies : List Forest,
      lines.mark literals = bodies.mapIdx (fun i body =>
        .element "span" ⟨["line"], .single "data-line-number" (.int ↑(1 + i))⟩ body) ∧
        (¬ opens → bodies.map (·.content.toList) = Text.cutAfter text) ∧
          (opens → bodies.map (·.content.toList) = Text.cutAfter text ++ [[]]) := by
  intro text opens
  obtain rfl := eq_numberLines_of_groupByLines h
  have htext : joined (f.pieces []) = text := joined_pieces [] f
  have hopens : opens ↔
      Text.Terminated (joined (f.pieces [])) ∧ FlatNode.OpensLastLine (f.pieces []) := by
    rw [opensLastLine_pieces_iff, htext]
    rfl
  have hbodies : ((keptLines (f.pieces [])).map fun line =>
      Forest.markWith (Needle.ofLiterals literals) (line.map FlatNode.toNode)).map
        (·.content.toList) = (keptLines (f.pieces [])).map joined := by
    rw [List.map_map]
    exact List.map_congr_left fun line _ => toList_content_markWith_map_toNode _ line
  refine ⟨_, (mark_eq _ literals).trans (markWith_numberLines _ 1 _), ?_, ?_⟩
  · intro hnone
    rw [hbodies, map_joined_keptLines (mt hopens.mpr hnone), htext]
  · intro hsome
    obtain ⟨hterminated, hflat⟩ := hopens.mp hsome
    rw [hbodies, map_joined_keptLines_of_opensLastLine hterminated hflat, htext]

/-- A class goes over a line feed, and an empty text inside a class stands behind the last one. -/
theorem mark_groupByLines_caret :
    let f : Forest :=
      [.span ["tag"] [.text "é\nb", .text ""], .text "\n", .span ["caret"] [.text ""], .text ""]
    ∃ lines, f.groupByLines (some 5) = .ok lines ∧ ∃ bodies : List Forest,
      lines.mark ["b", "é\nb"] = bodies.mapIdx (fun i body =>
        .element "span" ⟨["line"], .single "data-line-number" (.int ↑(1 + i))⟩ body) ∧
        bodies.map (·.content.toList) = [['é', '\n'], ['b', '\n'], []] := by
  intro f
  have succeeds : (f.groupByLines (some 5)).toBool = true := by cbv
  have hcut : Text.cutAfter f.content.toList = [['é', '\n'], ['b', '\n']] := by cbv
  have hlast : f.content.toList.getLast? = some '\n' := by cbv
  have hopens : f.OpensLastLine :=
    ⟨[(["tag"], "é\nb"), (["tag"], ""), ([], "\n")], ["caret"], [([], "")], rfl, by decide,
      by decide⟩
  cases h : f.groupByLines (some 5) with
  | error e => rw [h] at succeeds; cases succeeds
  | ok lines =>
    obtain ⟨bodies, hlines, -, htexts⟩ := mark_groupByLines h ["b", "é\nb"]
    rw [hcut] at htexts
    exact ⟨lines, rfl, bodies, hlines, htexts ⟨.inr hlast, hopens⟩⟩

end Forest

end Highlighting
