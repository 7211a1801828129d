import Highlighting.Proofs.Lines.Cells
import Highlighting.Proofs.Sorting

/-! Flattening at every limit, by the leaves of the forest. The limit decides only whether there are
pieces; the pieces say of each leaf what its text is and which classes are around it. Nothing of
this is lost or made up when they are flattened once more. -/

namespace Highlighting

/-- A piece of a leaf and a leaf made of this piece are the same to flattening. -/
theorem FlatNode.ofLeaf_leaf_ofLeaf (leaf : List String × String) :
    ofLeaf (ofLeaf leaf).leaf = ofLeaf leaf := by
  obtain ⟨classes, value⟩ := leaf
  have hmerged : mergeClasses [] classes.eraseDups = mergeClasses [] classes := by
    rw [mergeClasses_nil_eq_eraseDups, mergeClasses_nil_eq_eraseDups,
      eraseDups_of_nodup (nodup_eraseDups classes)]
  rw [leaf_ofLeaf, ofLeaf, hmerged, ofLeaf]

namespace Forest

/-- The pieces of a forest are those of the forest that is made of them. -/
theorem pieces_map_toNode_pieces (f : Forest) :
    Forest.pieces [] ((f.pieces []).map FlatNode.toNode) = f.pieces [] := by
  rw [pieces_nil_eq_map, FlatNode.leaves_map_toNode, pieces_nil_eq_map, List.map_map, List.map_map]
  exact List.map_congr_left fun leaf _ => FlatNode.ofLeaf_leaf_ofLeaf leaf

/-- Forests with the same pieces are the same to flattening, also where the limit is exceeded. -/
theorem flatten_congr {f g : Forest} (h : f.pieces [] = g.pieces []) (limit : Option Nat) :
    f.flatten limit = g.flatten limit := by
  cases limit with
  | none => rw [flatten_none, flatten_none, h]
  | some limit =>
    have hcount : f.leafCount = g.leafCount := by
      rw [← length_pieces [] f, ← length_pieces [] g, h]
    rw [flatten_some, flatten_some, h, hcount]

/-- Flattening gives a piece for each leaf, with the text of the leaf and with the classes around
it, each of them once, where it occurs first; the piece is bare if and only if there are none. It
gives them unless there are more leaves than the limit admits, and then says so at the first piece
too many. A forest made of the pieces is flattened as the one they come from. -/
theorem flatten_eq_leaves (f : Forest) : ∃ pieces : List FlatNode,
    pieces.length = f.leafCount ∧
      pieces.map FlatNode.leaf = (f.leaves []).map (fun leaf => (leaf.1.eraseDups, leaf.2)) ∧
      (∀ p ∈ pieces, p.isBare ↔ p.classes = []) ∧
      f.flatten none = .ok pieces ∧
      (∀ limit, f.flatten (some limit) =
        if f.leafCount ≤ limit then .ok pieces else .error ⟨limit, limit + 1⟩) ∧
      ∀ limit, Forest.flatten (pieces.map FlatNode.toNode) limit = f.flatten limit := by
  refine ⟨f.pieces [], length_pieces [] f, ?_, ?_, f.flatten_none, f.flatten_some, ?_⟩
  · rw [pieces_nil_eq_map, List.map_map]
    exact List.map_congr_left fun leaf _ => FlatNode.leaf_ofLeaf leaf.1 leaf.2
  · intro p hp
    rw [pieces_nil_eq_map] at hp
    obtain ⟨leaf, -, rfl⟩ := List.mem_map.mp hp
    exact FlatNode.isBare_ofLeaf leaf
  · exact flatten_congr (pieces_map_toNode_pieces f)

/-- A class is around a text twice, and what is flattened is bare only where no class is. -/
example : Forest.flatten
    [.span ["b", "a"] [.span ["a", "c"] [.text "x", .text ""]], .span [] [.text "y"]] (some 3) =
      .ok [.span ["b", "a", "c"] "x", .span ["b", "a", "c"] "", .bare "y"] := by rfl

end Forest

end Highlighting
