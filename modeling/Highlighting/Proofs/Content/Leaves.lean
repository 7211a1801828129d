import Mathlib.Data.List.Induction
import Highlighting.Proofs.Content.Pieces

/-! The texts of a forest with the classes around each of them. Flattening merges these classes, and
leaves a text bare only where there are none. -/

namespace Highlighting

mutual

/-- The texts of a node in order, each with the classes of all elements around it from the outside
in, as often as they occur. -/
def Node.leaves (around : List String) : Node → List (List String × String)
  | .text value => [(around, value)]
  | .element _ properties children => Forest.leaves (around ++ properties.classes) children

def Forest.leaves (around : List String) : Forest → List (List String × String)
  | [] => []
  | n :: rest => n.leaves around ++ Forest.leaves around rest

end

theorem Forest.leaves_append (around : List String) (f g : Forest) :
    Forest.leaves around (f ++ g) = f.leaves around ++ g.leaves around := by
  induction f with
  | nil => rfl
  | cons n f ih => simp [Forest.leaves, ih]

theorem mergeClasses_append (context inner innermost : List String) :
    mergeClasses (mergeClasses context inner) innermost =
      mergeClasses context (inner ++ innermost) := by
  unfold mergeClasses
  rw [List.foldl_append]

theorem prefix_mergeClasses (context classes : List String) :
    context <+: mergeClasses context classes := by
  unfold mergeClasses
  induction classes generalizing context with
  | nil => exact List.prefix_rfl
  | cons c rest ih =>
    refine List.IsPrefix.trans ?_ (ih _)
    show context <+: if c ∈ context then context else context ++ [c]
    split
    · exact List.prefix_rfl
    · exact List.prefix_append context [c]

/-- Inside of no classes, merging keeps the first occurrence of each class. -/
theorem mergeClasses_nil_eq_eraseDups (classes : List String) :
    mergeClasses [] classes = classes.eraseDups := by
  induction classes using List.reverseRecOn with
  | nil => rfl
  | append_singleton classes c ih =>
    rw [← mergeClasses_append, ih, List.eraseDups_append]
    show (if c ∈ classes.eraseDups then classes.eraseDups else classes.eraseDups ++ [c]) = _
    by_cases hc : c ∈ classes <;> simp [hc, List.removeAll, List.eraseDups_cons]

theorem mergeClasses_eq_nil_iff {classes : List String} :
    mergeClasses [] classes = [] ↔ classes = [] := by
  constructor
  · intro h
    cases classes with
    | nil => rfl
    | cons c rest =>
      have hprefix := prefix_mergeClasses (mergeClasses [] [c]) rest
      rw [mergeClasses_append, List.singleton_append, h] at hprefix
      cases List.prefix_nil.mp hprefix
  · rintro rfl
    rfl

/-- The piece that a text comes to. -/
def FlatNode.ofLeaf (leaf : List String × String) : FlatNode :=
  .ofClasses (mergeClasses [] leaf.1) leaf.2

theorem FlatNode.ofLeaf_eq_bare {classes : List String} (h : classes = []) (value : String) :
    ofLeaf (classes, value) = bare value := by
  subst h
  rfl

theorem FlatNode.ofLeaf_eq_span {classes : List String} (h : classes ≠ []) (value : String) :
    ofLeaf (classes, value) = span (mergeClasses [] classes) value := by
  have hmerged : ¬ (mergeClasses [] classes).isEmpty := by
    rw [List.isEmpty_iff]
    exact mt mergeClasses_eq_nil_iff.mp h
  exact if_neg hmerged

@[simp] theorem FlatNode.text_ofLeaf (leaf : List String × String) :
    (ofLeaf leaf).text = leaf.2 := by
  unfold ofLeaf ofClasses
  split <;> rfl

mutual

theorem Node.pieces_eq_map (around : List String) :
    ∀ n : Node, n.pieces (mergeClasses [] around) = (n.leaves around).map FlatNode.ofLeaf
  | .text _ => rfl
  | .element _ properties children => by
    rw [Node.pieces, Node.leaves, mergeClasses_append]
    exact Forest.pieces_eq_map (around ++ properties.classes) children

theorem Forest.pieces_eq_map (around : List String) :
    ∀ f : Forest, f.pieces (mergeClasses [] around) = (f.leaves around).map FlatNode.ofLeaf
  | [] => rfl
  | n :: rest => by
    rw [Forest.pieces, Forest.leaves, List.map_append, Node.pieces_eq_map around n,
      Forest.pieces_eq_map around rest]

end

/-- There is a piece for each text of a forest. -/
theorem Forest.pieces_nil_eq_map (f : Forest) : f.pieces [] = (f.leaves []).map FlatNode.ofLeaf :=
  f.pieces_eq_map []

end Highlighting
