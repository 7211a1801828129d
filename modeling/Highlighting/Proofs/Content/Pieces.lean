import Highlighting.Node.Flat

/-! The pieces of a forest, one for each of its texts, and flattening as what yields them. A limit
decides whether there is a result, and never what it is: the forest is given up at the first piece
too many. -/

namespace Highlighting

mutual

/-- The pieces of a node inside a context of classes. -/
def Node.pieces (context : List String) : Node → List FlatNode
  | .text value => [.ofClasses context value]
  | .element _ properties children =>
    Forest.pieces (mergeClasses context properties.classes) children

def Forest.pieces (context : List String) : Forest → List FlatNode
  | [] => []
  | n :: rest => n.pieces context ++ Forest.pieces context rest

end

mutual

theorem Node.length_pieces (context : List String) :
    ∀ n : Node, (n.pieces context).length = n.leafCount
  | .text _ => rfl
  | .element _ _ children => Forest.length_pieces _ children

/-- There are as many pieces as texts. -/
theorem Forest.length_pieces (context : List String) :
    ∀ f : Forest, (f.pieces context).length = Forest.leafCount f
  | [] => rfl
  | n :: rest => by
    simp [Forest.pieces, Forest.leafCount, Node.length_pieces context n,
      Forest.length_pieces context rest]

end

/-- The outcome of adding pieces to others: they are given up once they exceed the limit. -/
def extendWithin (limit : Option Nat) (out : Array FlatNode) (pieces : List FlatNode) :
    Except LimitExceeded (Array FlatNode) :=
  match limit with
  | none => .ok (out ++ pieces.toArray)
  | some limit =>
    if out.size + pieces.length ≤ limit then .ok (out ++ pieces.toArray)
    else .error ⟨limit, limit + 1⟩

/-- Pieces that do not exceed the limit yet. -/
def Fits (limit : Option Nat) (out : Array FlatNode) : Prop := ∀ l, limit = some l → out.size ≤ l

section Extend

variable {limit : Option Nat} {out : Array FlatNode}

theorem extendWithin_nil (hfits : Fits limit out) : extendWithin limit out [] = .ok out := by
  unfold extendWithin
  cases limit with
  | none => simp
  | some l => simp [hfits l rfl]

theorem extendWithin_singleton (hfits : Fits limit out) (piece : FlatNode) :
    extendWithin limit out [piece] = emit limit out piece := by
  unfold extendWithin emit
  cases limit with
  | none => simp
  | some l =>
    have hsize := hfits l rfl
    by_cases hle : out.size + 1 ≤ l
    · have hlt : ¬ l < out.size + 1 := by omega
      simp [hle, hlt]
    · have hlt : l < out.size + 1 := by omega
      have hcount : out.size = l := by omega
      simp [hcount]

/-- Pieces may be added one part after the other. -/
theorem extendWithin_append (hfits : Fits limit out) (a b : List FlatNode) :
    extendWithin limit out (a ++ b) = extendWithin limit out a >>= (extendWithin limit · b) := by
  unfold extendWithin
  cases limit with
  | none => simp [bind, Except.bind]
  | some l =>
    have hsize := hfits l rfl
    by_cases ha : out.size + a.length ≤ l
    · simp [bind, Except.bind, ha, Nat.add_assoc]
    · have hab : ¬ out.size + (a.length + b.length) ≤ l := by omega
      simp [bind, Except.bind, ha, hab]

theorem fits_of_extendWithin {out' : Array FlatNode} {pieces : List FlatNode}
    (h : extendWithin limit out pieces = .ok out') : Fits limit out' := by
  rintro l rfl
  unfold extendWithin at h
  dsimp only at h
  split at h
  · next hle =>
    obtain rfl := Except.ok.inj h
    simpa using hle
  · cases h

end Extend

mutual

theorem Node.flattenInto_eq {limit : Option Nat} {out : Array FlatNode} (context : List String)
    (hfits : Fits limit out) :
    ∀ n : Node, n.flattenInto limit context out = extendWithin limit out (n.pieces context)
  | .text _ => (extendWithin_singleton hfits _).symm
  | .element _ _ children => Forest.flattenInto_eq _ hfits children

/-- Flattening adds the pieces of a forest, as far as the limit admits. -/
theorem Forest.flattenInto_eq {limit : Option Nat} {out : Array FlatNode} (context : List String)
    (hfits : Fits limit out) :
    ∀ f : Forest, Forest.flattenInto limit context out f = extendWithin limit out (f.pieces context)
  | [] => (extendWithin_nil hfits).symm
  | n :: rest => by
    rw [Forest.flattenInto, Forest.pieces, extendWithin_append hfits,
      Node.flattenInto_eq context hfits n]
    cases hn : extendWithin limit out (n.pieces context) with
    | error e => rfl
    | ok middle => exact Forest.flattenInto_eq context (fits_of_extendWithin hn) rest

end

namespace Forest

theorem flatten_none (f : Forest) : f.flatten none = .ok (f.pieces []) := by
  rw [flatten, flattenInto_eq [] (fun _ h => by cases h)]
  simp [extendWithin, Functor.map, Except.map]

/-- A forest within the limit is flattened as it is without one, another is refused. -/
theorem flatten_some (f : Forest) (limit : Nat) : f.flatten (some limit) =
    if f.leafCount ≤ limit then .ok (f.pieces []) else .error ⟨limit, limit + 1⟩ := by
  have hfits : Fits (some limit) #[] := fun _ _ => Nat.zero_le _
  rw [flatten, flattenInto_eq [] hfits, extendWithin, ← length_pieces []]
  simp only [List.size_toArray, List.length_nil, Nat.zero_add]
  split <;> simp [Functor.map, Except.map]

theorem eq_pieces_of_flatten {f : Forest} {limit : Option Nat} {pieces : List FlatNode}
    (h : f.flatten limit = .ok pieces) : pieces = f.pieces [] := by
  cases limit with
  | none => exact (Except.ok.inj (f.flatten_none.symm.trans h)).symm
  | some limit =>
    rw [flatten_some] at h
    split at h
    · exact (Except.ok.inj h).symm
    · cases h

end Forest

end Highlighting
