import Highlighting.Mark.Literal

/-! Marking literals cuts texts into pieces and keeps their characters. -/

namespace Highlighting

namespace Piece

/-- The texts of pieces, joined. -/
def joined (pieces : List Piece) : List Char := pieces.flatMap text

@[simp] theorem joined_append (a b : List Piece) : joined (a ++ b) = joined a ++ joined b :=
  List.flatMap_append

@[simp] theorem joined_ofText (text : List Char) : joined (ofText text) = text := by
  cases text with
  | nil => rfl
  | cons c cs => exact List.append_nil (c :: cs)

/-- The pieces of a text join to it. -/
theorem joined_cut (needles : List Needle) (value : List Char) :
    joined (cut needles value) = value := by
  fun_induction cut needles value with
  | case1 value o _ found behind ih =>
    have hbehind : joined (hit behind.1 :: cut needles behind.2) = found.2 := by
      refine Eq.trans ?_ (Text.splitAtByte_append o.length found.2)
      exact congrArg (behind.1 ++ ·) ih
    rw [joined_append, joined_ofText, hbehind]
    exact Text.splitAtByte_append o.start value
  | case2 value => exact joined_ofText value

theorem content_map_toNode (pieces : List Piece) :
    (Forest.content (pieces.map toNode)).toList = joined pieces := by
  induction pieces with
  | nil => rfl
  | cons p pieces ih =>
    have hp : p.toNode.content.toList = p.text := by
      cases p <;> simp [toNode, Node.mark, Node.content, Forest.content, text]
    simpa [Forest.content, joined, hp] using ih

end Piece

theorem content_markText (needles : List Needle) (value : String) :
    (markText needles value).content = value := by
  unfold markText
  split
  · simp [Forest.content, Node.content]
  · rw [← String.toList_inj, Piece.content_map_toNode, Piece.joined_cut]

mutual

theorem Node.content_markWith (needles : List Needle) :
    ∀ n : Node, (n.markWith needles).content = n.content
  | .text value => content_markText needles value
  | .element _ _ children => by
    simp [Node.markWith, Forest.content, Node.content, Forest.content_markWith needles children]

theorem Forest.content_markWith (needles : List Needle) :
    ∀ f : Forest, (Forest.markWith needles f).content = Forest.content f
  | [] => rfl
  | n :: rest => by
    simp [Forest.markWith, Forest.content, Node.content_markWith needles n,
      Forest.content_markWith needles rest]

end

/-- Without needles a text is one piece. -/
theorem markText_nil (value : String) : markText [] value = [.text value] := by
  unfold markText
  split
  · rfl
  · next hne =>
    have hvalue : ¬ value.toList.isEmpty := by simpa using hne
    rw [Piece.cut]
    simp [Occurrence.earliest?, Piece.ofText, hvalue, Piece.toNode]

mutual

theorem Node.markWith_nil : ∀ n : Node, n.markWith [] = [n]
  | .text value => markText_nil value
  | .element _ _ children => by rw [Node.markWith, Forest.markWith_nil children]

theorem Forest.markWith_nil : ∀ f : Forest, f.markWith [] = f
  | [] => rfl
  | n :: rest => by
    rw [Forest.markWith, Node.markWith_nil n, Forest.markWith_nil rest, List.singleton_append]

end

/-- Marking stops early without needles, and would change nothing if it went on. -/
theorem Forest.mark_eq (f : Forest) (literals : List String) :
    f.mark literals = f.markWith (Needle.ofLiterals literals) := by
  unfold Forest.mark
  cases Needle.ofLiterals literals with
  | nil => exact f.markWith_nil.symm
  | cons needle needles => rfl

/-- A marked forest has the text it had before. -/
theorem Forest.content_mark (f : Forest) (literals : List String) :
    (f.mark literals).content = f.content := by
  rw [Forest.mark_eq, Forest.content_markWith]

end Highlighting
