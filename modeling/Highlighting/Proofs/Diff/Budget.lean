import Mathlib
import Highlighting.Proofs.Content.Pieces
import Highlighting.Proofs.Diff.Sides

/-! What the limit of a diff bounds. It bounds the texts of both highlighted sides before they are
cut into lines. A text over several lines counts once and is delivered in parts, so more may be
delivered than the limit, but at most by the number of line feeds. -/

namespace Highlighting

/-! ### Parts -/

/-- How many parts a piece is delivered in: its stretches between line feeds that are not empty. A
piece that holds no line feed is one part, also where it is empty. -/
def FlatNode.partCount (p : FlatNode) : Nat :=
  if '\n' ∈ p.text.toList then (Text.split p.text.toList).countP (· ≠ []) else 1

theorem FlatNode.partCount_of_notMem {p : FlatNode} (h : '\n' ∉ p.text.toList) :
    p.partCount = 1 := if_neg h

theorem FlatNode.partCount_le (p : FlatNode) : p.partCount ≤ 1 + p.text.toList.count '\n' := by
  unfold partCount
  split
  · have hlength := Text.length_split p.text.toList
    have hcount := List.countP_le_length (p := (· ≠ [])) (l := Text.split p.text.toList)
    omega
  · omega

namespace LineItem

theorem length_pieces_ofParts (piece : FlatNode) (parts : List (List Char)) :
    (pieces (ofParts piece parts)).length = parts.countP (· ≠ []) := by
  rw [pieces_ofParts, List.length_map, List.countP_eq_length_filter]

theorem length_pieces_dropping (piece : FlatNode) :
    (pieces (dropping piece)).length = piece.partCount := by
  have hlength := Text.length_split piece.text.toList
  unfold dropping
  split
  · next part hsplit =>
    rw [hsplit, List.length_singleton] at hlength
    have hnone : '\n' ∉ piece.text.toList := by
      rw [← List.count_eq_zero]
      omega
    rw [FlatNode.partCount_of_notMem hnone]
    rfl
  · next parts hparts =>
    have hsome : '\n' ∈ piece.text.toList :=
      Decidable.byContradiction fun hnone => hparts _ (Text.split_eq_singleton hnone)
    rw [length_pieces_ofParts, FlatNode.partCount, if_pos hsome]

end LineItem

/-! ### Delivered texts -/

def DiffTokens.leafCount (t : DiffTokens) : Nat := ((t.old ++ t.new).map Forest.leafCount).sum

theorem leafCount_map_toNode (pieces : List FlatNode) :
    Forest.leafCount (pieces.map FlatNode.toNode) = pieces.length := by
  induction pieces with
  | nil => rfl
  | cons p pieces ih =>
    have hp : p.toNode.leafCount = 1 := by cases p <;> rfl
    simp [Forest.leafCount, hp, ih, Nat.add_comm]

theorem length_pieces_flatMap_dropping (flat : List FlatNode) :
    (LineItem.pieces (flat.flatMap LineItem.dropping)).length =
      (flat.map FlatNode.partCount).sum := by
  induction flat with
  | nil => rfl
  | cons p flat ih =>
    rw [List.flatMap_cons, LineItem.pieces_append, List.length_append,
      LineItem.length_pieces_dropping, ih, List.map_cons, List.sum_cons]

/-- The lines of flat text hold the parts of its pieces. -/
theorem sum_leafCount_splitLines (flat : List FlatNode) :
    (((splitLines flat).map (·.map FlatNode.toNode)).map Forest.leafCount).sum =
      (flat.map FlatNode.partCount).sum := by
  simp only [List.map_map, Function.comp_def, leafCount_map_toNode]
  rw [← length_pieces_flatMap_dropping, ← LineItem.flatten_lines, List.length_flatten, splitLines]

theorem sum_partCount_le (flat : List FlatNode) :
    (flat.map FlatNode.partCount).sum ≤ flat.length + (FlatNode.joined flat).count '\n' := by
  induction flat with
  | nil => exact Nat.zero_le _
  | cons p flat ih =>
    have hp := p.partCount_le
    rw [List.map_cons, List.sum_cons, List.length_cons, FlatNode.joined_cons, List.count_append]
    omega

theorem sum_partCount_of_notMem {flat : List FlatNode}
    (h : ∀ p ∈ flat, '\n' ∉ p.text.toList) : (flat.map FlatNode.partCount).sum = flat.length := by
  induction flat with
  | nil => rfl
  | cons p flat ih =>
    obtain ⟨hp, hflat⟩ := List.forall_mem_cons.mp h
    rw [List.map_cons, List.sum_cons, FlatNode.partCount_of_notMem hp, ih hflat, List.length_cons,
      Nat.add_comm]

/-! ### Sides -/

section Sides

variable {σ : Type} [Engine σ] {s : σ} {side : List String} {grammar : String}
  {options : DiffOptions} {used used' : Nat} {lines : List Forest}

/-- What is counted of a side: its highlighted text before it is cut, nothing where it has no
lines. -/
def countedForest (s : σ) (side : List String) (grammar : String) (options : DiffOptions) :
    Except EngineFault Forest :=
  if side.isEmpty then .ok []
  else (Engine.highlight s (sideText side) grammar).map options.shown

/-- A side is delivered in the parts of what is counted, and only where that fits what is left of
the limit. -/
theorem counted_of_highlightSide
    (h : highlightSide s side grammar options used = .ok (lines, used')) :
    ∃ f, countedForest s side grammar options = .ok f ∧ used' = used + f.leafCount ∧
      f.leafCount ≤ options.limit - used ∧
        (lines.map Forest.leafCount).sum = ((f.pieces []).map FlatNode.partCount).sum := by
  by_cases hside : side = []
  · subst hside
    obtain ⟨rfl, rfl⟩ := Prod.mk.inj (Except.ok.inj (highlightSide_nil.symm.trans h))
    exact ⟨[], rfl, rfl, Nat.zero_le _, rfl⟩
  · obtain ⟨f, flat, hforest, hflat, rfl, rfl⟩ := exists_of_highlightSide hside h
    have hcounted : countedForest s side grammar options = .ok (options.shown f) := by
      have hnonempty : ¬ side.isEmpty := by simpa using hside
      rw [countedForest, if_neg hnonempty, hforest]
      rfl
    rw [Forest.flatten_some] at hflat
    split at hflat
    · next hle =>
      obtain rfl := Except.ok.inj hflat
      refine ⟨options.shown f, hcounted, ?_, hle, sum_leafCount_splitLines _⟩
      rw [Forest.length_pieces]
    · cases hflat

theorem content_of_countedForest (keeps : KeepsText σ) {f : Forest}
    (h : countedForest s side grammar options = .ok f) : f.content = sideText side := by
  unfold countedForest at h
  split at h
  · next hside =>
    obtain rfl := List.isEmpty_iff.mp hside
    obtain rfl := Except.ok.inj h
    rfl
  · cases hforest : Engine.highlight s (sideText side) grammar with
    | error e => rw [hforest] at h; cases h
    | ok g =>
      rw [hforest] at h
      obtain rfl := Except.ok.inj h
      rw [options.content_shown, keeps.content_highlight hforest]

/-- A text is delivered in more parts than it has texts for line feeds only. -/
theorem sum_partCount_countedForest_le (keeps : KeepsText σ) {f : Forest}
    (h : countedForest s side grammar options = .ok f) :
    ((f.pieces []).map FlatNode.partCount).sum ≤
      f.leafCount + (sideText side).toList.count '\n' := by
  have hle := sum_partCount_le (f.pieces [])
  rwa [Forest.length_pieces, Forest.joined_pieces,
    content_of_countedForest keeps h] at hle

/-- The limit of a diff bounds the texts of both sides before they are cut into lines. A text that
holds line feeds is delivered in parts, so that more texts may be delivered than the limit, though
never more than there are line feeds beyond it; where no text holds a line feed the limit bounds
what is delivered. -/
theorem leafCount_of_highlightHunks (keeps : KeepsText σ) {hunks : List Hunk} {tokens : DiffTokens}
    (h : highlightHunks s hunks grammar options = .ok tokens) :
    let oldSide := hunks.flatMap Hunk.oldSide
    let newSide := hunks.flatMap Hunk.newSide
    ∃ old new, countedForest s oldSide grammar options = .ok old ∧
      countedForest (afterSide s oldSide grammar) newSide grammar options = .ok new ∧
        old.leafCount + new.leafCount ≤ options.limit ∧
          tokens.leafCount = ((old.pieces [] ++ new.pieces []).map FlatNode.partCount).sum ∧
            tokens.leafCount ≤ options.limit + (sideText oldSide).toList.count '\n' +
              (sideText newSide).toList.count '\n' ∧
            ((∀ p ∈ old.pieces [] ++ new.pieces [], '\n' ∉ p.text.toList) →
              tokens.leafCount ≤ options.limit) := by
  intro oldSide newSide
  obtain ⟨used, used', hold, hnew⟩ := exists_of_highlightHunks h
  obtain ⟨old, hcountedOld, rfl, holdFits, holdParts⟩ := counted_of_highlightSide hold
  obtain ⟨new, hcountedNew, -, hnewFits, hnewParts⟩ := counted_of_highlightSide hnew
  have hparts : tokens.leafCount =
      ((old.pieces [] ++ new.pieces []).map FlatNode.partCount).sum := by
    rw [DiffTokens.leafCount, List.map_append, List.sum_append, holdParts, hnewParts,
      List.map_append, List.sum_append]
  have hfits : old.leafCount + new.leafCount ≤ options.limit := by omega
  refine ⟨old, new, hcountedOld, hcountedNew, hfits, hparts, ?_, fun hnone => ?_⟩
  · have holdLe : ((old.pieces []).map FlatNode.partCount).sum ≤
        old.leafCount + (sideText oldSide).toList.count '\n' :=
      sum_partCount_countedForest_le keeps hcountedOld
    have hnewLe : ((new.pieces []).map FlatNode.partCount).sum ≤
        new.leafCount + (sideText newSide).toList.count '\n' :=
      sum_partCount_countedForest_le keeps hcountedNew
    rw [hparts, List.map_append, List.sum_append]
    omega
  · rwa [hparts, sum_partCount_of_notMem hnone, List.length_append, Forest.length_pieces,
      Forest.length_pieces]

end Sides

/-- Two inserted lines that are highlighted as one text. -/
def plainHunk : Hunk := ⟨"", 0, 0, 1, 2, [⟨.insert, "a"⟩, ⟨.insert, "b"⟩]⟩

theorem highlightHunks_plainHunk :
    highlightHunks (CaptureEngine.new .empty) [plainHunk] plainText ⟨false, 1⟩ =
      .ok ⟨[], [[.text "a"], [.text "b"]]⟩ := by cbv

/-- The two lines come to one text, which the limit admits, and are delivered as two. -/
theorem leafCount_of_highlightHunks_plain :
    let e : CaptureEngine := .new .empty
    let tokens : DiffTokens := ⟨[], [[.text "a"], [.text "b"]]⟩
    KeepsText CaptureEngine ∧
      highlightHunks e [plainHunk] plainText ⟨false, 1⟩ = .ok tokens ∧
        tokens.leafCount ≤ 1 + 0 + 1 ∧ tokens.leafCount = 2 := by
  intro e tokens
  have hok : highlightHunks e [plainHunk] plainText ⟨false, 1⟩ = .ok tokens :=
    highlightHunks_plainHunk
  obtain ⟨old, new, -, -, -, -, hle, -⟩ :=
    leafCount_of_highlightHunks CaptureEngine.keepsText hok
  exact ⟨CaptureEngine.keepsText, hok, hle, rfl⟩

/-- The limit does not bound what is delivered. -/
theorem leafCount_exceeds_limit :
    ¬ ∀ (σ : Type) [Engine σ], KeepsText σ → ∀ (s : σ) (hunks : List Hunk) (grammar : String)
      (options : DiffOptions) (tokens : DiffTokens),
        highlightHunks s hunks grammar options = .ok tokens → tokens.leafCount ≤ options.limit := by
  intro h
  have hle := h CaptureEngine CaptureEngine.keepsText _ _ _ _ _ highlightHunks_plainHunk
  exact absurd hle (by decide)

end Highlighting
