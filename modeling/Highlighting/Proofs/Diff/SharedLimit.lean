import Highlighting.Proofs.Diff.Budget
import Highlighting.Proofs.Diff.Whitespace

/-! How both sides of a diff draw on one limit. What is held against the limit are the texts of the
highlighted sides before they are cut into lines, first those of the old side and then those of
both, and the engine is not asked for the new side where the old one fails. -/

namespace Highlighting

variable {σ : Type} [Engine σ]

/-! ### What the engine is asked -/

/-- An engine and the texts that it was asked to highlight. -/
structure Consulted (σ : Type) where
  engine : σ
  texts : List String

instance : Engine (Consulted σ) where
  isRegistered s := Engine.isRegistered s.engine
  register s grammar dependencies :=
    let (result, engine) := Engine.register s.engine grammar dependencies
    (result, { s with engine })
  highlight s := Engine.highlight s.engine
  afterHighlight s text grammar :=
    ⟨Engine.afterHighlight s.engine text grammar, s.texts ++ [text]⟩
  setTheme s theme := { s with engine := Engine.setTheme s.engine theme }

/-- The text that a side is highlighted as, if it has lines. -/
def sideTexts (side : List String) : List String := if side.isEmpty then [] else [sideText side]

variable {s : σ} {side : List String} {grammar : String} {options : DiffOptions} {used : Nat}

theorem texts_afterSide (s : Consulted σ) (side : List String) (grammar : String) :
    (afterSide s side grammar).texts = s.texts ++ sideTexts side := by
  unfold afterSide sideTexts
  split
  · exact (List.append_nil s.texts).symm
  · rfl

theorem highlightSide_consulted (s : Consulted σ) (side : List String) (grammar : String)
    (options : DiffOptions) (used : Nat) :
    highlightSide s side grammar options used =
      highlightSide s.engine side grammar options used := rfl

/-! ### Sides -/

/-- The lines of a side, cut out of what is shown of it. -/
def sideLines (side : List String) (f : Forest) : List Forest :=
  if side.isEmpty then [] else (splitLines (f.pieces [])).map (·.map FlatNode.toNode)

/-- A side fails with the engine, or because it comes to more texts than are left of the limit; the
count that is reported is the first one beyond the whole limit. -/
theorem highlightSide_eq (hused : used ≤ options.limit) :
    highlightSide s side grammar options used =
      match countedForest s side grammar options with
      | .error fault => .error (.engine fault)
      | .ok f =>
        if options.limit < used + f.leafCount then
          .error (.limitExceeded options.limit (options.limit + 1))
        else .ok (sideLines side f, used + f.leafCount) := by
  by_cases hside : side = []
  · subst hside
    exact (if_neg hused.not_gt).symm
  · have hnonempty : ¬ side.isEmpty := by simpa using hside
    rw [highlightSide_of_ne_nil hside, countedForest, if_neg hnonempty]
    cases Engine.highlight s (sideText side) grammar with
    | error fault => rfl
    | ok g =>
      simp only [Except.map, Forest.flatten_some, sideLines, if_neg hnonempty]
      by_cases hfits : (options.shown g).leafCount ≤ options.limit - used
      · have hlt : ¬ options.limit < used + (options.shown g).leafCount := by omega
        rw [if_pos hfits, if_neg hlt]
        simp [Forest.length_pieces]
      · have hlt : options.limit < used + (options.shown g).leafCount := by omega
        have hcount : used + (options.limit - used + 1) = options.limit + 1 := by omega
        rw [if_neg hfits, if_pos hlt]
        simp [hcount]

section Outcomes

variable {f : Forest}

theorem highlightSide_of_fault {fault : EngineFault} (hused : used ≤ options.limit)
    (h : countedForest s side grammar options = .error fault) :
    highlightSide s side grammar options used = .error (.engine fault) := by
  rw [highlightSide_eq hused, h]

theorem highlightSide_of_exceeded (hused : used ≤ options.limit)
    (h : countedForest s side grammar options = .ok f)
    (hover : options.limit < used + f.leafCount) :
    highlightSide s side grammar options used =
      .error (.limitExceeded options.limit (options.limit + 1)) := by
  rw [highlightSide_eq hused, h]
  exact if_pos hover

theorem highlightSide_of_fits (hused : used ≤ options.limit)
    (h : countedForest s side grammar options = .ok f)
    (hfits : ¬ options.limit < used + f.leafCount) :
    highlightSide s side grammar options used =
      .ok (sideLines side f, used + f.leafCount) := by
  rw [highlightSide_eq hused, h]
  exact if_neg hfits

end Outcomes

/-! ### Both sides -/

/-- The limit is held against the texts of the old side, and then against those of both. -/
theorem highlightHunks_eq (s : σ) (hunks : List Hunk) (grammar : String) (options : DiffOptions) :
    highlightHunks s hunks grammar options =
      match countedForest s (hunks.flatMap Hunk.oldSide) grammar options with
      | .error fault => .error (.engine fault)
      | .ok f =>
        if options.limit < f.leafCount then
          .error (.limitExceeded options.limit (options.limit + 1))
        else
          match countedForest (afterSide s (hunks.flatMap Hunk.oldSide) grammar)
            (hunks.flatMap Hunk.newSide) grammar options with
          | .error fault => .error (.engine fault)
          | .ok g =>
            if options.limit < f.leafCount + g.leafCount then
              .error (.limitExceeded options.limit (options.limit + 1))
            else .ok ⟨sideLines (hunks.flatMap Hunk.oldSide) f,
              sideLines (hunks.flatMap Hunk.newSide) g⟩ := by
  have hstart : 0 ≤ options.limit := Nat.zero_le _
  rw [highlightHunks_bind]
  cases hold : countedForest s (hunks.flatMap Hunk.oldSide) grammar options with
  | error fault => rw [highlightSide_of_fault hstart hold, Except.bind]
  | ok f =>
    dsimp only
    by_cases hover : options.limit < 0 + f.leafCount
    · rw [highlightSide_of_exceeded hstart hold hover, if_pos (by simpa using hover), Except.bind]
    · rw [highlightSide_of_fits hstart hold hover]
      rw [Nat.zero_add] at hover ⊢
      rw [if_neg hover, Except.bind]
      dsimp only
      cases hnew : countedForest (afterSide s (hunks.flatMap Hunk.oldSide) grammar)
          (hunks.flatMap Hunk.newSide) grammar options with
      | error fault => rw [highlightSide_of_fault (not_lt.mp hover) hnew, Except.bind]
      | ok g =>
        dsimp only
        by_cases hboth : options.limit < f.leafCount + g.leafCount
        · rw [highlightSide_of_exceeded (not_lt.mp hover) hnew hboth, if_pos hboth, Except.bind]
        · rw [highlightSide_of_fits (not_lt.mp hover) hnew hboth, if_neg hboth, Except.bind]

/-- The engine is asked for the old side first, and for the new one if the old one succeeds. -/
theorem texts_afterHunks (s : σ) (hunks : List Hunk) (grammar : String) (options : DiffOptions) :
    (afterHunks (⟨s, []⟩ : Consulted σ) hunks grammar options).texts =
      sideTexts (hunks.flatMap Hunk.oldSide) ++
        match countedForest s (hunks.flatMap Hunk.oldSide) grammar options with
        | .error _ => []
        | .ok f =>
          if options.limit < f.leafCount then [] else sideTexts (hunks.flatMap Hunk.newSide) := by
  unfold afterHunks runHunks
  dsimp only
  rw [highlightSide_consulted, highlightSide_eq (Nat.zero_le _)]
  cases countedForest s (hunks.flatMap Hunk.oldSide) grammar options with
  | error fault => simp [texts_afterSide]
  | ok f =>
    by_cases hover : options.limit < f.leafCount
    · simp [hover, texts_afterSide]
    · simp [hover, texts_afterSide]

/-- Highlighting a diff fails with the engine on the old side, else on more texts of the old side
than the limit admits, else with the engine on the new side, else on more texts of both sides, and
else it succeeds with the lines of both. The count that it reports is the first beyond the limit.
The engine is asked for the new side only where the old one has succeeded, and for no side without
lines. Where white space is shown, a text with spaces or tabs counts twice for each of these and
once for each run of other characters, and another text once. -/
theorem highlightHunks_outcome (s : σ) (hunks : List Hunk) (grammar : String)
    (options : DiffOptions) :
    let oldSide := hunks.flatMap Hunk.oldSide
    let newSide := hunks.flatMap Hunk.newSide
    let old := countedForest s oldSide grammar options
    let new := countedForest (afterSide s oldSide grammar) newSide grammar options
    let exceeded : DiffTokensError := .limitExceeded options.limit (options.limit + 1)
    highlightHunks s hunks grammar options =
        (match old with
        | .error fault => .error (.engine fault)
        | .ok f =>
          if options.limit < f.leafCount then .error exceeded
          else match new with
            | .error fault => .error (.engine fault)
            | .ok g =>
              if options.limit < f.leafCount + g.leafCount then .error exceeded
              else .ok ⟨sideLines oldSide f, sideLines newSide g⟩) ∧
      (afterHunks (⟨s, []⟩ : Consulted σ) hunks grammar options).texts =
        sideTexts oldSide ++ (match old with
          | .error _ => []
          | .ok f => if options.limit < f.leafCount then [] else sideTexts newSide) ∧
      (∀ value : String, value.toList.countP isSpaceOrTab = 0 → visualizeText value = .text value) ∧
      (∀ value : String, 0 < value.toList.countP isSpaceOrTab → (visualizeText value).leafCount =
        2 * value.toList.countP isSpaceOrTab +
          (value.toList.splitOnP isSpaceOrTab).countP (· ≠ [])) ∧
      ∀ f : Forest, f.visualize.leafCount =
        ((f.leaves []).map fun leaf => (visualizeText leaf.2).leafCount).sum := by
  intro oldSide newSide old new exceeded
  exact ⟨highlightHunks_eq s hunks grammar options, texts_afterHunks s hunks grammar options,
    fun value => visualizeText_of_countP_eq_zero, fun value => leafCount_visualizeText,
    Forest.leafCount_visualize []⟩

/-- The old side counts four and the new side one. -/
def spacedHunk : Hunk := ⟨"", 1, 1, 1, 1, [⟨.delete, "a b"⟩, ⟨.insert, "c"⟩]⟩

/-- A limit of three is exceeded by the old side, one of four by both sides, and one of five is
not. -/
theorem highlightHunks_outcome_spacedHunk :
    let e : CaptureEngine := .new .empty
    let outcome (limit : Nat) := highlightHunks e [spacedHunk] plainText ⟨true, limit⟩
    let asked (limit : Nat) :=
      (afterHunks (⟨e, []⟩ : Consulted CaptureEngine) [spacedHunk] plainText ⟨true, limit⟩).texts
    outcome 3 = .error (.limitExceeded 3 4) ∧ asked 3 = ["a b"] ∧
      outcome 4 = .error (.limitExceeded 4 5) ∧ asked 4 = ["a b", "c"] ∧
      (outcome 5).toBool ∧ (visualizeText "a b").leafCount = 2 * 1 + 2 := by
  intro e outcome asked
  obtain ⟨hthree, haskedThree, -⟩ := highlightHunks_outcome e [spacedHunk] plainText ⟨true, 3⟩
  obtain ⟨hfour, haskedFour, -⟩ := highlightHunks_outcome e [spacedHunk] plainText ⟨true, 4⟩
  obtain ⟨hfive, -, -, hshown, -⟩ := highlightHunks_outcome e [spacedHunk] plainText ⟨true, 5⟩
  refine ⟨hthree.trans ?_, haskedThree.trans ?_, hfour.trans ?_, haskedFour.trans ?_, ?_,
    (hshown "a b" (by decide)).trans (by decide)⟩
  · cbv
  · cbv
  · cbv
  · cbv
  · rw [show outcome 5 = _ from hfive]
    cbv

end Highlighting
