import Mathlib
import Highlighting.Diff.Tokens
import Highlighting.Proofs.Content.Answers
import Highlighting.Proofs.Text.Cutting

/-! The highlighted lines of a side of a diff are the lines of that side. They are joined, then
highlighted, shown with their white space, flattened and cut again; a token may hold any number of
line feeds, but none is made or lost on this way. -/

namespace Highlighting

/-! ### Visible white space -/

theorem content_visibleParts (run cs : List Char) :
    (Forest.content (visibleParts run cs)).toList = run.reverse ++ cs := by
  induction cs generalizing run with
  | nil => simp [visibleParts]
  | cons c cs ih =>
    unfold visibleParts
    split
    · have hrest := ih []
      rw [List.reverse_nil, List.nil_append] at hrest
      simp [Node.span, Forest.content, Node.content, hrest]
    · simp [ih]

theorem content_visualizeText (value : String) : (visualizeText value).content = value := by
  unfold visualizeText
  split
  · rw [← String.toList_inj, Node.span, Node.content, content_visibleParts]
    rfl
  · rfl

mutual

theorem Node.content_visualize : ∀ n : Node, n.visualize.content = n.content
  | .text value => content_visualizeText value
  | .element _ _ children => by
    simp [Node.visualize, Node.content, Forest.content_visualize children]

/-- Showing white space adds no character. -/
theorem Forest.content_visualize : ∀ f : Forest, Forest.content (Forest.visualize f) = f.content
  | [] => rfl
  | n :: rest => by
    simp [Forest.visualize, Forest.content, Node.content_visualize n,
      Forest.content_visualize rest]

end

/-! ### Cutting flat text -/

namespace LineItem

/-- The text that an item stands for. -/
def text : LineItem → List Char
  | fragment piece => piece.text.toList
  | lineEnd => ['\n']

end LineItem

/-- What is flattened of an engine's forest. -/
def DiffOptions.shown (options : DiffOptions) (f : Forest) : Forest :=
  if options.showWhitespace then f.visualize else f

theorem DiffOptions.content_shown (options : DiffOptions) (f : Forest) :
    (options.shown f).content = f.content := by
  unfold shown
  split
  · exact Forest.content_visualize f
  · rfl

variable {σ : Type} [Engine σ] {s : σ} {side : List String} {grammar : String}
  {options : DiffOptions} {used : Nat}

theorem highlightSide_nil : highlightSide s [] grammar options used = .ok ([], used) := rfl

/-- A side that has lines is highlighted as one text and cut into lines. -/
theorem highlightSide_of_ne_nil (hside : side ≠ []) :
    highlightSide s side grammar options used =
      match Engine.highlight s (sideText side) grammar with
      | .error fault => .error (.engine fault)
      | .ok f =>
        match (options.shown f).flatten (some (options.limit - used)) with
        | .error e => .error (.limitExceeded options.limit (used + e.count))
        | .ok flat => .ok ((splitLines flat).map (·.map FlatNode.toNode), used + flat.length) := by
  have hnonempty : ¬ side.isEmpty := by simpa using hside
  rw [highlightSide, if_neg hnonempty]
  cases Engine.highlight s (sideText side) grammar with
  | error fault => rfl
  | ok f =>
    change (Except.mapError _ ((options.shown f).flatten _)).bind _ = _
    dsimp only
    cases (options.shown f).flatten (some (options.limit - used)) <;> rfl

theorem exists_of_highlightSide (hside : side ≠ []) {lines : List Forest} {used' : Nat}
    (h : highlightSide s side grammar options used = .ok (lines, used')) :
    ∃ (f : Forest) (flat : List FlatNode),
      Engine.highlight s (sideText side) grammar = .ok f ∧
        (options.shown f).flatten (some (options.limit - used)) = .ok flat ∧
          lines = (splitLines flat).map (·.map FlatNode.toNode) ∧ used' = used + flat.length := by
  rw [highlightSide_of_ne_nil hside] at h
  split at h
  · cases h
  · next f hforest =>
    split at h
    · cases h
    · next flat hflat =>
      obtain ⟨rfl, rfl⟩ := Prod.mk.inj (Except.ok.inj h)
      exact ⟨f, flat, hforest, hflat, rfl, rfl⟩

/-- Both sides succeed, the new one after the old one, or the hunks fail. -/
theorem highlightHunks_bind (s : σ) (hunks : List Hunk) (grammar : String)
    (options : DiffOptions) :
    highlightHunks s hunks grammar options =
      (highlightSide s (hunks.flatMap Hunk.oldSide) grammar options 0).bind fun old =>
        (highlightSide (afterSide s (hunks.flatMap Hunk.oldSide) grammar)
          (hunks.flatMap Hunk.newSide) grammar options old.2).bind fun new =>
            .ok ⟨old.1, new.1⟩ := by
  unfold highlightHunks runHunks
  dsimp only
  cases highlightSide s (hunks.flatMap Hunk.oldSide) grammar options 0 with
  | error e => rfl
  | ok old => rfl

/-- Each side is highlighted within what the sides before it left of the limit. -/
theorem exists_of_highlightHunks {hunks : List Hunk} {tokens : DiffTokens}
    (h : highlightHunks s hunks grammar options = .ok tokens) :
    ∃ used used', highlightSide s (hunks.flatMap Hunk.oldSide) grammar options 0 =
        .ok (tokens.old, used) ∧
      highlightSide (afterSide s (hunks.flatMap Hunk.oldSide) grammar)
        (hunks.flatMap Hunk.newSide) grammar options used = .ok (tokens.new, used') := by
  rw [highlightHunks_bind] at h
  cases hold : highlightSide s (hunks.flatMap Hunk.oldSide) grammar options 0 with
  | error e => simp [hold, Except.bind] at h
  | ok first =>
    obtain ⟨old, used⟩ := first
    simp only [hold, Except.bind] at h
    cases hnew : highlightSide (afterSide s (hunks.flatMap Hunk.oldSide) grammar)
        (hunks.flatMap Hunk.newSide) grammar options used with
    | error e => simp [hnew] at h
    | ok second =>
      obtain ⟨new, used'⟩ := second
      simp only [hnew, Except.ok.injEq] at h
      subst h
      exact ⟨used, used', rfl, hnew⟩

/-- One token over three lines. -/
def spanningSource : CaptureSource where
  captures _ _ := [⟨"tag", 0, 6⟩]
  queryError? _ := none

end Highlighting
