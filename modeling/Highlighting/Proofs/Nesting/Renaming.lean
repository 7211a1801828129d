import Mathlib
import Highlighting.Grammar.Captured

/-! Themes rename classes and do nothing else. No step from captures to a tree looks at the classes
of a span, so each of them may be made before the renaming or after it. -/

namespace Highlighting

/-! ### Renaming the classes of a tree -/

mutual

/-- A node whose elements have other names for their classes, in the same order. -/
def Node.mapClasses (g : String → String) : Node → Node
  | .text value => .text value
  | .element tag properties children =>
    .element tag { properties with classes := properties.classes.map g }
      (Forest.mapClasses g children)

def Forest.mapClasses (g : String → String) : Forest → Forest
  | [] => []
  | n :: rest => n.mapClasses g :: Forest.mapClasses g rest

end

namespace Forest

variable (g : String → String)

theorem mapClasses_append (f f' : Forest) :
    mapClasses g (f ++ f') = mapClasses g f ++ mapClasses g f' := by
  induction f with
  | nil => rfl
  | cons n f ih => exact congrArg (n.mapClasses g :: ·) ih

@[simp] theorem mapClasses_plain (text : String) : mapClasses g (plain text) = plain text := by
  unfold plain
  split <;> rfl

@[simp] theorem mapClasses_leaf (text : List Char) : mapClasses g (leaf text) = leaf text :=
  mapClasses_plain g _

theorem mapClasses_span_cons (classes : List String) (children rest : Forest) :
    mapClasses g (.span classes children :: rest) =
      .span (classes.map g) (mapClasses g children) :: mapClasses g rest := rfl

end Forest

@[simp] theorem Theme.apply_empty (classes : List String) : Theme.empty.apply classes = classes :=
  List.map_id classes

/-! ### Renaming the classes of spans -/

namespace Span

variable (g : String → String)

/-- A span with other names for its classes. -/
def rename (s : Span) : Span := { s with classes := s.classes.map g }

@[simp] theorem start_rename (s : Span) : (s.rename g).start = s.start := rfl

@[simp] theorem stop_rename (s : Span) : (s.rename g).stop = s.stop := rfl

theorem before_rename (a b : Span) : before (a.rename g) (b.rename g) = before a b := rfl

theorem inside_rename (s : Span) (rest : List Span) :
    (s.rename g).inside (rest.map (rename g)) = (s.inside rest).map (rename g) := by
  unfold inside
  rw [List.takeWhile_map, List.filter_map]
  rfl

theorem behind_rename (s : Span) (rest : List Span) :
    (s.rename g).behind (rest.map (rename g)) = (s.behind rest).map (rename g) := by
  unfold behind
  rw [List.dropWhile_map]
  rfl

/-- Which spans repeat a range does not depend on their classes. -/
theorem dropRepeated_rename (spans : List Span) :
    dropRepeated (spans.map (rename g)) = (dropRepeated spans).map (rename g) := by
  fun_induction dropRepeated spans with
  | case1 => simp [dropRepeated]
  | case2 a => simp [dropRepeated]
  | case3 a b rest same ih =>
    rw [List.map_cons, List.map_cons, dropRepeated, start_rename, start_rename, stop_rename,
      stop_rename, if_pos same]
    exact ih
  | case4 a b rest differ ih =>
    rw [List.map_cons, List.map_cons, dropRepeated, start_rename, start_rename, stop_rename,
      stop_rename, if_neg differ, List.map_cons]
    exact congrArg (a.rename g :: ·) ih

/-- Nor does the place of a span in the tree. -/
theorem nest_rename (start : Nat) (text : List Char) (spans : List Span) :
    nest start text (spans.map (rename g)) = (nest start text spans).mapClasses g := by
  fun_induction nest start text spans with
  | case1 start text => simp [nest]
  | case2 start text s rest between later hbetween covered tail hcovered ihinside ihbehind =>
    rw [List.map_cons, nest, inside_rename, behind_rename]
    simp only [rename, hbetween, hcovered, Forest.mapClasses_append, Forest.mapClasses_leaf,
      Forest.mapClasses_span_cons, ← ihinside, ← ihbehind]

/-! ### Themes -/

variable (theme : Theme) (text : List Char)

theorem ofCapture?_theme (c : Capture) :
    ofCapture? theme text c = (ofCapture? .empty text c).map (rename theme.rename) := by
  unfold ofCapture?
  cases tokenClasses? c.name with
  | none => rfl
  | some classes =>
    simp only [Option.bind_eq_bind, Option.bind_some, Theme.apply_empty]
    split <;> rfl

/-- The same captures give a span under every theme, in the same order. -/
theorem ofCaptures_theme (captures : List Capture) :
    ofCaptures theme text captures =
      (ofCaptures .empty text captures).map (rename theme.rename) := by
  have hfilter : captures.filterMap (ofCapture? theme text) =
      (captures.filterMap (ofCapture? .empty text)).map (rename theme.rename) := by
    rw [List.map_filterMap, ← funext (ofCapture?_theme theme text)]
  unfold ofCaptures
  rw [hfilter, ← dropRepeated_rename,
    List.map_mergeSort fun a _ b _ => (before_rename theme.rename a b).symm]

end Span

theorem highlightCaptures_theme (theme : Theme) (text : String) (captures : List Capture) :
    highlightCaptures theme text captures =
      (highlightCaptures .empty text captures).mapClasses theme.rename := by
  unfold highlightCaptures
  rw [Span.ofCaptures_theme, Span.nest_rename]

namespace CaptureEngine

theorem setTheme_eq (e : CaptureEngine) (theme : Theme) :
    Engine.setTheme e theme = ⟨e.source, e.grammars, theme⟩ := rfl

/-- Under a theme an engine gives the tree that it gives under the empty theme, with every class of
every element renamed. The elements with their tags and further properties, what they hold and the
order of their classes stay, also where two classes get one name. -/
theorem highlight_setTheme (e : CaptureEngine) (theme : Theme) (text grammar : String) :
    (Engine.setTheme e theme).highlight text grammar =
      ((Engine.setTheme e Theme.empty).highlight text grammar).map
        (Forest.mapClasses theme.rename) := by
  rw [setTheme_eq, setTheme_eq, highlight, highlight]
  dsimp only
  by_cases hplain : grammar = plainText
  · rw [if_pos hplain, if_pos hplain, Except.map, Forest.mapClasses_plain]
  rw [if_neg hplain, if_neg hplain]
  by_cases hregistered : grammar ∈ e.grammars
  · rw [if_pos hregistered, if_pos hregistered, Except.map, highlightCaptures_theme]
  · rw [if_neg hregistered, if_neg hregistered, Except.map]

/-- Two classes of a span get one name, and they stay two. -/
example : highlightCaptures ⟨Dict.ofList [("tag", "x"), ("token", "x")]⟩ "abc" [⟨"tag", 1, 2⟩] =
    [.text "a", .span ["x", "x"] [.text "b"], .text "c"] := by cbv

end CaptureEngine

end Highlighting
