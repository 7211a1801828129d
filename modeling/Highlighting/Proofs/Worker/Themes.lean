import Highlighting.Proofs.Worker.Handling
import Highlighting.Proofs.Worker.Laws

/-! The theme under which a worker answers. It is the one that was set last; jobs do not change
it. -/

namespace Highlighting

/-- The theme that a request sets. -/
def Request.theme? : Request → Option Theme
  | theme t => some t
  | _ => none

/-- The last theme that requests set. -/
def lastTheme? (requests : List Request) : Option Theme :=
  (requests.filterMap Request.theme?).getLast?

variable {σ : Type} [Engine σ]

namespace ThemeView

variable (v : ThemeView σ)

theorem theme_carryOut (t : Tables) (fresh : List String) (steps : List LoadStep)
    (report : LoadReport) (s : σ) :
    v.theme (t.carryOut fresh steps report s).2 = v.theme s := by
  fun_induction Tables.carryOut t fresh steps report s with
  | case1 => rfl
  | case2 fresh report s grammar dependencies rest result next hregister ih =>
    have hkept := v.theme_register s grammar dependencies
    rw [hregister] at hkept
    exact ih.trans hkept
  | case3 _ _ _ _ _ _ ih => exact ih
  | case4 _ _ _ _ _ _ _ ih => exact ih
  | case5 _ _ _ _ _ _ _ _ _ ih => exact ih
  | case6 _ _ _ _ _ _ _ _ ih => exact ih

theorem theme_load (t : Tables) (language : String) (s : σ) :
    v.theme (t.load language s).2 = v.theme s := v.theme_carryOut t _ _ _ s

theorem theme_afterSide (s : σ) (side : List String) (grammar : String) :
    v.theme (afterSide s side grammar) = v.theme s := by
  unfold afterSide
  split
  · rfl
  · exact v.theme_afterHighlight s _ grammar

theorem theme_afterHunks (s : σ) (hunks : List Hunk) (grammar : String) (options : DiffOptions) :
    v.theme (afterHunks s hunks grammar options) = v.theme s := by
  unfold afterHunks runHunks
  dsimp only
  split
  · rw [theme_afterSide]
  · rw [theme_afterSide, theme_afterSide]

/-- A request leaves the theme unless it sets one. -/
theorem theme_handle (w : Worker σ) (r : Request) :
    v.theme (w.handle r).2.engine = r.theme?.getD (v.theme w.engine) := by
  cases r with
  | theme t => exact v.theme_setTheme w.engine t
  | highlight id job =>
    rw [Worker.handle_highlight_snd]
    cases hload : (w.load job.language).1 with
    | error fault =>
      rw [w.highlight_of_load_eq_error hload]
      exact v.theme_load _ _ _
    | ok grammar =>
      rw [w.highlight_of_load_eq_ok hload]
      exact (v.theme_afterHighlight _ _ _).trans (v.theme_load _ _ _)
  | tokenize id job =>
    rw [Worker.handle_tokenize_snd]
    cases hload : (w.load job.language).1 with
    | error fault =>
      rw [w.tokenize_of_load_eq_error hload]
      exact v.theme_load _ _ _
    | ok grammar =>
      rw [w.tokenize_of_load_eq_ok hload]
      exact (v.theme_afterHunks _ _ _ _).trans (v.theme_load _ _ _)

/-- After requests the theme is the last that they set. -/
theorem theme_handleAll (w : Worker σ) (requests : List Request) :
    v.theme (w.handleAll requests).2.engine = (lastTheme? requests).getD (v.theme w.engine) := by
  induction requests generalizing w with
  | nil => rfl
  | cons r rest ih =>
    rw [Worker.handleAll_cons, ih, v.theme_handle]
    unfold lastTheme?
    cases htheme : r.theme? with
    | none => rw [List.filterMap_cons_none htheme, Option.getD_none]
    | some t =>
      rw [List.filterMap_cons_some htheme, List.getLast?_cons, Option.getD_some, Option.getD_some]

end ThemeView

end Highlighting
