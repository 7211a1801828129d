import Mathlib
import Highlighting.Proofs.Worker.Registry
import Highlighting.Proofs.Worker.Themes

/-! What a job can tell of the requests before it: the last theme, and nothing else. The registry
does grow with every job, but a job loads its own language first, and then the registry says the
same about it as in a new worker. -/

namespace Highlighting

variable {σ : Type} [Engine σ] {d : Dependable σ}

/-! ### Growth of the registry -/

namespace Dependable

variable {s : σ}

theorem grown_afterSide (h : d.states s) (side : List String) (grammar : String) :
    d.Grown s (afterSide s side grammar) := by
  unfold afterSide
  split
  · exact Grown.refl h
  · exact grown_afterHighlight h _ grammar

theorem grown_afterHunks (h : d.states s) (hunks : List Hunk) (grammar : String)
    (options : DiffOptions) : d.Grown s (afterHunks s hunks grammar options) := by
  have hold := grown_afterSide h (hunks.flatMap Hunk.oldSide) grammar
  unfold afterHunks runHunks
  dsimp only
  split
  · exact hold
  · exact hold.trans (grown_afterSide hold.states _ grammar)

end Dependable

namespace Worker

/-- One worker is another after requests: its languages and its limit are the same, its registry
may have grown. -/
structure Later (d : Dependable σ) (w v : Worker σ) : Prop where
  tables : v.tables = w.tables
  diffLimit : v.diffLimit = w.diffLimit
  engine : d.Grown w.engine v.engine

/-- A language is loaded whatever fails, since registering does not crash. -/
theorem load_fst_of_states {w : Worker σ} (language : String) (h : d.states w.engine) :
    (w.load language).1 = .ok (w.tables.resolve language) :=
  w.load_fst_of_crash_eq_none (Dependable.crash_load w.tables language h)

theorem forestOf_of_states {w : Worker σ} (job : HighlightJob) (h : d.states w.engine) :
    w.forestOf job = Engine.highlight (w.tables.load job.language w.engine).2 job.value
      (w.tables.resolve job.language) := by
  unfold forestOf
  rw [load_fst_of_states job.language h]
  rfl

/-- A request takes a worker to a later one. -/
theorem Later.handle {w v : Worker σ} (h : Later d w v) (r : Request) :
    Later d w (v.handle r).2 := by
  have hstates := h.engine.states
  cases r with
  | theme t =>
    exact ⟨h.tables, h.diffLimit, h.engine.trans (Dependable.grown_setTheme hstates t)⟩
  | highlight id job =>
    have hload := Dependable.grown_load v.tables job.language hstates
    rw [handle_highlight_snd, v.highlight_of_load_eq_ok (load_fst_of_states job.language hstates)]
    refine ⟨h.tables, h.diffLimit, h.engine.trans (hload.trans ?_)⟩
    exact Dependable.grown_afterHighlight hload.states job.value _
  | tokenize id job =>
    have hload := Dependable.grown_load v.tables job.language hstates
    rw [handle_tokenize_snd, v.tokenize_of_load_eq_ok (load_fst_of_states job.language hstates)]
    refine ⟨h.tables, h.diffLimit, h.engine.trans (hload.trans ?_)⟩
    exact Dependable.grown_afterHunks hload.states job.hunks _ _

theorem later_handleAll {w : Worker σ} (h : d.states w.engine) (requests : List Request) :
    Later d w (w.handleAll requests).2 :=
  w.handleAll_induction ⟨rfl, rfl, Dependable.Grown.refl h⟩ (fun _ r hv => hv.handle r) requests

end Worker

/-! ### Answers -/

namespace Dependable

/-- The engine can tell no difference between two states for one grammar: the themes are equal, and
the grammar is registered in both or in none. -/
structure Agree (d : Dependable σ) (grammar : String) (s t : σ) : Prop where
  left : d.states s
  right : d.states t
  theme : d.theme s = d.theme t
  registered : Engine.isRegistered s grammar = Engine.isRegistered t grammar

variable {grammar : String} {s t : σ}

theorem Agree.highlight (h : d.Agree grammar s t) (text : String) :
    Engine.highlight s text grammar = Engine.highlight t text grammar := by
  rw [d.highlight_eq text grammar h.left, d.highlight_eq text grammar h.right, h.theme,
    h.registered]

theorem Agree.afterSide (h : d.Agree grammar s t) (side : List String) :
    d.Agree grammar (afterSide s side grammar) (afterSide t side grammar) := by
  unfold Highlighting.afterSide
  split
  · exact h
  · refine ⟨d.states_afterHighlight _ grammar h.left, d.states_afterHighlight _ grammar h.right,
      ?_, ?_⟩
    · rw [d.theme_afterHighlight, d.theme_afterHighlight, h.theme]
    · rw [d.isRegistered_afterHighlight _ grammar grammar h.left,
        d.isRegistered_afterHighlight _ grammar grammar h.right, h.registered]

theorem Agree.highlightSide (h : d.Agree grammar s t) (side : List String) (options : DiffOptions)
    (used : Nat) :
    highlightSide s side grammar options used = highlightSide t side grammar options used := by
  unfold Highlighting.highlightSide
  rw [h.highlight]

theorem Agree.highlightHunks (h : d.Agree grammar s t) (hunks : List Hunk)
    (options : DiffOptions) :
    highlightHunks s hunks grammar options = highlightHunks t hunks grammar options := by
  have hnew := h.afterSide (hunks.flatMap Hunk.oldSide)
  unfold Highlighting.highlightHunks runHunks
  simp only [h.highlightSide, hnew.highlightSide]
  split <;> rfl

end Dependable

namespace Worker

/-- Two workers that are later than one, under equal themes, agree on each language once they have
loaded it. -/
theorem Later.agree {w u v : Worker σ} (hu : Later d w u) (hv : Later d w v)
    (hw : d.states w.engine) (theme : d.theme u.engine = d.theme v.engine) (language : String) :
    d.Agree (w.tables.resolve language) (w.tables.load language u.engine).2
      (w.tables.load language v.engine).2 where
  left := (Dependable.grown_load w.tables language hu.engine.states).states
  right := (Dependable.grown_load w.tables language hv.engine.states).states
  theme := by rw [d.theme_load, d.theme_load, theme]
  registered := by
    rw [hu.engine.isRegistered_load hw, hv.engine.isRegistered_load hw]

/-- They give the same answers. -/
theorem Later.handle_eq {w u v : Worker σ} (hu : Later d w u) (hv : Later d w v)
    (hw : d.states w.engine) (theme : d.theme u.engine = d.theme v.engine) (r : Request) :
    (u.handle r).1 = (v.handle r).1 := by
  cases r with
  | theme t => rfl
  | highlight id job =>
    have hforest : u.forestOf job = v.forestOf job := by
      rw [forestOf_of_states job hu.engine.states, forestOf_of_states job hv.engine.states,
        hu.tables, hv.tables]
      exact (hu.agree hv hw theme job.language).highlight job.value
    rw [handle_highlight, handle_highlight, highlight_fst, highlight_fst, hforest]
  | tokenize id job =>
    have hjob : (u.tokenize job).1 = (v.tokenize job).1 := by
      have htokens := (hu.agree hv hw theme job.language).highlightHunks job.hunks
        ⟨job.whitespace, w.diffLimit⟩
      rw [u.tokenize_of_load_eq_ok (load_fst_of_states job.language hu.engine.states),
        v.tokenize_of_load_eq_ok (load_fst_of_states job.language hv.engine.states)]
      simp only [load_snd, hu.tables, hv.tables, hu.diffLimit, hv.diffLimit, htokens]
    rw [handle_tokenize, handle_tokenize, hjob]

/-- The worker forgets: after requests it answers as a new worker does that has only been sent the
last theme of these requests, if they set one. -/
def Forgets (w : Worker σ) : Prop :=
  ∀ (history : List Request) (r : Request),
    ((w.handleAll history).2.handle r).1 =
      ((w.handleAll ((lastTheme? history).toList.map .theme)).2.handle r).1

end Worker

/-- A job is answered without a trace of the requests before it, but for the last theme: those may
have failed, have gone over their limit or have crashed the engine, and their languages may depend
on each other in cycles. This holds of the engine of captures and of the engine of words, in every
state, and of every engine whose memory is its theme and its registry. -/
theorem Worker.answer_independent :
    (∀ w : Worker CaptureEngine, w.Forgets) ∧ (∀ w : Worker WordEngine, w.Forgets) ∧
      ∀ (σ : Type) [Engine σ] (d : Dependable σ) (w : Worker σ), d.states w.engine →
        w.Forgets := by
  have forgets : ∀ (σ : Type) [Engine σ] (d : Dependable σ) (w : Worker σ), d.states w.engine →
      w.Forgets := by
    intro σ _ d w hw history r
    have hthemes : lastTheme? ((lastTheme? history).toList.map .theme) = lastTheme? history := by
      cases lastTheme? history <;> rfl
    have htheme : d.theme (w.handleAll history).2.engine =
        d.theme (w.handleAll ((lastTheme? history).toList.map .theme)).2.engine := by
      rw [d.theme_handleAll, d.theme_handleAll, hthemes]
    exact (later_handleAll hw history).handle_eq (later_handleAll hw _) hw htheme r
  refine ⟨fun w => ?_, fun w => ?_, forgets⟩
  · exact forgets CaptureEngine (CaptureEngine.dependable w.engine.source) w rfl
  · exact forgets WordEngine (WordEngine.dependable w.engine.failing) w rfl

/-- Two grammars that depend on each other, one of them also on a third. -/
def cyclicTables : Tables := ⟨∅, .ofList [("a", ["b", "c"]), ("b", ["a"])]⟩

/-- The third grammar fails, a job crashes the engine, and the theme changes in between. -/
theorem Worker.answer_independent_cyclic :
    let d := WordEngine.dependable ["c"]
    let w : Worker WordEngine := ⟨⟨["c"], [], .empty⟩, cyclicTables, 600⟩
    let named : Theme := ⟨.single "word" "name"⟩
    let history : List Request := [.highlight 1 ⟨"@panic@", "b", none, false, none⟩,
      .theme named, .tokenize 2 ⟨[], "c", false⟩, .highlight 3 ⟨"y", "c", some 1, true, none⟩]
    d.states w.engine ∧
      ((w.handleAll history).2.handle (.highlight 4 ⟨"x", "a", none, false, none⟩)).1 =
        some (.success 4 (.tree [.span ["token", "name"] [.text "x"]])) := by
  intro d w named history
  have hstates : d.states w.engine := rfl
  have hforgets := answer_independent.2.2 WordEngine d w hstates history
    (.highlight 4 ⟨"x", "a", none, false, none⟩)
  refine ⟨hstates, hforgets.trans ?_⟩
  have hthemed : d.states (Engine.setTheme w.engine named) := rfl
  have hmeans : cyclicTables.resolve "a" = "a" := by cbv
  have hregistered : Engine.isRegistered
      (cyclicTables.load "a" (Engine.setTheme w.engine named)).2 "a" = true := by
    have hiff := Dependable.isRegistered_load_iff cyclicTables "a" hthemed
    rw [hmeans] at hiff
    exact hiff.mpr (.inr ⟨by decide, by decide⟩)
  have hcalm : WordEngine.crash? "x" "a" = none := by decide +kernel
  have hforest : Engine.highlight (cyclicTables.load "a" (Engine.setTheme w.engine named)).2
      "x" "a" = .ok [.span ["token", "name"] [.text "x"]] := by
    rw [d.highlight_eq "x" "a" (Dependable.grown_load cyclicTables "a" hthemed).states,
      d.theme_load, d.theme_setTheme, hregistered]
    simp only [d, WordEngine.dependable, hcalm, if_true]
    cbv
  change ((Worker.mk (Engine.setTheme w.engine named) cyclicTables 600).handle _).1 = _
  rw [handle_highlight, highlight_fst, forestOf_of_states _ hthemed, hmeans, hforest]
  cbv

end Highlighting
