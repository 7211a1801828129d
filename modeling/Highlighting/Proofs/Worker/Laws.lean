import Mathlib
import Highlighting.Grammar.Captured
import Highlighting.Grammar.Words

/-! What engines promise: what a request may change of their state, and what their answers depend
on. The engine of captures and the engine of words keep to it. -/

namespace Highlighting

/-- An engine in which the theme can be seen. Only setting one changes it. -/
structure ThemeView (σ : Type) [Engine σ] where
  theme : σ → Theme
  theme_setTheme : ∀ (s : σ) (t : Theme), theme (Engine.setTheme s t) = t
  theme_register : ∀ (s : σ) (grammar : String) (dependencies : List String),
    theme (Engine.register s grammar dependencies).2 = theme s
  theme_afterHighlight : ∀ (s : σ) (text grammar : String),
    theme (Engine.afterHighlight s text grammar) = theme s

/-- An engine that has no memory beside its theme and its registry. A grammar is accepted or
refused, whenever it is registered and whatever it depends on; an accepted one is added to the
registry. Highlighting answers by the text, the grammar, the theme and whether the grammar is
registered. All this is asked of some states only, which the engine does not leave. -/
structure Dependable (σ : Type) [Engine σ] extends ThemeView σ where
  states : σ → Prop
  accepts : (grammar : String) → Bool
  answer : (text grammar : String) → Theme → (registered : Bool) → Except EngineFault Forest
  states_setTheme : ∀ {s : σ} (t : Theme), states s → states (Engine.setTheme s t)
  states_register : ∀ {s : σ} (grammar : String) (dependencies : List String), states s →
    states (Engine.register s grammar dependencies).2
  states_afterHighlight : ∀ {s : σ} (text grammar : String), states s →
    states (Engine.afterHighlight s text grammar)
  answers : ∀ {s : σ} (grammar : String) (dependencies : List String) (message : Option String),
    states s → (Engine.register s grammar dependencies).1 ≠ .error (.crashed message)
  isOk_register : ∀ {s : σ} (grammar : String) (dependencies : List String), states s →
    (Engine.register s grammar dependencies).1.isOk = accepts grammar
  isRegistered_register : ∀ {s : σ} (grammar : String) (dependencies : List String) (x : String),
    states s → Engine.isRegistered (Engine.register s grammar dependencies).2 x =
      (Engine.isRegistered s x || (Engine.register s grammar dependencies).1.isOk && x == grammar)
  isRegistered_setTheme : ∀ {s : σ} (t : Theme) (x : String), states s →
    Engine.isRegistered (Engine.setTheme s t) x = Engine.isRegistered s x
  isRegistered_afterHighlight : ∀ {s : σ} (text grammar x : String), states s →
    Engine.isRegistered (Engine.afterHighlight s text grammar) x = Engine.isRegistered s x
  highlight_eq : ∀ {s : σ} (text grammar : String), states s → Engine.highlight s text grammar =
    answer text grammar (theme s) (Engine.isRegistered s grammar)

/-! ### The engines -/

namespace CaptureEngine

theorem source_register (e : CaptureEngine) (grammar : String) (dependencies : List String) :
    (e.register grammar dependencies).2.source = e.source ∧
      (e.register grammar dependencies).2.theme = e.theme := by
  unfold register
  split
  · split
    · exact ⟨rfl, rfl⟩
    · split <;> exact ⟨rfl, rfl⟩
  · exact ⟨rfl, rfl⟩

theorem register_ne_crashed (e : CaptureEngine) (grammar : String) (dependencies : List String)
    (message : Option String) :
    (e.register grammar dependencies).1 ≠ .error (.crashed message) := by
  unfold register
  split
  · split
    · simp
    · split <;> simp
  · simp

/-- The grammars that can be registered are those whose queries compile. -/
def accepts (source : CaptureSource) (grammar : String) : Bool :=
  decide (grammar ∈ builtinGrammars) && (source.queryError? grammar).isNone

theorem isOk_register (e : CaptureEngine) (grammar : String) (dependencies : List String) :
    (e.register grammar dependencies).1.isOk = accepts e.source grammar := by
  unfold register accepts
  by_cases hbuiltin : grammar ∈ builtinGrammars
  · rw [if_pos hbuiltin]
    cases hquery : e.source.queryError? grammar with
    | some message => simp [Except.isOk, Except.toBool]
    | none =>
      by_cases hmem : grammar ∈ e.grammars
      · simp [hmem, hbuiltin, Except.isOk, Except.toBool]
      · simp [hmem, hbuiltin, Except.isOk, Except.toBool]
  · simp [hbuiltin, Except.isOk, Except.toBool]

theorem isRegistered_register (e : CaptureEngine) (grammar : String) (dependencies : List String)
    (x : String) : (e.register grammar dependencies).2.isRegistered x =
      (e.isRegistered x || (e.register grammar dependencies).1.isOk && x == grammar) := by
  unfold register
  split
  · split
    · simp [Except.isOk, Except.toBool]
    · split
      · next hmem =>
        rw [Bool.eq_iff_iff]
        simp only [isRegistered, Except.isOk, Except.toBool, Bool.true_and, Bool.or_eq_true,
          beq_iff_eq, List.contains_iff_mem]
        constructor
        · exact fun h => .inl h
        · rintro (h | rfl)
          · exact h
          · exact .inr hmem
      · rw [Bool.eq_iff_iff]
        simp [isRegistered, Except.isOk, Except.toBool, or_assoc]
  · simp [Except.isOk, Except.toBool]

/-- The engine of captures has no memory beside its theme and its registry, as long as its grammars
find the same in the same text. -/
def dependable (source : CaptureSource) : Dependable CaptureEngine where
  theme := CaptureEngine.theme
  theme_setTheme _ _ := rfl
  theme_register e grammar dependencies := (e.source_register grammar dependencies).2
  theme_afterHighlight _ _ _ := rfl
  states e := e.source = source
  accepts := accepts source
  answer text grammar theme registered :=
    if grammar = plainText then .ok (Forest.plain text)
    else if registered then
      .ok (highlightCaptures theme text (source.captures grammar text))
    else .error (.refused (.notRegistered grammar))
  states_setTheme _ h := h
  states_register {e} grammar dependencies h :=
    (e.source_register grammar dependencies).1.trans h
  states_afterHighlight _ _ h := h
  answers {e} grammar dependencies message _ := e.register_ne_crashed grammar dependencies message
  isOk_register {e} grammar dependencies h := by
    rw [← h]
    exact e.isOk_register grammar dependencies
  isRegistered_register {e} grammar dependencies x _ :=
    e.isRegistered_register grammar dependencies x
  isRegistered_setTheme _ _ _ := rfl
  isRegistered_afterHighlight _ _ _ _ := rfl
  highlight_eq {e} text grammar h := by
    change e.highlight text grammar = _
    unfold highlight
    by_cases hplain : grammar = plainText
    · rw [if_pos hplain, if_pos hplain]
    · rw [if_neg hplain, if_neg hplain, ← h]
      simp [Engine.isRegistered, isRegistered, hplain]

end CaptureEngine

namespace WordEngine

/-- The engine of words has no memory beside its theme and its registry either, and it crashes on
the same texts. -/
def dependable (failing : List String) : Dependable WordEngine where
  theme := WordEngine.theme
  theme_setTheme _ _ := rfl
  theme_register e grammar dependencies := by
    change (e.register grammar dependencies).2.theme = e.theme
    unfold register
    split <;> rfl
  theme_afterHighlight _ _ _ := rfl
  states e := e.failing = failing
  accepts grammar := decide (grammar ∉ failing)
  answer text grammar theme registered :=
    if registered then
      match crash? text grammar with
      | some fault => .error fault
      | none => .ok ((tokens none text.toList).map (tokenNode theme))
    else .error (.refused (.notRegistered grammar))
  states_setTheme _ h := h
  states_register {e} grammar dependencies h := by
    change (e.register grammar dependencies).2.failing = failing
    unfold register
    split <;> exact h
  states_afterHighlight _ _ h := h
  answers {e} grammar dependencies message _ := by
    change (e.register grammar dependencies).1 ≠ _
    unfold register
    split <;> simp
  isOk_register {e} grammar dependencies h := by
    change (e.register grammar dependencies).1.isOk = _
    rw [← h]
    unfold register
    split
    · next hmem => simp [hmem, Except.isOk, Except.toBool]
    · next hmem => simp [hmem, Except.isOk, Except.toBool]
  isRegistered_register {e} grammar dependencies x _ := by
    change (e.register grammar dependencies).2.isRegistered x =
      (e.isRegistered x || (e.register grammar dependencies).1.isOk && x == grammar)
    unfold register
    split
    · simp [Except.isOk, Except.toBool]
    · rw [Bool.eq_iff_iff]
      simp [isRegistered, Except.isOk, Except.toBool, or_assoc]
  isRegistered_setTheme _ _ _ := rfl
  isRegistered_afterHighlight _ _ _ _ := rfl
  highlight_eq _ _ _ := rfl

end WordEngine

end Highlighting
