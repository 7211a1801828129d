import Highlighting.Proofs.Loading.Walk
import Highlighting.Proofs.Worker.Laws

/-! What loading does to the registry of an engine. It adds grammars only, and never plain text;
the grammar that is asked for is always tried, whatever becomes of the grammars it depends on and
also where they depend on it in turn. -/

namespace Highlighting

variable {σ : Type} [Engine σ]

/-- One state has the registry of another and some accepted grammars more. -/
structure Dependable.Grown (d : Dependable σ) (s t : σ) : Prop where
  states : d.states t
  keeps : ∀ x, Engine.isRegistered s x = true → Engine.isRegistered t x = true
  gains : ∀ x, Engine.isRegistered t x = true →
    Engine.isRegistered s x = true ∨ (d.accepts x = true ∧ x ≠ plainText)

namespace Dependable

variable {d : Dependable σ} {s t u : σ}

theorem Grown.refl (h : d.states s) : d.Grown s s := ⟨h, fun _ hx => hx, fun _ hx => .inl hx⟩

theorem Grown.trans (hst : d.Grown s t) (htu : d.Grown t u) : d.Grown s u where
  states := htu.states
  keeps x hx := htu.keeps x (hst.keeps x hx)
  gains x hx := by
    rcases htu.gains x hx with hx | hx
    · exact hst.gains x hx
    · exact .inr hx

theorem grown_setTheme (h : d.states s) (theme : Theme) : d.Grown s (Engine.setTheme s theme) where
  states := d.states_setTheme theme h
  keeps x hx := by rwa [d.isRegistered_setTheme theme x h]
  gains x hx := by
    rw [d.isRegistered_setTheme theme x h] at hx
    exact .inl hx

theorem grown_afterHighlight (h : d.states s) (text grammar : String) :
    d.Grown s (Engine.afterHighlight s text grammar) where
  states := d.states_afterHighlight text grammar h
  keeps x hx := by rwa [d.isRegistered_afterHighlight text grammar x h]
  gains x hx := by
    rw [d.isRegistered_afterHighlight text grammar x h] at hx
    exact .inl hx

theorem isRegistered_register_iff (h : d.states s) (grammar : String) (dependencies : List String)
    (x : String) :
    Engine.isRegistered (Engine.register s grammar dependencies).2 x = true ↔
      Engine.isRegistered s x = true ∨ (d.accepts grammar = true ∧ x = grammar) := by
  rw [d.isRegistered_register grammar dependencies x h, d.isOk_register grammar dependencies h]
  simp

theorem grown_register (h : d.states s) {grammar : String} (dependencies : List String)
    (hplain : grammar ≠ plainText) :
    d.Grown s (Engine.register s grammar dependencies).2 where
  states := d.states_register grammar dependencies h
  keeps x hx := (isRegistered_register_iff h grammar dependencies x).mpr (.inl hx)
  gains x hx := by
    rcases (isRegistered_register_iff h grammar dependencies x).mp hx with hx | ⟨hx, rfl⟩
    · exact .inl hx
    · exact .inr ⟨hx, hplain⟩

/-! ### Steps of loading -/

/-- None of the steps registers plain text. -/
def Proper (steps : List LoadStep) : Prop :=
  ∀ grammar dependencies, .settle grammar dependencies ∈ steps → grammar ≠ plainText

theorem Proper.tail {step : LoadStep} {rest : List LoadStep} (h : Proper (step :: rest)) :
    Proper rest := fun g deps hmem => h g deps (List.mem_cons_of_mem step hmem)

theorem Proper.remaining {rest : List LoadStep} (h : Proper rest)
    (result : Except EngineFault Unit) : Proper (LoadStep.remaining result rest) :=
  fun g deps hmem => h g deps ((LoadStep.remaining_sublist result rest).subset hmem)

/-- Visiting a grammar brings in no plain text if it is none itself. -/
theorem Proper.visit {grammar : String} {dependencies names : List String} {rest : List LoadStep}
    (h : Proper rest) (hplain : grammar ≠ plainText) :
    Proper (names.map .visit ++ .settle grammar dependencies :: rest) := by
  intro g deps hmem
  rcases List.mem_append.mp hmem with hmem | hmem
  · obtain ⟨name, -, hname⟩ := List.mem_map.mp hmem
    cases hname
  · rcases List.mem_cons.mp hmem with hmem | hmem
    · cases hmem
      exact hplain
    · exact h g deps hmem

theorem grown_carryOut (t : Tables) (fresh : List String) {steps : List LoadStep}
    (report : LoadReport) (h : d.states s) (proper : Proper steps) :
    d.Grown s (t.carryOut fresh steps report s).2 := by
  fun_induction Tables.carryOut t fresh steps report s with
  | case1 => exact Grown.refl h
  | case2 fresh report s grammar dependencies rest result next hregister ih =>
    have hgrown := grown_register h dependencies (proper grammar dependencies List.mem_cons_self)
    rw [hregister] at hgrown
    exact hgrown.trans (ih hgrown.states (proper.tail.remaining result))
  | case3 fresh report s grammar rest skip ih => exact ih h proper.tail
  | case4 fresh report s grammar rest visited hagain ih => exact ih h proper.tail
  | case5 fresh report s grammar rest visited _ hfresh dependencies ih =>
    exact ih h (proper.tail.visit fun hplain => visited (.inl hplain))
  | case6 fresh report s grammar rest visited _ hfresh ih => exact ih h proper.tail

/-- Carrying out steps does not end in a crash. -/
theorem crash_carryOut (t : Tables) (fresh : List String) {steps : List LoadStep}
    (report : LoadReport) (h : d.states s) :
    (t.carryOut fresh steps report s).1.crash = report.crash := by
  fun_induction Tables.carryOut t fresh steps report s with
  | case1 => rfl
  | case2 fresh report s grammar dependencies rest result next hregister ih =>
    have hnext := d.states_register grammar dependencies h
    have hanswer := fun message => d.answers grammar dependencies message h
    rw [hregister] at hnext hanswer
    rw [ih hnext]
    rcases result with (e | message) | ⟨⟩
    · rfl
    · exact absurd rfl (hanswer message)
    · rfl
  | case3 _ _ _ _ _ _ ih => exact ih h
  | case4 _ _ _ _ _ _ _ ih => exact ih h
  | case5 _ _ _ _ _ _ _ _ _ ih => exact ih h
  | case6 _ _ _ _ _ _ _ _ ih => exact ih h

/-- A grammar that is to be settled is registered in the end if it is accepted, whatever stands
before it. -/
theorem isRegistered_of_settle (t : Tables) (fresh : List String) {steps : List LoadStep}
    (report : LoadReport) (h : d.states s) (proper : Proper steps) {grammar : String}
    {dependencies : List String} (hmem : .settle grammar dependencies ∈ steps)
    (haccepts : d.accepts grammar = true) :
    Engine.isRegistered (t.carryOut fresh steps report s).2 grammar = true := by
  fun_induction Tables.carryOut t fresh steps report s with
  | case1 => simp at hmem
  | case2 fresh report s g deps rest result next hregister ih =>
    have hgrown := grown_register h deps (proper g deps List.mem_cons_self)
    rw [hregister] at hgrown
    rcases List.mem_cons.mp hmem with hhead | hrest
    · cases hhead
      have hnow := (isRegistered_register_iff h grammar dependencies grammar).mpr
        (.inr ⟨haccepts, rfl⟩)
      rw [hregister] at hnow
      exact (grown_carryOut t fresh _ hgrown.states (proper.tail.remaining result)).keeps
        grammar hnow
    · have hanswer := fun message => d.answers g deps message h
      rw [hregister] at hanswer
      rw [LoadStep.remaining_of_ne hanswer] at ih ⊢
      exact ih hgrown.states proper.tail hrest
  | case3 fresh report s g rest skip ih =>
    exact ih h proper.tail (List.mem_of_ne_of_mem (by simp) hmem)
  | case4 fresh report s g rest visited hagain ih =>
    exact ih h proper.tail (List.mem_of_ne_of_mem (by simp) hmem)
  | case5 fresh report s g rest visited _ hfresh deps ih =>
    have hrest := List.mem_of_ne_of_mem (by simp) hmem
    refine ih h (proper.tail.visit fun hplain => visited (.inl hplain)) ?_
    exact List.mem_append_right _ (List.mem_cons_of_mem _ hrest)
  | case6 fresh report s g rest visited _ hfresh ih =>
    exact ih h proper.tail (List.mem_of_ne_of_mem (by simp) hmem)

/-! ### Loading -/

theorem grown_load (t : Tables) (language : String) (h : d.states s) :
    d.Grown s (t.load language s).2 := by
  unfold Tables.load
  refine grown_carryOut t _ _ h ?_
  intro g deps hmem
  simp at hmem

theorem crash_load (t : Tables) (language : String) (h : d.states s) :
    (t.load language s).1.crash = none := crash_carryOut t _ _ h

/-- Loading registers the grammar that is meant, unless it is plain text or not accepted. -/
theorem isRegistered_load_of_accepts (t : Tables) (language : String) (h : d.states s)
    (haccepts : d.accepts (t.resolve language) = true) (hplain : t.resolve language ≠ plainText) :
    Engine.isRegistered (t.load language s).2 (t.resolve language) = true := by
  by_cases hregistered : Engine.isRegistered s (t.resolve language) = true
  · exact (grown_load t language h).keeps _ hregistered
  · have visited : ¬ (t.resolve language = plainText ∨
        Engine.isRegistered s (t.resolve language) = true) := by
      rintro (hp | hr)
      · exact hplain hp
      · exact hregistered hr
    have unfailed : t.resolve language ∉ ([] : List (String × GrammarError)).map Prod.fst :=
      List.not_mem_nil
    have hfresh : t.resolve language ∈ t.reach (t.resolve language) := List.mem_cons_self
    have proper : Proper ([] : List LoadStep) := fun _ _ hmem => by simp at hmem
    have hmem : LoadStep.settle (t.resolve language) (t.edges (t.resolve language)) ∈
        (t.edges (t.resolve language)).map .visit ++
          [.settle (t.resolve language) (t.edges (t.resolve language))] :=
      List.mem_append_right _ List.mem_cons_self
    unfold Tables.load
    dsimp only
    rw [Tables.carryOut, if_neg visited, if_neg unfailed, if_pos hfresh]
    exact isRegistered_of_settle t _ _ h (proper.visit hplain) hmem haccepts

/-- After loading the grammar that is meant is registered if it was before or can be. -/
theorem isRegistered_load_iff (t : Tables) (language : String) (h : d.states s) :
    Engine.isRegistered (t.load language s).2 (t.resolve language) = true ↔
      Engine.isRegistered s (t.resolve language) = true ∨
        (d.accepts (t.resolve language) = true ∧ t.resolve language ≠ plainText) := by
  constructor
  · exact (grown_load t language h).gains _
  · rintro (hregistered | ⟨haccepts, hplain⟩)
    · exact (grown_load t language h).keeps _ hregistered
    · exact isRegistered_load_of_accepts t language h haccepts hplain

/-- What grew from one state loads a language like that state. -/
theorem Grown.isRegistered_load (h : d.Grown s t) (hs : d.states s) (tables : Tables)
    (language : String) :
    Engine.isRegistered (tables.load language t).2 (tables.resolve language) =
      Engine.isRegistered (tables.load language s).2 (tables.resolve language) := by
  rw [Bool.eq_iff_iff, isRegistered_load_iff tables language h.states,
    isRegistered_load_iff tables language hs]
  constructor
  · rintro (hregistered | hcan)
    · exact h.gains _ hregistered
    · exact .inr hcan
  · rintro (hregistered | hcan)
    · exact .inl (h.keeps _ hregistered)
    · exact .inr hcan

end Dependable

end Highlighting
