import Highlighting.Proofs.Loading.Isolation

/-! Loading several languages one after the other. A load does not go on behind a grammar that an
earlier one registered, so each order of loads walks other ways. The registry comes out the same:
it gains the accepted grammars that dependencies lead to, from any of the languages, over grammars
that were missing at the beginning. -/

namespace Highlighting

variable {σ : Type} [Engine σ]

/-- Registering succeeds or fails by the grammar alone, and no registration changes for which. -/
structure Engine.Selective (σ : Type) [Engine σ] (accepts : σ → String → Bool) : Prop where
  isOk_register : ∀ (s : σ) (grammar : String) (dependencies : List String),
    (Engine.register s grammar dependencies).1.isOk = accepts s grammar
  accepts_register : ∀ (s : σ) (grammar : String) (dependencies : List String),
    accepts (Engine.register s grammar dependencies).2 = accepts s

theorem CaptureEngine.selective : Engine.Selective CaptureEngine fun e => accepts e.source where
  isOk_register e grammar dependencies := e.isOk_register grammar dependencies
  accepts_register e grammar dependencies :=
    congrArg accepts (e.source_register grammar dependencies).1

theorem WordEngine.selective :
    Engine.Selective WordEngine fun e grammar => decide (grammar ∉ e.failing) where
  isOk_register e grammar dependencies :=
    (dependable e.failing).isOk_register grammar dependencies rfl
  accepts_register e grammar dependencies := by
    have hfailing : (Engine.register e grammar dependencies).2.failing = e.failing :=
      (dependable e.failing).states_register grammar dependencies rfl
    rw [hfailing]

namespace Tables

variable {t : Tables} {accepts : σ → String → Bool} {s last : σ} {x : String}

/-! ### One load -/

/-- A walk adds the accepted grammars among those that it attempts. -/
theorem Walk.isRegistered_iff {visited : List String} {steps : List LoadStep}
    {attempts : List Attempt} (h : Walk t visited steps s attempts last)
    (honest : Engine.Honest σ) (selective : Engine.Selective σ accepts) (x : String) :
    Engine.isRegistered last x = true ↔ Engine.isRegistered s x = true ∨
      (accepts s x = true ∧ x ∈ attempts.map Attempt.grammar) := by
  induction h with
  | done => simp
  | @settle visited grammar dependencies rest s next last result attempts hregister _ ih =>
    have hadds := honest.isRegistered_register s grammar dependencies x
    have hsame := selective.accepts_register s grammar dependencies
    rw [selective.isOk_register, hregister] at hadds
    rw [hregister] at hsame
    rw [ih, hadds, hsame]
    simp only [Bool.or_eq_true, Bool.and_eq_true, beq_iff_eq, List.map_cons, List.mem_cons,
      or_assoc]
    refine or_congr_right ?_
    constructor
    · rintro (⟨haccepts, rfl⟩ | ⟨haccepts, hmem⟩)
      · exact ⟨haccepts, .inl rfl⟩
      · exact ⟨haccepts, .inr hmem⟩
    · rintro ⟨haccepts, rfl | hmem⟩
      · exact .inl ⟨haccepts, rfl⟩
      · exact .inr ⟨haccepts, hmem⟩
  | skip _ _ ih => exact ih
  | enter _ _ _ _ ih => exact ih

theorem Walk.accepts_eq {visited : List String} {steps : List LoadStep} {attempts : List Attempt}
    (h : Walk t visited steps s attempts last) (selective : Engine.Selective σ accepts) :
    accepts last = accepts s := by
  induction h with
  | done => rfl
  | @settle visited grammar dependencies rest s next last result attempts hregister _ ih =>
    have hsame := selective.accepts_register s grammar dependencies
    rw [hregister] at hsame
    exact ih.trans hsame
  | skip _ _ ih => exact ih
  | enter _ _ _ _ ih => exact ih

/-- At the start of a load due is what missing grammars lead to. -/
theorem due_root_iff (root : String) :
    Due t [] s [.visit root] x ↔ t.Reaches (Missing s) root x := by
  have hopen (y : String) : Open [] s y ↔ Missing s y := by simp [Open]
  constructor
  · rintro (hsettled | ⟨grammar, hgrammar, hway⟩)
    · exact absurd hsettled List.not_mem_nil
    · cases List.mem_singleton.mp hgrammar
      exact hway.imp fun y => (hopen y).mp
  · intro hway
    exact .inr ⟨root, List.mem_singleton_self _, hway.imp fun y => (hopen y).mpr⟩

/-- A load adds the accepted grammars that missing grammars lead to. -/
theorem isRegistered_load_iff (honest : Engine.Honest σ) (selective : Engine.Selective σ accepts)
    (t : Tables) (language : String) (s : σ) (x : String) :
    Engine.isRegistered (t.load language s).2 x = true ↔ Engine.isRegistered s x = true ∨
      (accepts s x = true ∧ t.Reaches (Missing s) (t.resolve language) x) := by
  obtain ⟨attempts, hwalk, -⟩ := walk_load t language s
  rw [hwalk.isRegistered_iff honest selective,
    hwalk.mem_attempts_iff honest (List.nil_subset _), due_root_iff]

theorem accepts_load (selective : Engine.Selective σ accepts) (t : Tables) (language : String)
    (s : σ) : accepts (t.load language s).2 = accepts s := by
  obtain ⟨attempts, hwalk, -⟩ := walk_load t language s
  exact hwalk.accepts_eq selective

/-! ### Several loads -/

/-- The engine after languages were loaded in order. -/
def loadAll (t : Tables) (languages : List String) (s : σ) : σ :=
  languages.foldl (fun s language => (t.load language s).2) s

/-- Where a way meets a grammar that another root leads to, that root leads to its end. -/
theorem Reaches.narrow {P Q : String → Prop} {root other : String} (h : t.Reaches P root x)
    (hmeet : ∀ y, P y → Q y ∨ t.Reaches P other y) :
    t.Reaches Q root x ∨ t.Reaches P other x := by
  induction h with
  | here hroot => exact (hmeet root hroot).imp_left .here
  | @step y next _ hedge hnext ih =>
    rcases ih with hnarrow | hother
    · exact (hmeet next hnext).imp_left (.step hnarrow hedge)
    · exact .inr (.step hother hedge hnext)

/-- A grammar that is missing before a load is missing behind it or was led to by it. -/
theorem missing_load (honest : Engine.Honest σ) (selective : Engine.Selective σ accepts)
    (t : Tables) (language : String) {y : String} (h : Missing s y) :
    Missing (t.load language s).2 y ∨ t.Reaches (Missing s) (t.resolve language) y := by
  by_cases hregistered : Engine.isRegistered (t.load language s).2 y = true
  · rcases (isRegistered_load_iff honest selective t language s y).mp hregistered with hold | hnew
    · rw [h.2] at hold
      cases hold
    · exact .inr hnew.2
  · exact .inl ⟨h.1, by simpa using hregistered⟩

theorem missing_of_missing_load (honest : Engine.Honest σ)
    (selective : Engine.Selective σ accepts) (t : Tables) (language : String) {y : String}
    (h : Missing (t.load language s).2 y) : Missing s y := by
  refine ⟨h.1, ?_⟩
  rw [← Bool.not_eq_true]
  intro hregistered
  have hkept := (isRegistered_load_iff honest selective t language s y).mpr (.inl hregistered)
  rw [h.2] at hkept
  cases hkept

/-- Loads add the accepted grammars that some language leads to over grammars that were missing
before all of them. -/
theorem isRegistered_loadAll_iff (honest : Engine.Honest σ)
    (selective : Engine.Selective σ accepts) (t : Tables) (languages : List String) (s : σ)
    (x : String) :
    Engine.isRegistered (t.loadAll languages s) x = true ↔ Engine.isRegistered s x = true ∨
      (accepts s x = true ∧
        ∃ language ∈ languages, t.Reaches (Missing s) (t.resolve language) x) := by
  induction languages generalizing s with
  | nil => simp [loadAll]
  | cons first rest ih =>
    have hload := isRegistered_load_iff honest selective t first s x
    have hrest := ih (t.load first s).2
    rw [accepts_load selective, hload] at hrest
    refine hrest.trans ?_
    constructor
    · rintro ((hold | ⟨haccepts, hway⟩) | ⟨haccepts, language, hlanguage, hway⟩)
      · exact .inl hold
      · exact .inr ⟨haccepts, first, List.mem_cons_self, hway⟩
      · refine .inr ⟨haccepts, language, List.mem_cons_of_mem first hlanguage, hway.imp ?_⟩
        exact fun y hy => missing_of_missing_load honest selective t first hy
    · rintro (hold | ⟨haccepts, language, hlanguage, hway⟩)
      · exact .inl (.inl hold)
      · rcases List.mem_cons.mp hlanguage with rfl | hlanguage
        · exact .inl (.inr ⟨haccepts, hway⟩)
        · rcases hway.narrow fun y hy => missing_load honest selective t first hy with hway | hway
          · exact .inr ⟨haccepts, language, hlanguage, hway⟩
          · exact .inl (.inr ⟨haccepts, hway⟩)

/-- Languages may be loaded in any order: the same grammars are registered in the end, whatever the
tables are, whatever was registered before and whichever grammars the engine refuses. -/
theorem isRegistered_loadAll_perm (honest : Engine.Honest σ)
    (selective : Engine.Selective σ accepts) (t : Tables) (s : σ)
    {languages languages' : List String} (same : languages.Perm languages') (x : String) :
    Engine.isRegistered (t.loadAll languages s) x =
      Engine.isRegistered (t.loadAll languages' s) x := by
  rw [Bool.eq_iff_iff, isRegistered_loadAll_iff honest selective t languages s x,
    isRegistered_loadAll_iff honest selective t languages' s x]
  simp only [same.mem_iff]

/-- Over `a`, which the engine refuses, `b` and `c` lead to each other: whichever of them is loaded
first registers both, and the load of the other does nothing. -/
theorem isRegistered_loadAll_perm_tangled :
    let s : WordEngine := ⟨["a"], ["d"], .empty⟩
    Engine.Honest WordEngine ∧
      Engine.Selective WordEngine (fun e grammar => decide (grammar ∉ e.failing)) ∧
      ["c", "b", "e"].Perm ["e", "b", "c"] ∧
      (tangledTables.loadAll ["c", "b", "e"] s).grammars = ["d", "b", "c", "e"] ∧
      (tangledTables.loadAll ["e", "b", "c"] s).grammars = ["d", "e", "c", "b"] ∧
      Engine.isRegistered (tangledTables.loadAll ["c", "b", "e"] s) "b" =
        Engine.isRegistered (tangledTables.loadAll ["e", "b", "c"] s) "b" := by
  intro s
  have same : ["c", "b", "e"].Perm ["e", "b", "c"] := by decide
  exact ⟨WordEngine.honest, WordEngine.selective, same, by cbv, by cbv,
    isRegistered_loadAll_perm WordEngine.honest WordEngine.selective tangledTables s same "b"⟩

end Tables

end Highlighting
