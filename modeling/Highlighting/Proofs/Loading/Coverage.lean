import Mathlib
import Highlighting.Proofs.Loading.Walk
import Highlighting.Proofs.Worker.Laws

/-! What loading attempts. It attempts a grammar if and only if dependencies lead there from the one
that is meant, by way of grammars that are missing from the registry only; and it attempts none
twice. This holds of any tables, also where grammars depend on each other in cycles. -/

namespace Highlighting

variable {σ : Type} [Engine σ]

/-- Registering succeeds or fails without a crash. A grammar gets into the registry by its own
registration, if that succeeds, and by no other. -/
structure Engine.Honest (σ : Type) [Engine σ] : Prop where
  answers : ∀ (s : σ) (grammar : String) (dependencies : List String) (message : Option String),
    (Engine.register s grammar dependencies).1 ≠ .error (.crashed message)
  isRegistered_register : ∀ (s : σ) (grammar : String) (dependencies : List String) (x : String),
    Engine.isRegistered (Engine.register s grammar dependencies).2 x =
      (Engine.isRegistered s x || (Engine.register s grammar dependencies).1.isOk && x == grammar)

/-- Registering a grammar leaves every other as it was. -/
theorem Engine.Honest.isRegistered_of_ne (honest : Engine.Honest σ) (s : σ) {grammar x : String}
    (dependencies : List String) (hne : x ≠ grammar) :
    Engine.isRegistered (Engine.register s grammar dependencies).2 x =
      Engine.isRegistered s x := by
  have hother : (x == grammar) = false := by simpa using hne
  rw [honest.isRegistered_register, hother, Bool.and_false, Bool.or_false]

theorem Engine.Honest.remaining_eq (honest : Engine.Honest σ) {s next : σ} {grammar : String}
    {dependencies : List String} {result : Except EngineFault Unit}
    (h : Engine.register s grammar dependencies = (result, next)) (rest : List LoadStep) :
    LoadStep.remaining result rest = rest := by
  have hanswer := honest.answers s grammar dependencies
  rw [h] at hanswer
  exact LoadStep.remaining_of_ne hanswer rest

theorem CaptureEngine.honest : Engine.Honest CaptureEngine where
  answers e grammar dependencies message := e.register_ne_crashed grammar dependencies message
  isRegistered_register e grammar dependencies x := e.isRegistered_register grammar dependencies x

theorem WordEngine.honest : Engine.Honest WordEngine where
  answers e grammar dependencies message :=
    (dependable e.failing).answers grammar dependencies message rfl
  isRegistered_register e grammar dependencies x :=
    (dependable e.failing).isRegistered_register grammar dependencies x rfl

/-- The engine would have to register the grammar before it can highlight with it. -/
def Missing (s : σ) (grammar : String) : Prop :=
  grammar ≠ plainText ∧ Engine.isRegistered s grammar = false

namespace Tables

/-- Dependencies lead from one grammar to another over grammars with a property, both ends
included. -/
inductive Reaches (t : Tables) (P : String → Prop) (root : String) : String → Prop
  | here : P root → Reaches t P root root
  | step {grammar dependency : String} : Reaches t P root grammar →
      dependency ∈ t.edges grammar → P dependency → Reaches t P root dependency

variable {t : Tables} {P Q : String → Prop} {root grammar x : String}

theorem Reaches.root_holds (h : t.Reaches P root x) : P root := by
  induction h with
  | here hroot => exact hroot
  | step _ _ _ ih => exact ih

theorem Reaches.holds (h : t.Reaches P root x) : P x := by
  cases h with
  | here hroot => exact hroot
  | step _ _ hdependency => exact hdependency

theorem Reaches.imp (h : t.Reaches P root x) (hPQ : ∀ y, P y → Q y) : t.Reaches Q root x := by
  induction h with
  | here hroot => exact .here (hPQ root hroot)
  | step _ hedge hdependency ih => exact .step ih hedge (hPQ _ hdependency)

theorem Reaches.of_edge (h : t.Reaches P root x) (hedge : root ∈ t.edges grammar)
    (hgrammar : P grammar) : t.Reaches P grammar x := by
  induction h with
  | here hroot => exact .step (.here hgrammar) hedge hroot
  | step _ hnext hdependency ih => exact .step ih hnext hdependency

/-- A way either avoids a grammar, or ends at it, or goes on from its dependencies without coming
back to it. -/
theorem Reaches.avoid (h : t.Reaches P root x) (grammar : String) :
    t.Reaches (fun y => P y ∧ y ≠ grammar) root x ∨ x = grammar ∨
      ∃ dependency ∈ t.edges grammar, t.Reaches (fun y => P y ∧ y ≠ grammar) dependency x := by
  induction h with
  | here hroot =>
    by_cases heq : root = grammar
    · exact .inr (.inl heq)
    · exact .inl (.here ⟨hroot, heq⟩)
  | @step y next _ hedge hnext ih =>
    by_cases heq : next = grammar
    · exact .inr (.inl heq)
    · rcases ih with havoid | rfl | ⟨dependency, hdependency, hway⟩
      · exact .inl (.step havoid hedge ⟨hnext, heq⟩)
      · exact .inr (.inr ⟨next, hedge, .here ⟨hnext, heq⟩⟩)
      · exact .inr (.inr ⟨dependency, hdependency, .step hway hedge ⟨hnext, heq⟩⟩)

/-! ### What steps are due to attempt -/

/-- A grammar that may still be entered. -/
def Open (visited : List String) (s : σ) (grammar : String) : Prop :=
  Missing s grammar ∧ grammar ∉ visited

/-- Steps are to lead to an attempt: they settle the grammar or visit one that leads to it. -/
def Due (t : Tables) (visited : List String) (s : σ) (steps : List LoadStep) (x : String) : Prop :=
  x ∈ settling steps ∨ ∃ grammar, .visit grammar ∈ steps ∧ t.Reaches (Open visited s) grammar x

variable {visited : List String} {rest : List LoadStep} {s : σ}

/-- Settling a grammar leaves open what was open, since the grammar itself was visited. -/
theorem open_register_iff (honest : Engine.Honest σ) (hvisited : grammar ∈ visited)
    (dependencies : List String) :
    Open visited (Engine.register s grammar dependencies).2 x ↔ Open visited s x := by
  by_cases hx : x = grammar
  · subst hx
    simp [Open, hvisited]
  · unfold Open Missing
    rw [honest.isRegistered_of_ne s dependencies hx]

theorem due_settle (honest : Engine.Honest σ) (hvisited : grammar ∈ visited)
    (dependencies : List String) :
    Due t visited s (.settle grammar dependencies :: rest) x ↔
      x = grammar ∨ Due t visited (Engine.register s grammar dependencies).2 rest x := by
  have hopen (y : String) := open_register_iff (s := s) (x := y) honest hvisited dependencies
  unfold Due
  simp only [settling_settle, List.mem_cons, reduceCtorEq, false_or, or_assoc]
  refine or_congr_right (or_congr_right ?_)
  constructor
  · rintro ⟨g, hg, hway⟩
    exact ⟨g, hg, hway.imp fun y => (hopen y).mpr⟩
  · rintro ⟨g, hg, hway⟩
    exact ⟨g, hg, hway.imp fun y => (hopen y).mp⟩

theorem due_skip (hskip : ¬ Open visited s grammar) :
    Due t visited s (.visit grammar :: rest) x ↔ Due t visited s rest x := by
  unfold Due
  rw [settling_visit]
  refine or_congr_right ?_
  constructor
  · rintro ⟨g, hg, hway⟩
    rcases List.mem_cons.mp hg with heq | hrest
    · cases heq
      exact absurd hway.root_holds hskip
    · exact ⟨g, hrest, hway⟩
  · rintro ⟨g, hg, hway⟩
    exact ⟨g, List.mem_cons_of_mem _ hg, hway⟩

theorem open_cons_iff {y : String} :
    Open (grammar :: visited) s y ↔ Open visited s y ∧ y ≠ grammar := by
  unfold Open
  rw [List.mem_cons, not_or]
  constructor
  · rintro ⟨hmissing, hne, hvisited⟩
    exact ⟨⟨hmissing, hvisited⟩, hne⟩
  · rintro ⟨⟨hmissing, hvisited⟩, hne⟩
    exact ⟨hmissing, hne, hvisited⟩

/-- Entering a grammar trades the ways through it for the ways from its dependencies. -/
theorem due_enter (hopen : Open visited s grammar) :
    Due t visited s (.visit grammar :: rest) x ↔
      Due t (grammar :: visited) s
        ((t.edges grammar).map .visit ++ .settle grammar (t.edges grammar) :: rest) x := by
  have havoid {g : String} (h : t.Reaches (fun y => Open visited s y ∧ y ≠ grammar) g x) :
      t.Reaches (Open (grammar :: visited) s) g x := h.imp fun y => open_cons_iff.mpr
  have hwide {g : String} (h : t.Reaches (Open (grammar :: visited) s) g x) :
      t.Reaches (Open visited s) g x := h.imp fun y hy => (open_cons_iff.mp hy).1
  unfold Due
  simp only [settling_visit, settling_visits, settling_settle, List.mem_cons, List.mem_append,
    List.mem_map, reduceCtorEq, false_or]
  constructor
  · rintro (hsettled | ⟨g, hg, hway⟩)
    · exact .inl (.inr hsettled)
    · rcases hway.avoid grammar with hway | rfl | ⟨dependency, hdependency, hway⟩
      · rcases hg with heq | hrest
        · cases heq
          exact absurd rfl hway.root_holds.2
        · exact .inr ⟨g, .inr hrest, havoid hway⟩
      · exact .inl (.inl rfl)
      · exact .inr ⟨dependency, .inl ⟨dependency, hdependency, rfl⟩, havoid hway⟩
  · rintro ((rfl | hsettled) | ⟨g, ⟨dependency, hdependency, heq⟩ | hrest, hway⟩)
    · exact .inr ⟨x, .inl rfl, .here hopen⟩
    · exact .inl hsettled
    · cases heq
      exact .inr ⟨grammar, .inl rfl, (hwide hway).of_edge hdependency hopen⟩
    · exact .inr ⟨g, .inr hrest, hwide hway⟩

/-! ### Walks -/

variable {steps : List LoadStep} {attempts : List Attempt} {last : σ}

theorem not_open_of_skip
    (h : grammar = plainText ∨ Engine.isRegistered s grammar = true ∨ grammar ∈ visited) :
    ¬ Open visited s grammar := by
  rintro ⟨⟨hplain, hregistered⟩, hvisited⟩
  rcases h with h | h | h
  · exact hplain h
  · simp [h] at hregistered
  · exact hvisited h

theorem Walk.filterMap_crash? (h : Walk t visited steps s attempts last)
    (honest : Engine.Honest σ) : attempts.filterMap Attempt.crash? = [] := by
  induction h with
  | done => rfl
  | @settle visited grammar dependencies rest s next last result attempts hregister _ ih =>
    have hanswer := honest.answers s grammar dependencies
    rw [hregister] at hanswer
    rw [List.filterMap_cons_none (Attempt.crash?_eq_none_iff.mpr hanswer), ih]
  | skip _ _ ih => exact ih
  | enter _ _ _ _ ih => exact ih

/-- A walk attempts what its steps are due to attempt, and nothing else. -/
theorem Walk.mem_attempts_iff (h : Walk t visited steps s attempts last)
    (honest : Engine.Honest σ) (hsettling : settling steps ⊆ visited) (x : String) :
    x ∈ attempts.map Attempt.grammar ↔ Due t visited s steps x := by
  induction h with
  | done => simp [Due, settling]
  | @settle visited grammar dependencies rest s next last result attempts hregister _ ih =>
    rw [honest.remaining_eq hregister] at ih
    obtain ⟨hvisited, hrest⟩ := List.cons_subset.mp hsettling
    have hnext : (Engine.register s grammar dependencies).2 = next := by rw [hregister]
    rw [due_settle honest hvisited, hnext, List.map_cons, List.mem_cons, ih hrest]
  | skip hskip _ ih => rw [due_skip (not_open_of_skip hskip), ih hsettling]
  | enter hplain hregistered hvisited _ ih =>
    rw [due_enter ⟨⟨hplain, hregistered⟩, hvisited⟩, ih (settling_enter_subset hsettling)]

/-- It attempts no grammar twice. -/
theorem Walk.nodup_attempts (h : Walk t visited steps s attempts last)
    (honest : Engine.Honest σ) (hsettling : settling steps ⊆ visited)
    (hnodup : (settling steps).Nodup) : (attempts.map Attempt.grammar).Nodup := by
  induction h with
  | done => exact List.nodup_nil
  | @settle visited grammar dependencies rest s next last result attempts hregister hwalk ih =>
    rw [honest.remaining_eq hregister] at hwalk ih
    obtain ⟨hvisited, hrest⟩ := List.cons_subset.mp hsettling
    obtain ⟨hnew, hnodup⟩ := List.nodup_cons.mp hnodup
    rw [List.map_cons, List.nodup_cons]
    refine ⟨?_, ih hrest hnodup⟩
    rw [hwalk.mem_attempts_iff honest hrest]
    rintro (hagain | ⟨g, -, hway⟩)
    · exact hnew hagain
    · -- A way ends at a grammar that is open, and this one was visited.
      exact hway.holds.2 hvisited
  | skip _ _ ih => exact ih hsettling hnodup
  | @enter visited grammar rest s last attempts _ _ hvisited _ ih =>
    refine ih (settling_enter_subset hsettling) ?_
    rw [settling_visits, settling_settle]
    exact List.nodup_cons.mpr ⟨fun hagain => hvisited (hsettling hagain), hnodup⟩

/-- Loading a language carries out the one walk that starts at the grammar it means; that walk ends,
whatever the tables are. It attempts each grammar once that dependencies lead to over missing
grammars, and no other, and reports what became of the attempts in their order. -/
theorem load_covers (honest : Engine.Honest σ) (t : Tables) (language : String) (s : σ) :
    let root := t.resolve language
    ∃ attempts : List Attempt,
      (∀ (made : List Attempt) (last : σ), Walk t [] [.visit root] s made last ↔
        made = attempts ∧ last = (t.load language s).2) ∧
      (t.load language (⟨s, []⟩ : Recorded σ)).2.calls = attempts.map Attempt.registration ∧
      (attempts.map Attempt.grammar).Nodup ∧
      (∀ x, x ∈ attempts.map Attempt.grammar ↔ t.Reaches (Missing s) root x) ∧
      (t.load language s).1 = ⟨root, attempts.filterMap Attempt.registered?,
        attempts.filterMap Attempt.failed?, none⟩ := by
  intro root
  obtain ⟨attempts, hwalk, hreport⟩ := walk_load t language s
  have hsettling : settling [.visit root] ⊆ [] := List.nil_subset _
  rw [hwalk.filterMap_crash? honest] at hreport
  refine ⟨attempts, ?_, ?_, ?_, ?_, hreport⟩
  · intro made last
    constructor
    · intro h
      exact hwalk.unique h
    · rintro ⟨rfl, rfl⟩
      exact hwalk
  · obtain ⟨made, hrecorded, -⟩ := walk_load t language (⟨s, []⟩ : Recorded σ)
    obtain ⟨-, hlast⟩ := (hwalk.recorded []).unique hrecorded
    rw [hlast, List.nil_append]
  · exact hwalk.nodup_attempts honest hsettling List.nodup_nil
  · intro x
    rw [hwalk.mem_attempts_iff honest hsettling]
    have hopen (y : String) : Open [] s y ↔ Missing s y := by simp [Open]
    constructor
    · rintro (hsettled | ⟨g, hg, hway⟩)
      · exact absurd (hsettling hsettled) List.not_mem_nil
      · cases List.mem_singleton.mp hg
        exact hway.imp fun y => (hopen y).mp
    · intro hway
      exact .inr ⟨root, List.mem_singleton_self _, hway.imp fun y => (hopen y).mpr⟩

/-- Grammars with a cycle, a grammar that depends on itself, a shared dependency, repeated ones, and
names that are aliases. -/
def tangledTables : Tables :=
  ⟨.ofList [("start", "a")], .ofList [("a", ["b", "start", "c", "b", "a"]),
    ("b", ["a", "c", "text"]), ("c", ["d", "start"]), ("d", ["e"])]⟩

/-- One grammar fails, and one is registered already; what it depends on is left alone. -/
theorem load_covers_tangled :
    let s : WordEngine := ⟨["c"], ["d"], .empty⟩
    Engine.Honest WordEngine ∧
      (tangledTables.load "start" (⟨s, []⟩ : Recorded WordEngine)).2.calls.map
        Registration.grammar = ["c", "b", "a"] ∧
      tangledTables.Reaches (Missing s) "a" "c" ∧ ¬ tangledTables.Reaches (Missing s) "a" "e" := by
  intro s
  have hcalls : (tangledTables.load "start" (⟨s, []⟩ : Recorded WordEngine)).2.calls.map
      Registration.grammar = ["c", "b", "a"] := by cbv
  have hmeans : tangledTables.resolve "start" = "a" := by cbv
  obtain ⟨attempts, -, hmade, -, hreached, -⟩ :=
    load_covers WordEngine.honest tangledTables "start" s
  rw [hmeans] at hreached
  have hattempts : attempts.map Attempt.grammar = ["c", "b", "a"] := by
    rw [← hcalls, hmade, List.map_map]
    rfl
  rw [hattempts] at hreached
  exact ⟨WordEngine.honest, hcalls, (hreached "c").mp (by decide),
    fun h => absurd ((hreached "e").mpr h) (by decide)⟩

end Tables

end Highlighting
