import Highlighting.Grammar.Loading

/-! Loading as a walk over grammars. A walk is bounded by nothing: it keeps the grammars that it has
visited and goes on while there is something to visit. `load` is a walk, so walks come to an end.
What a walk leaves behind are its attempts to register grammars, in order. -/

namespace Highlighting

/-- An attempt to register a grammar, and what became of it. -/
structure Attempt where
  grammar : String
  dependencies : List String
  result : Except EngineFault Unit

namespace Attempt

def registration (a : Attempt) : Registration := ⟨a.grammar, a.dependencies⟩

def registered? (a : Attempt) : Option String :=
  match a.result with
  | .ok () => some a.grammar
  | .error _ => none

def failed? (a : Attempt) : Option (String × GrammarError) :=
  match a.result with
  | .error (.refused e) => some (a.grammar, e)
  | _ => none

def crash? (a : Attempt) : Option (Option String) :=
  match a.result with
  | .error (.crashed message) => some message
  | _ => none

theorem crash?_eq_none_iff {a : Attempt} :
    a.crash? = none ↔ ∀ message, a.result ≠ .error (.crashed message) := by
  obtain ⟨grammar, dependencies, (e | message) | ⟨⟩⟩ := a <;> simp [crash?]

end Attempt

/-- A registration without a crash holds up no step. -/
theorem LoadStep.remaining_of_ne {result : Except EngineFault Unit}
    (h : ∀ message, result ≠ .error (.crashed message)) (rest : List LoadStep) :
    remaining result rest = rest := by
  unfold remaining
  split
  · exact absurd rfl (h _)
  · rfl

/-- Adds attempts to a report. -/
def LoadReport.extend (report : LoadReport) (attempts : List Attempt) : LoadReport :=
  { report with
    registered := report.registered ++ attempts.filterMap Attempt.registered?
    failed := report.failed ++ attempts.filterMap Attempt.failed?
    crash := (attempts.filterMap Attempt.crash?).getLast?.or report.crash }

theorem LoadReport.extend_note (report : LoadReport) (a : Attempt) (attempts : List Attempt) :
    (Tables.note report a.grammar a.result).extend attempts = report.extend (a :: attempts) := by
  obtain ⟨grammar, dependencies, (e | message) | ⟨⟩⟩ := a
  · simp [Tables.note, extend, List.filterMap_cons, Attempt.registered?, Attempt.failed?,
      Attempt.crash?]
  · simp [Tables.note, extend, List.filterMap_cons, Attempt.registered?, Attempt.failed?,
      Attempt.crash?, List.getLast?_cons]
  · simp [Tables.note, extend, List.filterMap_cons, Attempt.registered?, Attempt.failed?,
      Attempt.crash?]

variable {σ : Type} [Engine σ]

namespace Tables

/-- The grammars that are to be settled. -/
def settling (steps : List LoadStep) : List String :=
  steps.filterMap fun
    | .visit _ => none
    | .settle grammar _ => some grammar

@[simp] theorem settling_visit (grammar : String) (rest : List LoadStep) :
    settling (.visit grammar :: rest) = settling rest := rfl

@[simp] theorem settling_settle (grammar : String) (dependencies : List String)
    (rest : List LoadStep) :
    settling (.settle grammar dependencies :: rest) = grammar :: settling rest := rfl

@[simp] theorem settling_visits (names : List String) (rest : List LoadStep) :
    settling (names.map .visit ++ rest) = settling rest := by
  induction names with
  | nil => rfl
  | cons name names ih => exact ih

theorem settling_remaining_subset (result : Except EngineFault Unit) (rest : List LoadStep) :
    settling (LoadStep.remaining result rest) ⊆ settling rest :=
  ((LoadStep.remaining_sublist result rest).filterMap _).subset

/-- Steps carried out one after the other, with the grammars that were visited, the attempts that
the steps make and the states of the engine before and after them. A grammar is entered once: it
is noted as visited, its dependencies are visited, and then it is registered. No step is left where
the engine crashes at that. -/
inductive Walk (t : Tables) : (visited : List String) → List LoadStep → σ → List Attempt → σ → Prop
  | done {visited : List String} {s : σ} : Walk t visited [] s [] s
  | settle {visited : List String} {grammar : String} {dependencies : List String}
      {rest : List LoadStep} {s next last : σ} {result : Except EngineFault Unit}
      {attempts : List Attempt} :
      Engine.register s grammar dependencies = (result, next) →
      Walk t visited (LoadStep.remaining result rest) next attempts last →
      Walk t visited (.settle grammar dependencies :: rest) s
        (⟨grammar, dependencies, result⟩ :: attempts) last
  | skip {visited : List String} {grammar : String} {rest : List LoadStep} {s last : σ}
      {attempts : List Attempt} :
      grammar = plainText ∨ Engine.isRegistered s grammar = true ∨ grammar ∈ visited →
      Walk t visited rest s attempts last →
      Walk t visited (.visit grammar :: rest) s attempts last
  | enter {visited : List String} {grammar : String} {rest : List LoadStep} {s last : σ}
      {attempts : List Attempt} :
      grammar ≠ plainText → Engine.isRegistered s grammar = false → grammar ∉ visited →
      Walk t (grammar :: visited)
        ((t.edges grammar).map .visit ++ .settle grammar (t.edges grammar) :: rest) s attempts
        last →
      Walk t visited (.visit grammar :: rest) s attempts last

variable {t : Tables}

/-- A dependency is listed in an entry of the tables, under a name that means it. -/
theorem exists_entry_of_mem_edges {grammar dependency : String} (h : dependency ∈ t.edges grammar) :
    ∃ names, (grammar, names) ∈ t.dependencies.entries ∧
      ∃ name ∈ names, t.resolve name = dependency := by
  obtain ⟨name, hname, rfl⟩ := List.mem_map.mp h
  unfold dependenciesOf at hname
  cases hget : t.dependencies.get? grammar with
  | none => simp [hget] at hname
  | some names =>
    rw [hget, Option.getD_some] at hname
    obtain ⟨before, after, hentries, -⟩ := List.lookup_eq_some_iff.mp hget
    exact ⟨names, by simp [hentries], name, hname, rfl⟩

/-- Loading leads to no grammar outside of `reach`. -/
theorem mem_reach_of_mem_edges {root grammar dependency : String}
    (h : dependency ∈ t.edges grammar) : dependency ∈ t.reach root := by
  obtain ⟨names, hentry, name, hname, rfl⟩ := exists_entry_of_mem_edges h
  exact List.mem_cons_of_mem root
    (List.mem_flatMap.mpr ⟨(grammar, names), hentry, List.mem_map_of_mem hname⟩)

/-- Grammars that are to be settled were visited; this stays so when one is entered. -/
theorem settling_enter_subset {visited : List String} {rest : List LoadStep} {grammar : String}
    (h : settling rest ⊆ visited) :
    settling ((t.edges grammar).map .visit ++ .settle grammar (t.edges grammar) :: rest) ⊆
      grammar :: visited := by
  rw [settling_visits, settling_settle]
  exact List.cons_subset_cons grammar h

/-- What has failed after a registration failed before it or was registered by it. -/
theorem mem_failed_note {report : LoadReport} {grammar x : String}
    {result : Except EngineFault Unit}
    (h : x ∈ (note report grammar result).failed.map Prod.fst) :
    x ∈ report.failed.map Prod.fst ∨ x = grammar := by
  rcases result with (e | message) | ⟨⟩
  · simpa [note, ← exists_or] using h
  · exact .inl h
  · exact .inl h

/-- What holds at any time while steps are carried out. The grammars that failed and those that are
to be settled were visited, and what may still be visited is what loading leads to and was not. -/
structure Consistent (t : Tables) (root : String) (visited fresh : List String)
    (steps : List LoadStep) (report : LoadReport) : Prop where
  mem_reach : ∀ grammar, .visit grammar ∈ steps → grammar ∈ t.reach root
  settling_subset : settling steps ⊆ visited
  failed_subset : report.failed.map Prod.fst ⊆ visited
  mem_fresh_iff : ∀ grammar, grammar ∈ fresh ↔ grammar ∈ t.reach root ∧ grammar ∉ visited

namespace Consistent

variable {root grammar : String} {visited fresh : List String} {rest : List LoadStep}
  {report : LoadReport}

theorem start (t : Tables) (root : String) :
    Consistent t root [] (t.reach root) [.visit root] ⟨root, [], [], none⟩ where
  mem_reach g hg := by
    cases List.mem_singleton.mp hg
    exact List.mem_cons_self
  settling_subset := List.nil_subset []
  failed_subset := List.nil_subset []
  mem_fresh_iff := by simp

theorem skip (h : Consistent t root visited fresh (.visit grammar :: rest) report) :
    Consistent t root visited fresh rest report where
  mem_reach g hg := h.mem_reach g (List.mem_cons_of_mem _ hg)
  settling_subset := h.settling_subset
  failed_subset := h.failed_subset
  mem_fresh_iff := h.mem_fresh_iff

theorem settle {dependencies : List String}
    (h : Consistent t root visited fresh (.settle grammar dependencies :: rest) report)
    (result : Except EngineFault Unit) :
    Consistent t root visited fresh (LoadStep.remaining result rest)
      (note report grammar result) where
  mem_reach g hg :=
    h.mem_reach g (List.mem_cons_of_mem _ ((LoadStep.remaining_sublist result rest).subset hg))
  settling_subset :=
    List.Subset.trans (settling_remaining_subset result rest)
      (List.cons_subset.mp h.settling_subset).2
  failed_subset g hg := by
    rcases mem_failed_note hg with hbefore | rfl
    · exact h.failed_subset hbefore
    · exact (List.cons_subset.mp h.settling_subset).1
  mem_fresh_iff := h.mem_fresh_iff

theorem enter (h : Consistent t root visited fresh (.visit grammar :: rest) report) :
    Consistent t root (grammar :: visited) (without grammar fresh)
      ((t.edges grammar).map .visit ++ .settle grammar (t.edges grammar) :: rest) report where
  mem_reach g hg := by
    simp only [List.mem_append, List.mem_map, List.mem_cons, reduceCtorEq, false_or] at hg
    rcases hg with ⟨dependency, hdependency, heq⟩ | hg
    · cases heq
      exact mem_reach_of_mem_edges hdependency
    · exact h.mem_reach g (List.mem_cons_of_mem _ hg)
  settling_subset := settling_enter_subset h.settling_subset
  failed_subset := List.subset_cons_of_subset grammar h.failed_subset
  mem_fresh_iff g := by
    simp only [without, List.mem_filter, h.mem_fresh_iff, bne_iff_ne, List.mem_cons, not_or]
    constructor
    · rintro ⟨⟨hreach, hvisited⟩, hne⟩
      exact ⟨hreach, hne, hvisited⟩
    · rintro ⟨hreach, hne, hvisited⟩
      exact ⟨⟨hreach, hvisited⟩, hne⟩

/-- What is not fresh although loading leads to it was visited. -/
theorem mem_visited (h : Consistent t root visited fresh (.visit grammar :: rest) report)
    (hfresh : grammar ∉ fresh) : grammar ∈ visited :=
  Classical.byContradiction fun hnew =>
    hfresh ((h.mem_fresh_iff grammar).mpr ⟨h.mem_reach grammar List.mem_cons_self, hnew⟩)

end Consistent

/-- Carrying out steps is a walk. That a grammar failed is no reason of its own to pass it over,
since then it was visited. -/
theorem walk_carryOut {root : String} {visited fresh : List String} {steps : List LoadStep}
    {report : LoadReport} (s : σ) (h : Consistent t root visited fresh steps report) :
    ∃ attempts, Walk t visited steps s attempts (t.carryOut fresh steps report s).2 ∧
      (t.carryOut fresh steps report s).1 = report.extend attempts := by
  fun_induction carryOut t fresh steps report s generalizing visited with
  | case1 fresh report s => exact ⟨[], .done, by simp [LoadReport.extend]⟩
  | case2 fresh report s grammar dependencies rest result next hregister ih =>
    obtain ⟨attempts, hwalk, hreport⟩ := ih (h.settle result)
    refine ⟨⟨grammar, dependencies, result⟩ :: attempts, .settle hregister hwalk, ?_⟩
    rw [hreport, ← LoadReport.extend_note]
  | case3 fresh report s grammar rest skip ih =>
    obtain ⟨attempts, hwalk, hreport⟩ := ih h.skip
    refine ⟨attempts, .skip ?_ hwalk, hreport⟩
    exact skip.imp_right .inl
  | case4 fresh report s grammar rest visit hfailed ih =>
    obtain ⟨attempts, hwalk, hreport⟩ := ih h.skip
    exact ⟨attempts, .skip (.inr (.inr (h.failed_subset hfailed))) hwalk, hreport⟩
  | case5 fresh report s grammar rest visit _ hfresh dependencies =>
    rename_i ih
    obtain ⟨hplain, hregistered⟩ := not_or.mp visit
    obtain ⟨attempts, hwalk, hreport⟩ := ih h.enter
    refine ⟨attempts, .enter hplain ?_ ((h.mem_fresh_iff grammar).mp hfresh).2 hwalk, hreport⟩
    simpa using hregistered
  | case6 fresh report s grammar rest visit _ hfresh ih =>
    obtain ⟨attempts, hwalk, hreport⟩ := ih h.skip
    exact ⟨attempts, .skip (.inr (.inr (h.mem_visited hfresh))) hwalk, hreport⟩

/-- Loading a language is a walk that starts at the grammar that it means, and reports on the
attempts of that walk. -/
theorem walk_load (t : Tables) (language : String) (s : σ) :
    ∃ attempts, Walk t [] [.visit (t.resolve language)] s attempts (t.load language s).2 ∧
      (t.load language s).1 = ⟨t.resolve language, attempts.filterMap Attempt.registered?,
        attempts.filterMap Attempt.failed?, (attempts.filterMap Attempt.crash?).getLast?⟩ := by
  obtain ⟨attempts, hwalk, hreport⟩ := walk_carryOut s (Consistent.start t (t.resolve language))
  refine ⟨attempts, hwalk, hreport.trans ?_⟩
  rw [LoadReport.extend, Option.or_none]
  rfl

/-- Where attempts follow on a registration, the engine did not crash at it. -/
theorem Walk.ne_crashed {visited : List String} {rest : List LoadStep} {s last : σ}
    {attempts : List Attempt} {result : Except EngineFault Unit}
    (h : Walk t visited (LoadStep.remaining result rest) s attempts last)
    (hattempts : attempts ≠ []) (message : Option String) : result ≠ .error (.crashed message) := by
  rintro rfl
  cases h
  exact hattempts rfl

/-- A walk is determined by where it starts. -/
theorem Walk.unique {visited : List String} {steps : List LoadStep} {s last last' : σ}
    {attempts attempts' : List Attempt} (h : Walk t visited steps s attempts last)
    (h' : Walk t visited steps s attempts' last') : attempts' = attempts ∧ last' = last := by
  induction h generalizing attempts' last' with
  | done =>
    cases h'
    exact ⟨rfl, rfl⟩
  | settle hregister _ ih =>
    cases h' with
    | settle hregister' hrest =>
      rw [hregister] at hregister'
      cases hregister'
      obtain ⟨hattempts, hlast⟩ := ih hrest
      exact ⟨by rw [hattempts], hlast⟩
  | skip hskip _ ih =>
    cases h' with
    | skip _ hrest => exact ih hrest
    | enter hplain hregistered hvisited _ =>
      rcases hskip with hskip | hskip | hskip
      · exact absurd hskip hplain
      · simp [hskip] at hregistered
      · exact absurd hskip hvisited
  | enter hplain hregistered hvisited _ ih =>
    cases h' with
    | skip hskip _ =>
      rcases hskip with hskip | hskip | hskip
      · exact absurd hskip hplain
      · simp [hskip] at hregistered
      · exact absurd hskip hvisited
    | enter _ _ _ hrest => exact ih hrest

/-- Loading reports a crash if and only if the engine crashes at an attempt. -/
theorem crash_load_eq_none_iff {language : String} {s last : σ} {attempts : List Attempt}
    (h : Walk t [] [.visit (t.resolve language)] s attempts last) :
    (t.load language s).1.crash = none ↔ ∀ a ∈ attempts, a.crash? = none := by
  obtain ⟨made, hmade, hreport⟩ := walk_load t language s
  obtain ⟨rfl, -⟩ := h.unique hmade
  rw [hreport, List.getLast?_eq_none_iff, List.filterMap_eq_nil_iff]

/-- An engine that does as another one does, and notes what it is asked to register, walks in the
same way. -/
theorem Walk.observed {τ : Type} [Engine τ] (watched : σ → List Registration → τ)
    (isRegistered_watched : ∀ (s : σ) (calls : List Registration) (grammar : String),
      Engine.isRegistered (watched s calls) grammar = Engine.isRegistered s grammar)
    (register_watched : ∀ (s : σ) (calls : List Registration) (grammar : String)
      (dependencies : List String), Engine.register (watched s calls) grammar dependencies =
        ((Engine.register s grammar dependencies).1,
          watched (Engine.register s grammar dependencies).2 (calls ++ [⟨grammar, dependencies⟩])))
    {visited : List String} {steps : List LoadStep} {s last : σ} {attempts : List Attempt}
    (h : Walk t visited steps s attempts last) (calls : List Registration) :
    Walk t visited steps (watched s calls) attempts
      (watched last (calls ++ attempts.map Attempt.registration)) := by
  induction h generalizing calls with
  | done =>
    rw [List.map_nil, List.append_nil]
    exact .done
  | @settle _ grammar dependencies _ s next _ result _ hregister _ ih =>
    have hwatched : Engine.register (watched s calls) grammar dependencies =
        (result, watched next (calls ++ [⟨grammar, dependencies⟩])) := by
      rw [register_watched, hregister]
    have hrest := ih (calls ++ [⟨grammar, dependencies⟩])
    rw [List.append_assoc] at hrest
    exact .settle hwatched hrest
  | skip hskip _ ih =>
    refine .skip ?_ (ih calls)
    rwa [isRegistered_watched]
  | enter hplain hregistered hvisited _ ih =>
    refine .enter hplain ?_ hvisited (ih calls)
    rwa [isRegistered_watched]

/-- The walk of an engine whose registrations are recorded makes the same attempts, and these are
what is recorded. -/
theorem Walk.recorded {visited : List String} {steps : List LoadStep} {s last : σ}
    {attempts : List Attempt} (h : Walk t visited steps s attempts last)
    (calls : List Registration) :
    Walk t visited steps (⟨s, calls⟩ : Recorded σ) attempts
      ⟨last, calls ++ attempts.map Attempt.registration⟩ :=
  h.observed Recorded.mk (fun _ _ _ => rfl) (fun _ _ _ _ => rfl) calls

end Tables

end Highlighting
