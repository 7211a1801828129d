import Highlighting.Proofs.Loading.Coverage

/-! A grammar that fails holds up no other. Two engines that have the same grammars registered are
asked for the same registrations in the same order, whichever of these fail with the one or the
other: with either engine loading looks only at grammars that it did not visit yet, and about these
the engines agree as long as it lasts. -/

namespace Highlighting

variable {σ τ : Type} [Engine σ] [Engine τ]

namespace Tables

/-- Two states have the same grammars registered, apart from those that were visited. -/
def Alike (visited : List String) (s : σ) (s' : τ) : Prop :=
  ∀ x, x ∉ visited → Engine.isRegistered s x = Engine.isRegistered s' x

variable {t : Tables} {visited : List String} {s : σ} {s' : τ}

/-- Both may register a grammar that was visited, with success or without. -/
theorem Alike.register (alike : Alike visited s s') (honest : Engine.Honest σ)
    (honest' : Engine.Honest τ) {grammar : String} (hvisited : grammar ∈ visited)
    (dependencies : List String) :
    Alike visited (Engine.register s grammar dependencies).2
      (Engine.register s' grammar dependencies).2 := by
  intro x hx
  have hne : x ≠ grammar := fun h => hx (h ▸ hvisited)
  rw [honest.isRegistered_of_ne s dependencies hne, honest'.isRegistered_of_ne s' dependencies hne]
  exact alike x hx

theorem Alike.enter (alike : Alike visited s s') (grammar : String) :
    Alike (grammar :: visited) s s' := fun x hx =>
  alike x fun hmem => hx (List.mem_cons_of_mem grammar hmem)

/-- Where one engine walks, the other walks the same way and makes the same attempts, though
perhaps with other results. -/
theorem Walk.alike {steps : List LoadStep} {attempts : List Attempt} {last : σ}
    (h : Walk t visited steps s attempts last) (honest : Engine.Honest σ)
    (honest' : Engine.Honest τ) (hsettling : settling steps ⊆ visited)
    (alike : Alike visited s s') :
    ∃ (attempts' : List Attempt) (last' : τ), Walk t visited steps s' attempts' last' ∧
      attempts'.map Attempt.registration = attempts.map Attempt.registration := by
  induction h generalizing s' with
  | done => exact ⟨[], s', .done, rfl⟩
  | @settle visited grammar dependencies rest s next last result attempts hregister _ ih =>
    rw [honest.remaining_eq hregister] at ih
    obtain ⟨hvisited, hrest⟩ := List.cons_subset.mp hsettling
    have hnext := alike.register honest honest' hvisited dependencies
    rcases hregister' : Engine.register s' grammar dependencies with ⟨result', next'⟩
    rw [hregister, hregister'] at hnext
    obtain ⟨attempts', last', hwalk, hsame⟩ := ih hrest hnext
    rw [← honest'.remaining_eq hregister' rest] at hwalk
    refine ⟨⟨grammar, dependencies, result'⟩ :: attempts', last', .settle hregister' hwalk, ?_⟩
    rw [List.map_cons, List.map_cons, hsame]
    rfl
  | @skip visited grammar rest s last attempts hskip _ ih =>
    obtain ⟨attempts', last', hwalk, hsame⟩ := ih hsettling alike
    refine ⟨attempts', last', .skip ?_ hwalk, hsame⟩
    rcases hskip with hplain | hregistered | hvisited
    · exact .inl hplain
    · -- What is registered with one engine only was visited.
      by_cases hvisited : grammar ∈ visited
      · exact .inr (.inr hvisited)
      · exact .inr (.inl ((alike grammar hvisited).symm.trans hregistered))
    · exact .inr (.inr hvisited)
  | @enter visited grammar rest s last attempts hplain hregistered hvisited _ ih =>
    obtain ⟨attempts', last', hwalk, hsame⟩ :=
      ih (settling_enter_subset hsettling) (alike.enter grammar)
    have hregistered' := (alike grammar hvisited).symm.trans hregistered
    exact ⟨attempts', last', .enter hplain hregistered' hvisited hwalk, hsame⟩

/-- The registrations that loading asks for are the attempts of its walk. -/
theorem calls_load {language : String} {attempts : List Attempt} {last : σ}
    (h : Walk t [] [.visit (t.resolve language)] s attempts last) :
    (t.load language (⟨s, []⟩ : Recorded σ)).2.calls = attempts.map Attempt.registration := by
  obtain ⟨made, hmade, -⟩ := walk_load t language (⟨s, []⟩ : Recorded σ)
  obtain ⟨-, hlast⟩ := (h.recorded []).unique hmade
  rw [hlast, List.nil_append]

/-- Loading a language asks two engines for the same registrations, with the same dependencies and
in the same order, if both have the same grammars registered before. Which registrations fail has
no influence: neither on the grammars beside one that fails, nor on those that share dependencies
with it, nor on those that depend on it. -/
theorem calls_load_eq (honest : Engine.Honest σ) (honest' : Engine.Honest τ) (t : Tables)
    (language : String) {s : σ} {s' : τ}
    (same : ∀ x, Engine.isRegistered s x = Engine.isRegistered s' x) :
    (t.load language (⟨s, []⟩ : Recorded σ)).2.calls =
      (t.load language (⟨s', []⟩ : Recorded τ)).2.calls := by
  obtain ⟨attempts, hwalk, -⟩ := walk_load t language s
  have hsettling : settling [.visit (t.resolve language)] ⊆ [] := List.nil_subset _
  have alike : Alike [] s s' := fun x _ => same x
  obtain ⟨attempts', last', hwalk', hsame⟩ := hwalk.alike honest honest' hsettling alike
  rw [calls_load hwalk, calls_load hwalk', hsame]

/-- With one engine a shared dependency fails, with the other all that depends on it, on a cycle. -/
theorem calls_load_eq_tangled :
    let s : WordEngine := ⟨["c"], ["d"], .empty⟩
    let s' : WordEngine := ⟨["a", "b"], ["d"], .empty⟩
    Engine.Honest WordEngine ∧ (∀ x, Engine.isRegistered s x = Engine.isRegistered s' x) ∧
      (tangledTables.load "start" s).1.registered = ["b", "a"] ∧
      (tangledTables.load "start" s').1.registered = ["c"] ∧
      (tangledTables.load "start" (⟨s, []⟩ : Recorded WordEngine)).2.calls =
        (tangledTables.load "start" (⟨s', []⟩ : Recorded WordEngine)).2.calls := by
  intro s s'
  have same : ∀ x, Engine.isRegistered s x = Engine.isRegistered s' x := fun _ => rfl
  exact ⟨WordEngine.honest, same, by cbv, by cbv,
    calls_load_eq WordEngine.honest WordEngine.honest tangledTables "start" same⟩

end Tables

end Highlighting
