import Highlighting.Proofs.Loading.Isolation

/-! Dependencies come first. When a grammar is attempted, each of its dependencies is seen to, apart
from those that depend on the grammar in turn. The steps that are left are a stack: a grammar that
is to be settled depends on all that is to be done before it. A dependency that is passed over
because it is still to be settled therefore lies on a cycle. -/

namespace Highlighting

variable {σ : Type} [Engine σ]

/-! ### Registrations one after the other -/

/-- The engine after registrations, whether they succeed or fail. -/
def Engine.registerAll (s : σ) (calls : List Registration) : σ :=
  calls.foldl (fun s call => (Engine.register s call.grammar call.dependencies).2) s

/-- A grammar whose registration succeeds is registered from then on. -/
structure Engine.Lasting (σ : Type) [Engine σ] : Prop where
  isRegistered_of_isOk : ∀ (s : σ) (grammar : String) (dependencies : List String),
    (Engine.register s grammar dependencies).1.isOk →
      Engine.isRegistered (Engine.register s grammar dependencies).2 grammar = true
  isRegistered_register : ∀ (s : σ) (grammar : String) (dependencies : List String) {x : String},
    Engine.isRegistered s x = true →
      Engine.isRegistered (Engine.register s grammar dependencies).2 x = true

theorem Engine.Honest.lasting (honest : Engine.Honest σ) : Engine.Lasting σ where
  isRegistered_of_isOk s grammar dependencies hok := by
    rw [honest.isRegistered_register, hok, Bool.true_and, beq_self_eq_true, Bool.or_true]
  isRegistered_register s grammar dependencies x hx := by
    rw [honest.isRegistered_register, hx, Bool.true_or]

theorem Engine.Lasting.isRegistered_registerAll (lasting : Engine.Lasting σ) {s : σ} {x : String}
    (h : Engine.isRegistered s x = true) (calls : List Registration) :
    Engine.isRegistered (Engine.registerAll s calls) x = true := by
  induction calls generalizing s with
  | nil => exact h
  | cons call calls ih => exact ih (lasting.isRegistered_register s _ _ h)

/-- The engine after some attempts of a load. -/
def Attempt.after (s : σ) (attempts : List Attempt) : σ :=
  Engine.registerAll s (attempts.map Attempt.registration)

@[simp] theorem Attempt.after_nil (s : σ) : Attempt.after s [] = s := rfl

@[simp] theorem Attempt.after_cons (s : σ) (a : Attempt) (attempts : List Attempt) :
    Attempt.after s (a :: attempts) =
      Attempt.after (Engine.register s a.grammar a.dependencies).2 attempts := rfl

theorem Attempt.after_append (s : σ) (before rest : List Attempt) :
    Attempt.after s (before ++ rest) = Attempt.after (Attempt.after s before) rest := by
  unfold Attempt.after Engine.registerAll
  rw [List.map_append, List.foldl_append]

namespace Tables

/-- A grammar is another, or depends on it directly or over further grammars. -/
def DependsOn (t : Tables) (grammar other : String) : Prop :=
  t.Reaches (fun _ => True) grammar other

/-- No grammar depends on itself over its dependencies. -/
def Acyclic (t : Tables) : Prop :=
  ∀ grammar, ∀ dependency ∈ t.edges grammar, ¬ t.DependsOn dependency grammar

variable {t : Tables} {grammar x : String} {steps rest : List LoadStep} {s last : σ}

theorem dependsOn_self (t : Tables) (grammar : String) : t.DependsOn grammar grammar :=
  .here trivial

theorem DependsOn.step (h : t.DependsOn grammar x) {dependency : String}
    (hedge : dependency ∈ t.edges x) : t.DependsOn grammar dependency :=
  Reaches.step h hedge trivial

/-- There are no cycles where every entry lists names of grammars with a smaller rank. -/
theorem acyclic_of_rank (rank : String → Nat)
    (h : ∀ e ∈ t.dependencies.entries, ∀ name ∈ e.2, rank (t.resolve name) < rank e.1) :
    t.Acyclic := by
  have hlt {grammar dependency : String} (hedge : dependency ∈ t.edges grammar) :
      rank dependency < rank grammar := by
    obtain ⟨names, hentry, name, hname, rfl⟩ := exists_entry_of_mem_edges hedge
    exact h (grammar, names) hentry name hname
  have hle {grammar other : String} (hdepends : t.DependsOn grammar other) :
      rank other ≤ rank grammar := by
    induction hdepends with
    | here _ => exact le_rfl
    | step _ hedge _ ih => exact (hlt hedge).le.trans ih
  intro grammar dependency hedge hdepends
  exact absurd (hlt hedge) (hle hdepends).not_gt

/-! ### The steps that are left -/

/-- The grammar that a step is about. -/
def subject : LoadStep → String
  | .visit grammar => grammar
  | .settle grammar _ => grammar

/-- What is to be settled depends on all that is to be done before it. -/
def Stacked (t : Tables) : List LoadStep → Prop
  | [] => True
  | step :: rest => (∀ g ∈ settling rest, t.DependsOn g (subject step)) ∧ Stacked t rest

/-- A grammar that is to be settled finds each of its dependencies among those that were seen to or
will be before it, unless the dependency depends on it. -/
def Prepared (t : Tables) (seen : List String) : List LoadStep → Prop
  | [] => True
  | .visit grammar :: rest => Prepared t (grammar :: seen) rest
  | .settle grammar dependencies :: rest =>
    dependencies = t.edges grammar ∧
      (∀ d ∈ dependencies, d ∈ seen ∨ t.DependsOn d grammar) ∧ Prepared t (grammar :: seen) rest

variable {seen : List String}

theorem Stacked.visits {names : List String} (stacked : Stacked t rest)
    (h : ∀ name ∈ names, ∀ g ∈ settling rest, t.DependsOn g name) :
    Stacked t (names.map .visit ++ rest) := by
  induction names with
  | nil => exact stacked
  | cons name names ih =>
    obtain ⟨hname, hnames⟩ := List.forall_mem_cons.mp h
    rw [List.map_cons, List.cons_append]
    refine ⟨fun g hg => ?_, ih hnames⟩
    rw [settling_visits] at hg
    exact hname g hg

/-- A grammar that is entered is put on the stack below its dependencies. -/
theorem Stacked.enter (stacked : Stacked t (.visit grammar :: rest)) :
    Stacked t ((t.edges grammar).map .visit ++ .settle grammar (t.edges grammar) :: rest) := by
  obtain ⟨hgrammar, hrest⟩ := stacked
  refine Stacked.visits ⟨hgrammar, hrest⟩ fun dependency hdependency g hg => ?_
  rcases List.mem_cons.mp hg with rfl | hg
  · exact (t.dependsOn_self g).step hdependency
  · exact (hgrammar g hg).step hdependency

theorem Prepared.mono {seen' : List String} (prepared : Prepared t seen steps)
    (h : seen ⊆ seen') : Prepared t seen' steps := by
  induction steps generalizing seen seen' with
  | nil => trivial
  | cons step rest ih =>
    cases step with
    | visit name => exact ih prepared (List.cons_subset_cons name h)
    | settle name dependencies =>
      obtain ⟨hedges, hseen, hrest⟩ := prepared
      exact ⟨hedges, fun d hd => (hseen d hd).imp_left (@h d),
        ih hrest (List.cons_subset_cons name h)⟩

theorem prepared_visits (names : List String) :
    Prepared t seen (names.map .visit ++ rest) ↔ Prepared t (names.reverse ++ seen) rest := by
  induction names generalizing seen with
  | nil => rfl
  | cons name names ih =>
    rw [List.reverse_cons, List.append_assoc, List.singleton_append]
    exact ih

/-- A grammar that is entered is settled behind visits to all of its dependencies. -/
theorem Prepared.enter (prepared : Prepared t seen (.visit grammar :: rest)) :
    Prepared t seen
      ((t.edges grammar).map .visit ++ .settle grammar (t.edges grammar) :: rest) := by
  refine (prepared_visits _).mpr ⟨rfl, fun d hd => ?_, ?_⟩
  · exact .inl (List.mem_append_left _ (List.mem_reverse.mpr hd))
  · exact Prepared.mono prepared (List.cons_subset_cons grammar (List.subset_append_right _ _))

/-- A grammar that is still to be settled may be passed over. It will be seen to before all but
those that are settled no later, and on these it depends. -/
theorem Prepared.pass (prepared : Prepared t (grammar :: seen) rest) (stacked : Stacked t rest)
    (hpending : grammar ∈ settling rest) : Prepared t seen rest := by
  induction rest generalizing seen with
  | nil => trivial
  | cons step rest ih =>
    obtain ⟨hbelow, hstacked⟩ := stacked
    cases step with
    | visit name =>
      have hswap : Prepared t (grammar :: name :: seen) rest :=
        Prepared.mono prepared (List.Perm.swap grammar name seen).subset
      exact ih hswap hstacked hpending
    | settle name dependencies =>
      obtain ⟨hedges, hseen, hrest⟩ := prepared
      have hdepends : t.DependsOn grammar name := by
        rcases List.mem_cons.mp hpending with rfl | hlater
        · exact t.dependsOn_self grammar
        · exact hbelow grammar hlater
      refine ⟨hedges, fun d hd => ?_, ?_⟩
      · rcases hseen d hd with hmem | hcycle
        · rcases List.mem_cons.mp hmem with rfl | hmem
          · exact .inr hdepends
          · exact .inl hmem
        · exact .inr hcycle
      · rcases List.mem_cons.mp hpending with rfl | hlater
        · exact hrest.mono (List.cons_subset.mpr ⟨List.mem_cons_self, List.Subset.refl _⟩)
        · exact ih (hrest.mono (List.Perm.swap grammar name seen).subset) hstacked hlater

/-- What holds of the steps that are left at any time of a walk. What was visited was seen to or is
still to be settled. -/
structure Ready (t : Tables) (seen visited : List String) (steps : List LoadStep) : Prop where
  prepared : Prepared t seen steps
  stacked : Stacked t steps
  mem_of_visited : ∀ g ∈ visited, g ∈ seen ∨ g ∈ settling steps

namespace Ready

variable {visited : List String}

theorem start (t : Tables) (root : String) : Ready t [] [] [.visit root] where
  prepared := trivial
  stacked := ⟨fun _ hg => absurd hg List.not_mem_nil, trivial⟩
  mem_of_visited _ hg := absurd hg List.not_mem_nil

theorem settle {dependencies : List String}
    (ready : Ready t seen visited (.settle grammar dependencies :: rest)) :
    Ready t (grammar :: seen) visited rest where
  prepared := ready.prepared.2.2
  stacked := ready.stacked.2
  mem_of_visited g hg := by
    rcases ready.mem_of_visited g hg with hseen | hsettling
    · exact .inl (List.mem_cons_of_mem grammar hseen)
    · rcases List.mem_cons.mp hsettling with rfl | hlater
      · exact .inl List.mem_cons_self
      · exact .inr hlater

/-- A grammar that needs no attempt counts as seen to from its visit on. -/
theorem skip (ready : Ready t seen visited (.visit grammar :: rest)) :
    Ready t (grammar :: seen) visited rest where
  prepared := ready.prepared
  stacked := ready.stacked.2
  mem_of_visited g hg := (ready.mem_of_visited g hg).imp_left (List.mem_cons_of_mem grammar)

theorem pass (ready : Ready t seen visited (.visit grammar :: rest)) (hagain : grammar ∈ visited) :
    Ready t seen visited rest where
  prepared := by
    rcases ready.mem_of_visited grammar hagain with hseen | hpending
    · exact Prepared.mono ready.prepared (List.cons_subset.mpr ⟨hseen, List.Subset.refl _⟩)
    · exact Prepared.pass ready.prepared ready.stacked.2 hpending
  stacked := ready.stacked.2
  mem_of_visited := ready.mem_of_visited

theorem enter (ready : Ready t seen visited (.visit grammar :: rest)) :
    Ready t seen (grammar :: visited)
      ((t.edges grammar).map .visit ++ .settle grammar (t.edges grammar) :: rest) where
  prepared := ready.prepared.enter
  stacked := ready.stacked.enter
  mem_of_visited g hg := by
    rw [settling_visits, settling_settle]
    rcases List.mem_cons.mp hg with rfl | hg
    · exact .inr List.mem_cons_self
    · exact (ready.mem_of_visited g hg).imp_right (List.mem_cons_of_mem grammar)

end Ready

/-! ### Walks -/

/-- A grammar is in no need of an attempt any more: it is plain text, it was registered at some
point, or it was attempted. -/
def SeenTo (s : σ) (before : List Attempt) (grammar : String) : Prop :=
  grammar = plainText ∨
    (∃ earlier, earlier <+: before ∧ Engine.isRegistered (Attempt.after s earlier) grammar = true) ∨
      grammar ∈ before.map Attempt.grammar

/-- A grammar is plain text, it is registered, or its registration failed. -/
def Settled (s : σ) (before : List Attempt) (grammar : String) : Prop :=
  grammar = plainText ∨ Engine.isRegistered (Attempt.after s before) grammar = true ∨
    ∃ e, (grammar, e) ∈ before.filterMap Attempt.failed?

theorem SeenTo.cons {first : Attempt} {before : List Attempt}
    (h : SeenTo (Engine.register s first.grammar first.dependencies).2 before x) :
    SeenTo s (first :: before) x := by
  rcases h with hplain | ⟨earlier, hprefix, hregistered⟩ | hattempted
  · exact .inl hplain
  · exact .inr (.inl ⟨first :: earlier, (List.prefix_cons_inj first).mpr hprefix, hregistered⟩)
  · exact .inr (.inr (List.mem_cons_of_mem _ hattempted))

theorem SeenTo.or_of_mem_cons {before : List Attempt} {d : String} {cyclic : Prop}
    (h : SeenTo s before grammar) (hd : d ∈ grammar :: seen ∨ SeenTo s before d ∨ cyclic) :
    d ∈ seen ∨ SeenTo s before d ∨ cyclic := by
  rcases hd with hmem | hlater
  · rcases List.mem_cons.mp hmem with rfl | hmem
    · exact .inr (.inl h)
    · exact .inl hmem
  · exact .inr hlater

/-- Each attempt of a walk is made with the dependencies of its grammar, and these were seen to
before, unless they depend on it. -/
theorem Walk.seenTo {visited : List String} {attempts before after : List Attempt} {a : Attempt}
    (h : Walk t visited steps s attempts last) (ready : Ready t seen visited steps)
    (hattempts : attempts = before ++ a :: after) :
    a.dependencies = t.edges a.grammar ∧
      ∀ d ∈ a.dependencies, d ∈ seen ∨ SeenTo s before d ∨ t.DependsOn d a.grammar := by
  induction h generalizing seen before with
  | done => simp at hattempts
  | @settle visited grammar dependencies rest s next last result attempts hregister hwalk ih =>
    cases before with
    | nil =>
      obtain ⟨rfl, -⟩ := List.cons.inj hattempts
      obtain ⟨hedges, hseen, -⟩ := ready.prepared
      exact ⟨hedges, fun d hd => (hseen d hd).imp_right .inr⟩
    | cons first before =>
      obtain ⟨rfl, hmore⟩ := List.cons.inj hattempts
      have hanswer := hwalk.ne_crashed (by simp [hmore])
      rw [LoadStep.remaining_of_ne hanswer] at ih
      obtain ⟨hdependencies, hsettled⟩ := ih ready.settle hmore
      have hnext : next = (Engine.register s grammar dependencies).2 := by rw [hregister]
      subst hnext
      refine ⟨hdependencies, fun d hd => SeenTo.or_of_mem_cons (.inr (.inr List.mem_cons_self)) ?_⟩
      exact (hsettled d hd).imp_right (.imp_left SeenTo.cons)
  | @skip visited grammar rest s last attempts hskip _ ih =>
    -- A grammar without need of an attempt is seen to from here on.
    have hneedless (hgrammar : SeenTo s before grammar) : a.dependencies = t.edges a.grammar ∧
        ∀ d ∈ a.dependencies, d ∈ seen ∨ SeenTo s before d ∨ t.DependsOn d a.grammar := by
      obtain ⟨hdependencies, hsettled⟩ := ih ready.skip hattempts
      exact ⟨hdependencies, fun d hd => hgrammar.or_of_mem_cons (hsettled d hd)⟩
    rcases hskip with hplain | hregistered | hagain
    · exact hneedless (.inl hplain)
    · exact hneedless (.inr (.inl ⟨[], List.nil_prefix, hregistered⟩))
    · exact ih (ready.pass hagain) hattempts
  | enter _ _ _ _ ih => exact ih ready.enter hattempts

/-- The engine crashes at the last attempt of a walk, if it crashes at all. -/
theorem Walk.crash?_eq_none {visited : List String} {attempts before after : List Attempt}
    {a b : Attempt} (h : Walk t visited steps s attempts last)
    (hattempts : attempts = before ++ a :: after) (hb : b ∈ before) : b.crash? = none := by
  induction h generalizing before with
  | done => simp at hattempts
  | settle _ hwalk ih =>
    cases before with
    | nil => exact absurd hb List.not_mem_nil
    | cons first before =>
      obtain ⟨rfl, hmore⟩ := List.cons.inj hattempts
      rcases List.mem_cons.mp hb with rfl | hb
      · exact Attempt.crash?_eq_none_iff.mpr (hwalk.ne_crashed (by simp [hmore]))
      · exact ih hmore hb
  | skip _ _ ih => exact ih hattempts hb
  | enter _ _ _ _ ih => exact ih hattempts hb

/-- The results of attempts are those of the engine that the attempts before them leave behind. -/
theorem Walk.result_eq {visited : List String} {attempts before after : List Attempt} {a : Attempt}
    (h : Walk t visited steps s attempts last) (hattempts : attempts = before ++ a :: after) :
    (Engine.register (Attempt.after s before) a.grammar a.dependencies).1 = a.result := by
  induction h generalizing before with
  | done => simp at hattempts
  | @settle visited grammar dependencies rest s next last result attempts hregister _ ih =>
    cases before with
    | nil =>
      obtain ⟨rfl, -⟩ := List.cons.inj hattempts
      rw [Attempt.after_nil, hregister]
    | cons first before =>
      obtain ⟨rfl, hmore⟩ := List.cons.inj hattempts
      rw [Attempt.after_cons, hregister]
      exact ih hmore
  | skip _ _ ih => exact ih hattempts
  | enter _ _ _ _ ih => exact ih hattempts

/-- With an engine that keeps what is registered, a grammar that was seen to is settled as long as
the engine does not crash. -/
theorem Walk.settled_of_seenTo {visited : List String} {attempts before rest : List Attempt}
    (h : Walk t visited steps s attempts last) (lasting : Engine.Lasting σ)
    (hattempts : attempts = before ++ rest) (calm : ∀ b ∈ before, b.crash? = none)
    (hseen : SeenTo s before x) : Settled s before x := by
  rcases hseen with hplain | ⟨earlier, ⟨later, rfl⟩, hregistered⟩ | hattempted
  · exact .inl hplain
  · rw [Settled, Attempt.after_append]
    exact .inr (.inl (lasting.isRegistered_registerAll hregistered _))
  · obtain ⟨b, hb, rfl⟩ := List.mem_map.mp hattempted
    rcases hresult : b.result with (e | message) | ⟨⟩
    · have hfailed : b.failed? = some (b.grammar, e) := by simp [Attempt.failed?, hresult]
      exact .inr (.inr ⟨e, List.mem_filterMap.mpr ⟨b, hb, hfailed⟩⟩)
    · exact absurd hresult (Attempt.crash?_eq_none_iff.mp (calm b hb) message)
    · obtain ⟨earlier, later, rfl⟩ := List.append_of_mem hb
      rw [List.append_assoc, List.cons_append] at hattempts
      have hok := lasting.isRegistered_of_isOk (Attempt.after s earlier) b.grammar b.dependencies
      rw [h.result_eq hattempts, hresult] at hok
      rw [Settled, Attempt.after_append, Attempt.after_cons]
      exact .inr (.inl (lasting.isRegistered_registerAll (hok rfl) _))

/-- What lies at the bottom of the stack is attempted last, unless the engine crashes before. -/
theorem Walk.getLast?_attempts {visited : List String} {attempts : List Attempt}
    {dependencies : List String}
    (h : Walk t visited (steps ++ [.settle grammar dependencies]) s attempts last)
    (calm : ∀ a ∈ attempts, a.crash? = none) :
    attempts.getLast?.map Attempt.grammar = some grammar := by
  generalize hsteps : steps ++ [.settle grammar dependencies] = all at h
  induction h generalizing steps with
  | done => simp at hsteps
  | @settle visited name names rest s next last result attempts _ hwalk ih =>
    obtain ⟨hanswer, hmore⟩ := List.forall_mem_cons.mp calm
    rw [LoadStep.remaining_of_ne (Attempt.crash?_eq_none_iff.mp hanswer)] at hwalk ih
    cases steps with
    | nil =>
      obtain ⟨hfirst, rfl⟩ := List.cons.inj hsteps
      cases hfirst
      cases hwalk
      rfl
    | cons step steps =>
      have hlater := ih hmore (List.cons.inj hsteps).2
      cases attempts with
      | nil => cases hlater
      | cons second more => exact hlater
  | skip _ _ ih =>
    cases steps with
    | nil => cases hsteps
    | cons step steps => exact ih calm (List.cons.inj hsteps).2
  | @enter visited name rest s last attempts _ _ _ _ ih =>
    cases steps with
    | nil => cases hsteps
    | cons step steps =>
      obtain ⟨-, rfl⟩ := List.cons.inj hsteps
      exact @ih ((t.edges name).map .visit ++ .settle name (t.edges name) :: steps) calm (by simp)

/-- Loading a language attempts grammars with their direct dependencies, as the tables resolve them
and in their order. Each dependency was seen to before, unless it depends on the grammar in turn, so
that without cycles all of them were. An engine that keeps what is registered then has a dependency
registered or has refused it. The grammar that the language means is attempted last, if it has to be
attempted. If the engine crashes, the attempt at which it does is the last one instead. -/
theorem load_settles_dependencies (t : Tables) (language : String) (s : σ) :
    let root := t.resolve language
    ∃ attempts : List Attempt,
      (t.load language (⟨s, []⟩ : Recorded σ)).2.calls = attempts.map Attempt.registration ∧
      (t.load language s).1 = ⟨root, attempts.filterMap Attempt.registered?,
        attempts.filterMap Attempt.failed?, (attempts.filterMap Attempt.crash?).getLast?⟩ ∧
      (∀ before a after, attempts = before ++ a :: after →
        a.dependencies = (t.dependenciesOf a.grammar).map t.resolve ∧
          (∀ d ∈ a.dependencies, SeenTo s before d ∨ t.DependsOn d a.grammar) ∧
          ∀ b ∈ before, b.crash? = none) ∧
      (t.Acyclic → ∀ before a after, attempts = before ++ a :: after →
        ∀ d ∈ a.dependencies, SeenTo s before d) ∧
      (Engine.Lasting σ → ∀ before after, attempts = before ++ after →
        (∀ b ∈ before, b.crash? = none) → ∀ d, SeenTo s before d → Settled s before d) ∧
      ((t.load language s).1.crash = none → root ≠ plainText →
        Engine.isRegistered s root = false →
        attempts.getLast?.map Attempt.grammar = some root) := by
  intro root
  obtain ⟨attempts, hwalk, hreport⟩ := walk_load t language s
  have hmade {before after : List Attempt} {a : Attempt}
      (hattempts : attempts = before ++ a :: after) : a.dependencies = t.edges a.grammar ∧
        ∀ d ∈ a.dependencies, SeenTo s before d ∨ t.DependsOn d a.grammar := by
    obtain ⟨hedges, hseen⟩ := hwalk.seenTo (.start t root) hattempts
    exact ⟨hedges, fun d hd => (hseen d hd).resolve_left List.not_mem_nil⟩
  refine ⟨attempts, calls_load hwalk, hreport, ?_, ?_, ?_, ?_⟩
  · intro before a after hattempts
    obtain ⟨hedges, hseen⟩ := hmade hattempts
    exact ⟨hedges, hseen, fun b hb => hwalk.crash?_eq_none hattempts hb⟩
  · intro acyclic before a after hattempts d hd
    obtain ⟨hedges, hseen⟩ := hmade hattempts
    exact (hseen d hd).resolve_right (acyclic a.grammar d (hedges ▸ hd))
  · intro lasting before after hattempts calm d hseen
    exact hwalk.settled_of_seenTo lasting hattempts calm hseen
  · intro hcrash hplain hmissing
    have calm := (crash_load_eq_none_iff hwalk).mp hcrash
    cases hwalk with
    | skip hskip _ =>
      rcases hskip with hskip | hskip | hskip
      · exact absurd hskip hplain
      · rw [hmissing] at hskip
        cases hskip
      · exact absurd hskip List.not_mem_nil
    | enter _ _ _ hrest => exact hrest.getLast?_attempts calm

/-- The built-in grammars depend on each other without cycles. -/
theorem builtin_acyclic : builtin.Acyclic :=
  acyclic_of_rank (["c", "javascript", "cpp", "typescript", "tsx"].idxOf ·) (by decide)

/-- Without cycles a refused grammar is settled before the one that depends on it. With cycles `b`
is attempted while `a`, on which it depends, is not settled yet. -/
theorem load_settles_dependencies_layered :
    let s : WordEngine := ⟨["c", "typescript"], ["d"], .empty⟩
    Engine.Lasting WordEngine ∧ builtin.Acyclic ∧
      (∃ js ts tsx : Attempt,
        [js, ts, tsx].map Attempt.registration =
          [⟨"javascript", []⟩, ⟨"typescript", ["javascript"]⟩, ⟨"tsx", ["typescript"]⟩] ∧
        Settled s [js, ts] "typescript" ∧
        [js, ts, tsx].getLast?.map Attempt.grammar = some "tsx") ∧
      tangledTables.DependsOn "a" "b" := by
  intro s
  have lasting : Engine.Lasting WordEngine := WordEngine.honest.lasting
  refine ⟨lasting, builtin_acyclic, ?_, ?_⟩
  · obtain ⟨attempts, hcalls, -, hmade, hseen, hsettled, hlast⟩ :=
      load_settles_dependencies builtin "tsx" s
    have hregistrations : attempts.map Attempt.registration =
        [⟨"javascript", []⟩, ⟨"typescript", ["javascript"]⟩, ⟨"tsx", ["typescript"]⟩] := by
      rw [← hcalls]
      cbv
    obtain ⟨js, more, rfl, -, hmore⟩ := List.map_eq_cons_iff.mp hregistrations
    obtain ⟨ts, more, rfl, -, hmore⟩ := List.map_eq_cons_iff.mp hmore
    obtain ⟨tsx, more, rfl, htsx, hmore⟩ := List.map_eq_cons_iff.mp hmore
    obtain rfl := List.map_eq_nil_iff.mp hmore
    have calm := (hmade [js, ts] tsx [] rfl).2.2
    refine ⟨js, ts, tsx, hregistrations,
      hsettled lasting [js, ts] [tsx] rfl calm "typescript" ?_, ?_⟩
    · refine hseen builtin_acyclic [js, ts] tsx [] rfl "typescript" ?_
      rw [show tsx.dependencies = ["typescript"] from congrArg Registration.dependencies htsx]
      exact List.mem_singleton_self _
    · rw [hlast (by cbv) (by decide) (by decide)]
      decide
  · obtain ⟨attempts, hcalls, -, hmade, -⟩ := load_settles_dependencies tangledTables "start" s
    have hregistrations : attempts.map Attempt.registration =
        [⟨"c", ["d", "a"]⟩, ⟨"b", ["a", "c", "text"]⟩, ⟨"a", ["b", "a", "c", "b", "a"]⟩] := by
      rw [← hcalls]
      cbv
    obtain ⟨c, more, rfl, hc, hmore⟩ := List.map_eq_cons_iff.mp hregistrations
    obtain ⟨b, more, rfl, hb, -⟩ := List.map_eq_cons_iff.mp hmore
    obtain ⟨hc, hcdeps⟩ := Registration.mk.inj hc
    obtain ⟨hb, hbdeps⟩ := Registration.mk.inj hb
    have hcycle := (hmade [c] b more rfl).2.1 "a" (by simp [hbdeps])
    rw [hb] at hcycle
    refine hcycle.resolve_left ?_
    rintro (hplain | ⟨earlier, hprefix, hregistered⟩ | hattempted)
    · exact absurd hplain (by decide)
    · rcases List.prefix_cons_iff.mp hprefix with rfl | ⟨rest, rfl, hrest⟩
      · exact absurd hregistered (by decide)
      · rw [List.prefix_nil.mp hrest, Attempt.after_cons, hc, hcdeps] at hregistered
        exact absurd hregistered (by decide)
    · simp [hc] at hattempted

end Tables

end Highlighting
