import Highlighting.Proofs.Command.Answer
import Highlighting.Proofs.Loading.Order
import Highlighting.Proofs.Worker.History

/-! Which grammar a highlight command leads to: by the language that it is given, or by the one that
the extension of its file detects. An extension is looked up among the aliases when it is detected,
and what it means is looked up once more when the grammar is loaded; a language that is given is
looked up once. Both ways lead to one grammar where the second look changes nothing, as it does with
aliases of grammars only. -/

namespace Highlighting

namespace Tables

/-- Aliases mean grammars: none of them means what is an alias of another grammar. -/
def Direct (t : Tables) : Prop := ∀ entry ∈ t.aliases.entries, t.resolve entry.2 = entry.2

instance (t : Tables) : Decidable t.Direct :=
  inferInstanceAs (Decidable (∀ entry ∈ t.aliases.entries, _))

theorem Direct.resolve_resolve {t : Tables} (h : t.Direct) (language : String) :
    t.resolve (t.resolve language) = t.resolve language := by
  cases hget : t.aliases.get? language with
  | none =>
    have hself : t.resolve language = language := by simp [resolve, hget]
    rw [hself, hself]
  | some grammar =>
    have hmeans : t.resolve language = grammar := by simp [resolve, hget]
    obtain ⟨before, after, hentries, -⟩ := List.lookup_eq_some_iff.mp hget
    rw [hmeans]
    exact h (language, grammar) (by simp [hentries])

/-- The built-in aliases mean grammars. -/
example : builtin.Direct := by decide

end Tables

/-! ### What an engine is asked -/

inductive Question where
  | register (registration : Registration)
  | highlight (text grammar : String)
  deriving DecidableEq

/-- An engine and what it was asked, in order. -/
structure Questioned (σ : Type) where
  engine : σ
  questions : List Question

variable {σ : Type} [Engine σ]

instance : Engine (Questioned σ) where
  isRegistered s := Engine.isRegistered s.engine
  register s grammar dependencies :=
    let (result, engine) := Engine.register s.engine grammar dependencies
    (result, ⟨engine, s.questions ++ [.register ⟨grammar, dependencies⟩]⟩)
  highlight s := Engine.highlight s.engine
  afterHighlight s text grammar :=
    ⟨Engine.afterHighlight s.engine text grammar, s.questions ++ [.highlight text grammar]⟩
  setTheme s theme := { s with engine := Engine.setTheme s.engine theme }

/-- What loading a grammar and highlighting with it asks for: the registrations that the walk from
the grammar attempts, and then the text, unless the engine crashed at one of them. -/
def Tables.Asks (t : Tables) (s : σ) (text grammar : String) (questions : List Question) : Prop :=
  ∃ attempts last, t.Walk [] [.visit grammar] s attempts last ∧
    questions = (attempts.map fun a => .register a.registration) ++
      if ∀ a ∈ attempts, a.crash? = none then [.highlight text grammar] else []

theorem Tables.Asks.exists_of_honest {t : Tables} {s : σ} {text grammar : String}
    {questions : List Question} (h : t.Asks s text grammar questions)
    (honest : Engine.Honest σ) : questions.getLast? = some (.highlight text grammar) := by
  obtain ⟨attempts, last, hwalk, rfl⟩ := h
  have calm := List.filterMap_eq_nil_iff.mp (hwalk.filterMap_crash? honest)
  rw [if_pos calm, List.getLast?_concat]

theorem Tables.Asks.unique {t : Tables} {s : σ} {text grammar grammar' : String}
    {questions : List Question} (h : t.Asks s text grammar questions)
    (h' : t.Asks s text grammar' questions) (honest : Engine.Honest σ) : grammar = grammar' := by
  have hlast := (h.exists_of_honest honest).symm.trans (h'.exists_of_honest honest)
  simpa using hlast

/-- Loading is the same for an engine whose questions are noted. -/
theorem load_questioned (t : Tables) (language : String) (s : σ) : ∃ attempts,
    t.Walk [] [.visit (t.resolve language)] s attempts (t.load language s).2 ∧
      (t.load language (⟨s, []⟩ : Questioned σ)).2 =
        ⟨(t.load language s).2, attempts.map fun a => .register a.registration⟩ ∧
      ((t.load language (⟨s, []⟩ : Questioned σ)).1.crash = none ↔
        ∀ a ∈ attempts, a.crash? = none) := by
  obtain ⟨attempts, hwalk, -⟩ := t.walk_load language s
  obtain ⟨made, hmade, -⟩ := t.walk_load language (⟨s, []⟩ : Questioned σ)
  have hobserved := hwalk.observed (fun s calls => (⟨s, calls.map .register⟩ : Questioned σ))
    (fun _ _ _ => rfl) (fun _ _ _ _ => by simp [Engine.register]) []
  obtain ⟨-, hlast⟩ := hobserved.unique hmade
  refine ⟨attempts, hwalk, ?_, t.crash_load_eq_none_iff hobserved⟩
  rw [hlast, List.nil_append, List.map_map]
  rfl

theorem themed_questioned (c : Config) (s : σ) (questions : List Question) :
    c.themed (⟨s, questions⟩ : Questioned σ) = ⟨c.themed s, questions⟩ := by
  unfold Config.themed
  split <;> rfl

/-- The worker of a configuration asks its engine to load the language of a job and to highlight the
text of the job. -/
theorem highlight_questioned (c : Config) (s : σ) (job : HighlightJob) :
    c.tables.Asks (c.themed s) job.value (c.tables.resolve job.language)
      ((c.worker (⟨s, []⟩ : Questioned σ)).highlight job).2.engine.questions := by
  have hworker : c.worker (⟨s, []⟩ : Questioned σ) =
      ⟨⟨c.themed s, []⟩, c.tables, c.diffLimit.toNat⟩ := by
    unfold Config.worker
    rw [themed_questioned]
  rw [hworker]
  obtain ⟨attempts, hwalk, hload, hcalm⟩ := load_questioned c.tables job.language (c.themed s)
  refine ⟨attempts, _, hwalk, ?_⟩
  by_cases hcrash : ∀ a ∈ attempts, a.crash? = none
  · rw [if_pos hcrash, Worker.highlight_of_load_eq_ok _
      (Worker.load_fst_of_crash_eq_none _ (hcalm.mpr hcrash)), Worker.load_snd, hload]
    rfl
  · obtain ⟨message, hmessage⟩ := Option.ne_none_iff_exists'.mp fun h => hcrash (hcalm.mp h)
    rw [if_neg hcrash, List.append_nil, Worker.highlight_of_load_eq_error _
      (Worker.load_fst_of_crash_eq_some _ hmessage), Worker.load_snd, hload]

/-! ### What a command asks -/

namespace HighlightArguments

/-- The engine of a command is asked to load a grammar and, unless it crashes at that, to highlight
with it, and with no other, whatever the engine and the text are. -/
def Uses (a : HighlightArguments) (c : Config) (grammar : String) : Prop :=
  ∀ {σ : Type} [Engine σ] (s : σ) (text : String), ∃ slot channel id,
    a.viewOn c (c.client (⟨s, []⟩ : Questioned σ)) text = .ok (slot, ⟨some channel, id⟩) ∧
      c.tables.Asks (c.themed s) (a.value text) grammar channel.worker.engine.questions

variable {a : HighlightArguments} {c : Config} {grammar grammar' : String}

theorem uses_resolve (a : HighlightArguments) (c : Config) :
    a.Uses c (c.tables.resolve (a.languageName c)) := by
  intro σ _ s text
  exact ⟨_, _, _, a.viewOn_client c _ text, highlight_questioned c s (a.job c text)⟩

theorem Uses.unique (h : a.Uses c grammar) (h' : a.Uses c grammar') : grammar = grammar' := by
  obtain ⟨slot, channel, id, hview, hasks⟩ := h (CaptureEngine.new .empty) ""
  obtain ⟨slot', channel', id', hview', hasks'⟩ := h' (CaptureEngine.new .empty) ""
  cases hview.symm.trans hview'
  exact hasks.unique hasks' CaptureEngine.honest

/-- A command uses the grammar that its language means. -/
theorem uses_iff : a.Uses c grammar ↔ grammar = c.tables.resolve (a.languageName c) := by
  constructor
  · exact fun h => h.unique (a.uses_resolve c)
  · rintro rfl
    exact a.uses_resolve c

/-- A command fails if it uses neither plain text nor a built-in grammar. -/
theorem Uses.view_of_unknown (h : a.Uses c grammar) (hplain : grammar ≠ plainText)
    (hunknown : grammar ∉ builtinGrammars) (source : CaptureSource) (text : String) :
    a.view c source text =
      .ok ⟨none, .failed ("grammar " ++ grammar ++ " is not registered"), a.plain text⟩ := by
  have hgrammar := uses_iff.mp h
  let s := c.themed (CaptureEngine.new source)
  let loaded := (c.tables.load (a.languageName c) s).2
  have hempty : s.grammars = [] := by
    unfold s Config.themed
    split <;> rfl
  have hregistered (e : CaptureEngine) : Engine.isRegistered e grammar = true ↔
      grammar ∈ e.grammars := by
    simp [Engine.isRegistered, CaptureEngine.isRegistered, hplain]
  have hmissing : grammar ∉ loaded.grammars := by
    rw [← hregistered, Tables.isRegistered_load_iff CaptureEngine.honest CaptureEngine.selective,
      hregistered, hempty]
    rintro (hold | ⟨haccepts, -⟩)
    · exact List.not_mem_nil hold
    · simp [CaptureEngine.accepts, hunknown] at haccepts
  have hrefused : Engine.highlight loaded (a.value text) grammar =
      .error (.refused (.notRegistered grammar)) := (if_neg hplain).trans (if_neg hmissing)
  have hresult : ((c.worker (CaptureEngine.new source)).highlight (a.job c text)).1 =
      .error (.engine (.refused (.notRegistered grammar))) := by
    have hstates : (CaptureEngine.dependable s.source).states
        (c.worker (CaptureEngine.new source)).engine := rfl
    rw [Worker.highlight_fst, Worker.forestOf_of_states _ hstates]
    change (Engine.highlight loaded (a.value text) (c.tables.resolve (a.languageName c))).mapError
      JobError.engine >>= _ = _
    rw [← hgrammar, hrefused]
    rfl
  rw [view_eq, hresult]
  rfl

/-! ### Detected and given languages -/

/-- What the slot of a command shows depends on its language only by the grammar that it means. -/
theorem view_eq_of_resolve {language language' : Option String}
    (h : c.tables.resolve ({ a with language }.languageName c) =
      c.tables.resolve ({ a with language := language' }.languageName c))
    (source : CaptureSource) (text : String) : { a with language }.view c source text =
      { a with language := language' }.view c source text := by
  let w := c.worker (CaptureEngine.new source)
  have hload : w.load ({ a with language }.languageName c) =
      w.load ({ a with language := language' }.languageName c) := by
    unfold Worker.load Tables.load
    rw [show w.tables = c.tables from rfl, h]
  have hforest : w.forestOf ({ a with language }.job c text) =
      w.forestOf ({ a with language := language' }.job c text) := by
    unfold Worker.forestOf
    simp only [job, HighlightOptions.job, hload]
    rfl
  rw [view_eq, view_eq, Worker.highlight_fst, Worker.highlight_fst, hforest]
  rfl

/-- Without a language a command uses the grammar that the aliases make of its extension when they
are looked up twice, and with the extension as its language the one that they make of it when they
are looked up once. So the two use the same grammar if and only if the second look changes nothing,
and then their slots show the same; that is so for every extension where no alias means another
one. -/
theorem uses_detected_iff (c : Config) (a : HighlightArguments) {extension : String}
    (h : Text.extension? a.file = some extension) :
    let t := c.tables
    let name := Text.lowercase extension
    let detecting : HighlightArguments := { a with language := none }
    let naming : HighlightArguments := { a with language := some name }
    (∀ grammar, detecting.Uses c grammar ↔ grammar = t.resolve (t.resolve name)) ∧
      (∀ grammar, naming.Uses c grammar ↔ grammar = t.resolve name) ∧
      ((∀ grammar, detecting.Uses c grammar ↔ naming.Uses c grammar) ↔
        t.resolve (t.resolve name) = t.resolve name) ∧
      (t.resolve (t.resolve name) = t.resolve name → ∀ source text,
        detecting.view c source text = naming.view c source text) ∧
      (t.Direct → t.resolve (t.resolve name) = t.resolve name) := by
  intro t name detecting naming
  have hdetected : detecting.languageName c = t.resolve name := by
    change t.languageOfPath a.file = t.resolve name
    unfold Tables.languageOfPath
    rw [h]
  have hnamed : naming.languageName c = name := rfl
  have hdetecting (grammar : String) :
      detecting.Uses c grammar ↔ grammar = t.resolve (t.resolve name) := by
    rw [uses_iff, hdetected]
  have hnaming (grammar : String) : naming.Uses c grammar ↔ grammar = t.resolve name := uses_iff
  refine ⟨hdetecting, hnaming, ?_, ?_, fun hdirect => hdirect.resolve_resolve name⟩
  · simp only [hdetecting, hnaming]
    constructor
    · exact fun hsame => (hsame _).mp rfl
    · exact fun hsame grammar => by rw [hsame]
  · intro hsame source text
    refine view_eq_of_resolve ?_ source text
    rw [hdetected]
    exact hsame

/-- The highlight command for a file, with all else as it is by default. -/
def ofFile (file : String) : HighlightArguments :=
  ⟨file, none, false, none, false, [], false, none, none⟩

/-- An extension in capitals means a grammar that has itself as an alias. -/
theorem uses_detected_iff_capitals :
    let c : Config :=
      { Config.standard with aliases := .ofList [("tpl", "cpp"), ("cpp", "cpp")] }
    let detecting := ofFile "views.d/Page.TPL/."
    let naming := { detecting with language := some "tpl" }
    Text.extension? detecting.file = some "TPL" ∧ c.tables.resolve "tpl" ≠ "tpl" ∧
      detecting.Uses c "cpp" ∧ naming.Uses c "cpp" := by
  intro c detecting naming
  have hextension : Text.extension? detecting.file = some "TPL" := by decide
  have hlower : Text.lowercase "TPL" = "tpl" := by decide
  obtain ⟨hdetecting, hnaming, -⟩ := uses_detected_iff c detecting hextension
  rw [hlower] at hdetecting hnaming
  have hmeans : c.tables.resolve "tpl" = "cpp" := by decide
  have hagain : c.tables.resolve "cpp" = "cpp" := by decide
  refine ⟨hextension, by rw [hmeans]; decide, (hdetecting "cpp").mpr ?_, (hnaming "cpp").mpr ?_⟩
  · rw [hmeans, hagain]
  · exact hmeans.symm

/-- An extension that is an alias of an alias of plain text: a command that detects it shows the
text, and one that is given it fails. -/
theorem not_uses_detected :
    let c : Config := { Config.standard with aliases := .single "tpl" "txt" }
    let detecting := ofFile "page.tpl"
    let naming := { detecting with language := some "tpl" }
    Text.extension? detecting.file = some "tpl" ∧ Text.lowercase "tpl" = "tpl" ∧
      detecting.Uses c plainText ∧ naming.Uses c "txt" ∧
      (¬ ∀ grammar, detecting.Uses c grammar ↔ naming.Uses c grammar) ∧
      detecting.view c .empty "x" = .ok ⟨none, ⟨some [.text "x"], false, none⟩, [.text "x"]⟩ ∧
      naming.view c .empty "x" =
        .ok ⟨none, .failed "grammar txt is not registered", [.text "x"]⟩ := by
  intro c detecting naming
  have hdetecting : detecting.Uses c plainText := uses_iff.mpr (by decide)
  have hnaming : naming.Uses c "txt" := uses_iff.mpr (by decide)
  refine ⟨by decide, by decide, hdetecting, hnaming, ?_, ?_, ?_⟩
  · intro hsame
    have hboth := hnaming.unique ((hsame plainText).mp hdetecting)
    revert hboth
    decide
  · rw [view_eq]
    cbv
  · exact hnaming.view_of_unknown (by decide) (by decide) .empty "x"

end HighlightArguments

end Highlighting
