import Highlighting.Worker.Job

/-! What a worker does with requests: one equation for each kind of request, and how requests one
after the other go together. -/

namespace Highlighting

variable {σ : Type} [Engine σ]

namespace Tables

theorem grammar_note (report : LoadReport) (grammar : String) (result : Except EngineFault Unit) :
    (note report grammar result).grammar = report.grammar := by
  rcases result with (_ | _) | ⟨⟩ <;> rfl

theorem grammar_carryOut (t : Tables) (fresh : List String) (steps : List LoadStep)
    (report : LoadReport) (s : σ) :
    (t.carryOut fresh steps report s).1.grammar = report.grammar := by
  fun_induction carryOut t fresh steps report s with
  | case1 => rfl
  | case2 _ report _ grammar _ _ result _ _ ih =>
    exact ih.trans (grammar_note report grammar result)
  | case3 _ _ _ _ _ _ ih => exact ih
  | case4 _ _ _ _ _ _ _ ih => exact ih
  | case5 _ _ _ _ _ _ _ _ _ ih => exact ih
  | case6 _ _ _ _ _ _ _ _ ih => exact ih

/-- Whatever fails while it is loaded, a language means the same grammar. -/
theorem grammar_load (t : Tables) (language : String) (s : σ) :
    (t.load language s).1.grammar = t.resolve language := t.grammar_carryOut _ _ _ s

end Tables

namespace Worker

variable (w : Worker σ)

theorem load_fst (language : String) :
    (w.load language).1 = (w.tables.load language w.engine).1.outcome := rfl

theorem load_snd (language : String) :
    (w.load language).2 = { w with engine := (w.tables.load language w.engine).2 } := rfl

/-- A language is loaded, whatever fails, unless the engine crashes. -/
theorem load_fst_of_crash_eq_none {language : String}
    (h : (w.tables.load language w.engine).1.crash = none) :
    (w.load language).1 = .ok (w.tables.resolve language) := by
  rw [load_fst, LoadReport.outcome, h, Tables.grammar_load]

theorem load_fst_of_crash_eq_some {language : String} {message : Option String}
    (h : (w.tables.load language w.engine).1.crash = some message) :
    (w.load language).1 = .error (.crashed message) := by
  rw [load_fst, LoadReport.outcome, h]

/-- The forest of the engine that a job is about, unless the engine crashes before it has one. -/
def forestOf (w : Worker σ) (job : HighlightJob) : Except EngineFault Forest :=
  (w.load job.language).1 >>= Engine.highlight (w.load job.language).2.engine job.value

theorem exists_of_forestOf {w : Worker σ} {job : HighlightJob} {f : Forest}
    (h : w.forestOf job = .ok f) :
    ∃ grammar, Engine.highlight (w.load job.language).2.engine job.value grammar = .ok f := by
  unfold forestOf at h
  cases hload : (w.load job.language).1 with
  | error fault =>
    rw [hload] at h
    cases h
  | ok grammar =>
    rw [hload] at h
    exact ⟨grammar, h⟩

theorem highlight_of_load_eq_error {job : HighlightJob} {fault : EngineFault}
    (h : (w.load job.language).1 = .error fault) :
    w.highlight job = (.error (.engine fault), (w.load job.language).2) := by
  have hload : w.load job.language = (.error fault, (w.load job.language).2) := Prod.ext h rfl
  unfold highlight
  rw [hload]

theorem highlight_of_load_eq_ok {job : HighlightJob} {grammar : String}
    (h : (w.load job.language).1 = .ok grammar) :
    w.highlight job =
      ((Engine.highlight (w.load job.language).2.engine job.value grammar).mapError .engine >>=
        job.finish,
      ⟨Engine.afterHighlight (w.load job.language).2.engine job.value grammar, w.tables,
        w.diffLimit⟩) := by
  have hload : w.load job.language = (.ok grammar, (w.load job.language).2) := Prod.ext h rfl
  unfold highlight
  rw [hload]
  rfl

theorem highlight_fst (job : HighlightJob) :
    (w.highlight job).1 = (w.forestOf job).mapError .engine >>= job.finish := by
  unfold forestOf
  cases hload : (w.load job.language).1 with
  | error fault =>
    rw [w.highlight_of_load_eq_error hload]
    rfl
  | ok grammar =>
    rw [w.highlight_of_load_eq_ok hload]
    rfl

theorem tokenize_of_load_eq_error {job : TokenizeJob} {fault : EngineFault}
    (h : (w.load job.language).1 = .error fault) :
    w.tokenize job = (.error (.engine fault), (w.load job.language).2) := by
  have hload : w.load job.language = (.error fault, (w.load job.language).2) := Prod.ext h rfl
  unfold tokenize
  rw [hload]

theorem tokenize_of_load_eq_ok {job : TokenizeJob} {grammar : String}
    (h : (w.load job.language).1 = .ok grammar) :
    let options : DiffOptions := ⟨job.whitespace, w.diffLimit⟩
    let engine := (w.load job.language).2.engine
    w.tokenize job = ((highlightHunks engine job.hunks grammar options).mapError .ofTokens,
      ⟨afterHunks engine job.hunks grammar options, w.tables, w.diffLimit⟩) := by
  intro options engine
  have hload : w.load job.language = (.ok grammar, (w.load job.language).2) := Prod.ext h rfl
  unfold tokenize
  rw [hload]
  rfl

/-- A highlight job is answered under its number, with its tree if it succeeds. -/
theorem handle_highlight (id : JobId) (job : HighlightJob) :
    (w.handle (.highlight id job)).1 = some (match (w.highlight job).1 with
      | .ok tree => .success id (.tree tree)
      | .error e => .failure id ⟨e.message, none⟩) := by
  unfold handle
  dsimp only
  rcases w.highlight job with ⟨_ | _, _⟩ <;> rfl

/-- So is a tokenize job, with its tokens. -/
theorem handle_tokenize (id : JobId) (job : TokenizeJob) :
    (w.handle (.tokenize id job)).1 = some (match (w.tokenize job).1 with
      | .ok tokens => .success id (.tokens true tokens)
      | .error e => .failure id ⟨e.message, some false⟩) := by
  unfold handle
  dsimp only
  rcases w.tokenize job with ⟨_ | _, _⟩ <;> rfl

theorem handle_highlight_snd (id : JobId) (job : HighlightJob) :
    (w.handle (.highlight id job)).2 = (w.highlight job).2 := by
  unfold handle
  dsimp only
  rcases w.highlight job with ⟨_ | _, _⟩ <;> rfl

theorem handle_tokenize_snd (id : JobId) (job : TokenizeJob) :
    (w.handle (.tokenize id job)).2 = (w.tokenize job).2 := by
  unfold handle
  dsimp only
  rcases w.tokenize job with ⟨_ | _, _⟩ <;> rfl

/-- A request is answered once under its number, if it has one, and else not at all. -/
theorem map_id_handle (r : Request) : (w.handle r).1.map Response.id = r.id? := by
  cases r with
  | theme t => rfl
  | highlight id job =>
    rw [handle_highlight]
    cases (w.highlight job).1 <;> rfl
  | tokenize id job =>
    rw [handle_tokenize]
    cases (w.tokenize job).1 <;> rfl

theorem handleAll_cons (r : Request) (rest : List Request) :
    w.handleAll (r :: rest) = ((w.handle r).1.toList ++ ((w.handle r).2.handleAll rest).1,
      ((w.handle r).2.handleAll rest).2) := rfl

/-- Each job gets one answer, in the order of the jobs. -/
theorem map_id_handleAll (requests : List Request) :
    (w.handleAll requests).1.map Response.id = requests.filterMap Request.id? := by
  induction requests generalizing w with
  | nil => rfl
  | cons r rest ih =>
    have hid := w.map_id_handle r
    rw [handleAll_cons, List.map_append, ih]
    cases hanswer : (w.handle r).1 with
    | none =>
      rw [hanswer] at hid
      rw [List.filterMap_cons_none hid.symm]
      rfl
    | some answer =>
      rw [hanswer] at hid
      rw [List.filterMap_cons_some hid.symm]
      rfl

/-- Handling goes on where it stopped. -/
theorem handleAll_append (before after : List Request) :
    w.handleAll (before ++ after) =
      ((w.handleAll before).1 ++ ((w.handleAll before).2.handleAll after).1,
        ((w.handleAll before).2.handleAll after).2) := by
  induction before generalizing w with
  | nil => rfl
  | cons r rest ih =>
    rw [List.cons_append, handleAll_cons, handleAll_cons, ih]
    simp

/-- A property of workers that every request keeps is kept by any number of them. -/
theorem handleAll_induction {P : Worker σ → Prop} (start : P w)
    (step : ∀ (v : Worker σ) (r : Request), P v → P (v.handle r).2) (requests : List Request) :
    P (w.handleAll requests).2 := by
  induction requests generalizing w with
  | nil => exact start
  | cons r rest ih =>
    rw [handleAll_cons]
    exact ih _ (step w r start)

end Worker

end Highlighting
