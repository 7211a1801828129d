import Mathlib
import Highlighting.Grammar.Captured
import Highlighting.Proofs.Content.Lines
import Highlighting.Proofs.Content.Marks
import Highlighting.Proofs.Worker.Handling

/-! No character of a highlighted text is lost, doubled or moved: the tree that answers a job joins
to the text of the job, under every option and after any other requests. -/

namespace Highlighting

/-- The trees of an engine join to the texts they highlight. -/
structure KeepsText (σ : Type) [Engine σ] : Prop where
  content_highlight : ∀ {s : σ} {text grammar : String} {f : Forest},
    Engine.highlight s text grammar = .ok f → f.content = text

/-- Whatever the grammars capture, the text is kept. -/
theorem CaptureEngine.keepsText : KeepsText CaptureEngine where
  content_highlight {s text grammar f} h := by
    change s.highlight text grammar = .ok f at h
    unfold CaptureEngine.highlight at h
    split at h
    · obtain rfl := Except.ok.inj h
      exact Forest.content_plain text
    · split at h
      · obtain rfl := Except.ok.inj h
        simp [highlightCaptures, Span.content_nest]
      · cases h

theorem withinLimit_eq_ok {limit : Option Nat} {f g : Forest} (h : withinLimit limit f = .ok g) :
    g = f := by
  unfold withinLimit at h
  split at h
  · split at h
    · cases h
    · exact (Except.ok.inj h).symm
  · exact (Except.ok.inj h).symm

namespace HighlightJob

/-- What a job makes of the tree of an engine has the text of that tree. -/
theorem content_finish {job : HighlightJob} {f g : Forest} (h : job.finish f = .ok g) :
    g.content = f.content := by
  have marked : ∀ lines : Forest,
      withinLimit job.limit? (lines.mark (job.markedTexts.getD [])) = .ok g →
        g.content = lines.content := by
    intro lines hlines
    rw [withinLimit_eq_ok hlines, Forest.content_mark]
  unfold finish at h
  split at h
  · cases hlines : f.groupByLines job.limit? with
    | error e => simp [hlines, Except.mapError, bind, Except.bind] at h
    | ok lines =>
      rw [marked lines (by simpa [hlines, Except.mapError, bind, Except.bind] using h),
        Forest.content_groupByLines hlines]
  · exact marked f h

end HighlightJob

namespace Worker

variable {σ : Type} [Engine σ]

theorem content_highlight (keeps : KeepsText σ) {w : Worker σ} {job : HighlightJob} {f : Forest}
    (h : (w.highlight job).1 = .ok f) : f.content = job.value := by
  rw [highlight_fst] at h
  cases hforest : w.forestOf job with
  | error e => simp [hforest, Except.mapError, bind, Except.bind] at h
  | ok g =>
    have hfinish : job.finish g = .ok f := by
      simpa [hforest, Except.mapError, bind, Except.bind] using h
    obtain ⟨grammar, hgrammar⟩ := exists_of_forestOf hforest
    rw [HighlightJob.content_finish hfinish, keeps.content_highlight hgrammar]

/-- A highlight job is answered, and where it succeeds the tree joins to its text. This holds in
every state that a worker gets into by handling requests, under every combination of options, for
the engine of captures, whatever they are, and for every engine that keeps texts itself. -/
theorem content_of_answer :
    KeepsText CaptureEngine ∧
      ∀ (σ : Type) [Engine σ], KeepsText σ →
        ∀ (w : Worker σ) (history : List Request) (id : JobId) (job : HighlightJob),
          ∃ r, ((w.handleAll history).2.handle (.highlight id job)).1 = some r ∧ r.id = id ∧
            (r.isSuccess → ∃ tree, r = .success id (.tree tree) ∧ tree.content = job.value) := by
  refine ⟨CaptureEngine.keepsText, fun σ _ keeps w history id job => ?_⟩
  refine ⟨_, handle_highlight _ id job, ?_⟩
  cases h : ((w.handleAll history).2.highlight job).1 with
  | error e => exact ⟨rfl, fun hs => by cases hs⟩
  | ok tree => exact ⟨rfl, fun _ => ⟨tree, rfl, content_highlight keeps h⟩⟩

/-- Two captures that cross, over a text of two lines with a character of two bytes. -/
def crossingSource : CaptureSource where
  captures _ _ := [⟨"tag", 0, 3⟩, ⟨"tag", 2, 4⟩]
  queryError? _ := none

/-- A job that is grouped by lines, marked and within its limit, after a theme. -/
theorem content_of_answer_crossing :
    let w : Worker CaptureEngine := ⟨⟨crossingSource, ["c"], .empty⟩, .empty, 600⟩
    let history : List Request := [.theme .empty]
    let job : HighlightJob := ⟨"é\nb", "c", some 100, true, some ["b"]⟩
    KeepsText CaptureEngine ∧ ∃ tree,
      ((w.handleAll history).2.handle (.highlight 7 job)).1 = some (.success 7 (.tree tree)) ∧
        tree.content = "é\nb" := by
  intro w history job
  have succeeds :
      ((w.handleAll history).2.handle (.highlight 7 job)).1.map Response.isSuccess = some true := by
    cbv
  obtain ⟨r, hr, -, answer⟩ := content_of_answer.2 _ content_of_answer.1 w history 7 job
  obtain ⟨tree, rfl, content⟩ := answer (by simpa [hr] using succeeds)
  exact ⟨content_of_answer.1, tree, hr, content⟩

end Worker

end Highlighting
