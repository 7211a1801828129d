import Mathlib
import Highlighting.Proofs.Content.Answers

/-! What the node limit of a job decides: whether the job is answered with its tree, and never which
tree that is. The limit is looked at twice. Grouping by lines holds it against the texts of the
engine's forest, and the end of the job against the texts and marks of the tree. -/

namespace Highlighting

namespace HighlightJob

variable {job : HighlightJob} {f : Forest} {limit : Nat}

def withLimit (job : HighlightJob) (limit : Option UInt64) : HighlightJob :=
  { job with nodeLimit := limit }

theorem limit?_withLimit (job : HighlightJob) {limit : UInt64} (h : 0 < limit) :
    (job.withLimit (some limit)).limit? = some limit.toNat := by
  simp [limit?, withLimit, Option.filter, h]

/-- An engine's forest as a job wants it, in lines or as it is. -/
def lined (job : HighlightJob) (f : Forest) : Forest :=
  if job.groupByLine then numberLines 1 (keptLines (f.pieces [])) else f

/-- The tree that a job makes of an engine's forest when nothing limits it. -/
def finished (job : HighlightJob) (f : Forest) : Forest :=
  (job.lined f).mark (job.markedTexts.getD [])

/-- A limit admits the texts that are grouped by lines, and the texts and marks of the tree. -/
def FitsIn (job : HighlightJob) (f : Forest) (limit : Nat) : Prop :=
  (job.finished f).cost ≤ limit ∧ (job.groupByLine = false ∨ f.leafCount ≤ limit)

theorem FitsIn.mono {limit' : Nat} (h : job.FitsIn f limit) (hle : limit ≤ limit') :
    job.FitsIn f limit' :=
  ⟨h.1.trans hle, h.2.imp_right (·.trans hle)⟩

theorem finish_of_limit?_eq_none (h : job.limit? = none) : job.finish f = .ok (job.finished f) := by
  unfold finish finished lined
  rw [h, Forest.groupByLines_none]
  cases job.groupByLine <;> rfl

/-- A job under a limit finishes as it does without one, or not at all. -/
theorem finish_of_limit?_eq_some (h : job.limit? = some limit) : job.finish f =
    if job.groupByLine ∧ limit < f.leafCount then .error (.tooManyPieces ⟨limit, limit + 1⟩)
    else if limit < (job.finished f).cost then .error (.tooManyNodes limit (job.finished f).cost)
    else .ok (job.finished f) := by
  unfold finish finished lined
  rw [h, Forest.groupByLines_some]
  cases job.groupByLine with
  | false => simp only [Bool.false_eq_true, false_and, if_false]; rfl
  | true =>
    by_cases hlt : limit < f.leafCount
    · simp only [if_true, hlt, and_self, if_neg hlt.not_ge]
      rfl
    · simp only [if_true, hlt, and_false, if_false, if_pos (not_lt.mp hlt)]
      rfl

theorem finish_of_fitsIn (h : job.limit? = some limit) (hfits : job.FitsIn f limit) :
    job.finish f = .ok (job.finished f) := by
  obtain ⟨hcost, hpieces⟩ := hfits
  have hpieces' : ¬ (job.groupByLine ∧ limit < f.leafCount) := by
    rintro ⟨hgroup, hlt⟩
    rcases hpieces with hflat | hle
    · rw [hgroup] at hflat
      cases hflat
    · exact hlt.not_ge hle
  rw [finish_of_limit?_eq_some h, if_neg hpieces', if_neg hcost.not_gt]

theorem finish_of_not_fitsIn (h : job.limit? = some limit) (hfits : ¬ job.FitsIn f limit) :
    job.finish f = .error (if job.groupByLine ∧ limit < f.leafCount then
      .tooManyPieces ⟨limit, limit + 1⟩ else .tooManyNodes limit (job.finished f).cost) := by
  rw [finish_of_limit?_eq_some h]
  split
  · rfl
  · next hpieces =>
    rw [if_pos]
    by_contra hcost
    refine hfits ⟨not_lt.mp hcost, ?_⟩
    cases hgroup : job.groupByLine with
    | false => exact .inl rfl
    | true => exact .inr (not_lt.mp fun hlt => hpieces ⟨hgroup, hlt⟩)

end HighlightJob

namespace Worker

variable {σ : Type} [Engine σ]

section Answers

variable {w : Worker σ} {job : HighlightJob} {f : Forest} (id : JobId)

theorem handle_highlight_of_fault {fault : EngineFault} (h : w.forestOf job = .error fault) :
    (w.handle (.highlight id job)).1 = some (.failure id ⟨fault.message, none⟩) := by
  rw [handle_highlight, highlight_fst, h]
  rfl

theorem handle_highlight_of_forest (h : w.forestOf job = .ok f) :
    (w.handle (.highlight id job)).1 = some (match job.finish f with
      | .ok tree => .success id (.tree tree)
      | .error e => .failure id ⟨e.message, none⟩) := by
  rw [handle_highlight, highlight_fst, h]
  rfl

theorem handle_highlight_of_limit?_eq_none (h : w.forestOf job = .ok f)
    (hlimit : job.limit? = none) :
    (w.handle (.highlight id job)).1 = some (.success id (.tree (job.finished f))) := by
  rw [handle_highlight_of_forest id h, HighlightJob.finish_of_limit?_eq_none hlimit]

theorem handle_highlight_of_fitsIn {limit : Nat} (h : w.forestOf job = .ok f)
    (hlimit : job.limit? = some limit) (hfits : job.FitsIn f limit) :
    (w.handle (.highlight id job)).1 = some (.success id (.tree (job.finished f))) := by
  rw [handle_highlight_of_forest id h, HighlightJob.finish_of_fitsIn hlimit hfits]

theorem handle_highlight_of_not_fitsIn {limit : Nat} (h : w.forestOf job = .ok f)
    (hlimit : job.limit? = some limit) (hfits : ¬ job.FitsIn f limit) :
    (w.handle (.highlight id job)).1 = some (.failure id
      ⟨if job.groupByLine ∧ limit < f.leafCount then "node limit of " ++ toString limit ++
        " reached. Flattened " ++ toString (limit + 1) ++ " nodes so far."
      else "node limit of " ++ toString limit ++ " reached. Total nodes " ++
        toString (job.finished f).cost ++ ".", none⟩) := by
  rw [handle_highlight_of_forest id h, HighlightJob.finish_of_not_fitsIn hlimit hfits]
  dsimp only
  split <;> rfl

end Answers

/-- A node limit withholds the tree of a job or leaves it as it is. A job that fails without a limit
fails the same way under each limit. Else it is answered with the same tree as without a limit if
the limit admits the texts and marks of the tree and, where it is grouped by lines, the texts of the
engine's forest; otherwise the answer says which of them are too many. A limit of zero is none. -/
theorem limit_withholds (w : Worker σ) (id : JobId) (job : HighlightJob) :
    let answer (limit : Option UInt64) := (w.handle (.highlight id (job.withLimit limit))).1
    answer (some 0) = answer none ∧
      (match w.forestOf job with
      | .error fault => ∀ limit, answer limit = some (.failure id ⟨fault.message, none⟩)
      | .ok f => ∃ tree, answer none = some (.success id (.tree tree)) ∧ ∀ limit, 0 < limit →
          let fits := tree.cost ≤ limit.toNat ∧
            (job.groupByLine = false ∨ f.leafCount ≤ limit.toNat)
          (answer (some limit) = answer none ↔ fits) ∧
            (¬ fits → answer (some limit) = some (.failure id
              ⟨if job.groupByLine ∧ limit.toNat < f.leafCount then
                "node limit of " ++ toString limit.toNat ++ " reached. Flattened " ++
                  toString (limit.toNat + 1) ++ " nodes so far."
              else "node limit of " ++ toString limit.toNat ++ " reached. Total nodes " ++
                toString tree.cost ++ ".", none⟩))) ∧
      ∀ limit limit' tree, 0 < limit → limit ≤ limit' →
        answer (some limit) = some (.success id (.tree tree)) →
          answer (some limit') = some (.success id (.tree tree)) := by
  intro answer
  cases hforest : w.forestOf job with
  | error fault =>
    have hfails (limit : Option UInt64) :
        answer limit = some (.failure id ⟨fault.message, none⟩) :=
      handle_highlight_of_fault id hforest
    refine ⟨(hfails _).trans (hfails _).symm, hfails, fun limit limit' tree _ _ hanswer => ?_⟩
    cases (hfails _).symm.trans hanswer
  | ok f =>
    have hsame (limit : Option UInt64) : w.forestOf (job.withLimit limit) = .ok f := hforest
    have hfree : answer none = some (.success id (.tree (job.finished f))) :=
      handle_highlight_of_limit?_eq_none id (hsame none) rfl
    have hzero : answer (some 0) = some (.success id (.tree (job.finished f))) :=
      handle_highlight_of_limit?_eq_none id (hsame (some 0)) rfl
    have hfits {limit : UInt64} (hpos : 0 < limit) (h : job.FitsIn f limit.toNat) :
        answer (some limit) = some (.success id (.tree (job.finished f))) :=
      handle_highlight_of_fitsIn id (hsame (some limit)) (job.limit?_withLimit hpos) h
    have hover {limit : UInt64} (hpos : 0 < limit) (h : ¬ job.FitsIn f limit.toNat) :=
      handle_highlight_of_not_fitsIn id (hsame (some limit)) (job.limit?_withLimit hpos) h
    have hadmitted {limit : UInt64} {tree : Forest} (hpos : 0 < limit)
        (hanswer : answer (some limit) = some (.success id (.tree tree))) :
        job.FitsIn f limit.toNat := by
      by_contra hnot
      cases (hover hpos hnot).symm.trans hanswer
    refine ⟨hzero.trans hfree.symm, ⟨job.finished f, hfree, fun limit hpos => ⟨⟨?_, ?_⟩, ?_⟩⟩, ?_⟩
    · exact fun h => hadmitted hpos (h.trans hfree)
    · exact fun h => (hfits hpos h).trans hfree.symm
    · exact hover hpos
    · intro limit limit' tree hpos hle hanswer
      have h := hadmitted hpos hanswer
      have hpos' : 0 < limit' := UInt64.lt_of_lt_of_le hpos hle
      rw [hfits hpos' (h.mono (UInt64.le_iff_toNat_le.mp hle)), ← hfits hpos h, hanswer]

/-- Two texts are grouped by lines into a tree with a mark: a limit of one fails the first check, a
limit of two the second, and a limit of three neither. -/
theorem limit_withholds_crossing :
    let w : Worker CaptureEngine := ⟨⟨crossingSource, ["c"], .empty⟩, .empty, 600⟩
    let job : HighlightJob := ⟨"é\nb", "c", none, true, some ["b"]⟩
    let answer (limit : Option UInt64) := (w.handle (.highlight 7 (job.withLimit limit))).1
    (∃ tree, answer none = some (.success 7 (.tree tree)) ∧ tree.cost = 3) ∧
      answer (some 3) = answer none ∧
      answer (some 2) = some (.failure 7 ⟨"node limit of 2 reached. Total nodes 3.", none⟩) ∧
      answer (some 1) =
        some (.failure 7 ⟨"node limit of 1 reached. Flattened 2 nodes so far.", none⟩) := by
  intro w job answer
  have hforest : w.forestOf job = .ok [.span ["token", "tag"] [.text "é\n"], .text "b"] := by cbv
  obtain ⟨-, hanswers, -⟩ := limit_withholds w 7 job
  rw [hforest] at hanswers
  obtain ⟨tree, hfree, hlimited⟩ := hanswers
  have hmarked : (w.handle (.highlight 7 (job.withLimit none))).1 = some (.success 7 (.tree
      [.line 1 [.span ["token", "tag"] [.text "é\n"]], .line 2 [.mark "b"]])) := by cbv
  cases hmarked.symm.trans hfree
  refine ⟨⟨_, hfree, by decide⟩, ?_, ?_, ?_⟩
  · exact (hlimited 3 (by decide)).1.mpr (by decide)
  · exact (hlimited 2 (by decide)).2 (by decide)
  · exact (hlimited 1 (by decide)).2 (by decide)

end Worker

end Highlighting
