import Highlighting.Grammar.Span
import Highlighting.Proofs.Sorting

/-! The order of the spans that a list of captures gives. They stand by start and, from one start,
the longest first; each range stands once, for the first capture that has it. -/

namespace Highlighting

/-- A capture gives a span: its name has classes, it is not empty and it cuts no character. -/
def Capture.Highlights (text : List Char) (c : Capture) : Prop :=
  (tokenClasses? c.name).isSome ∧ c.start < c.stop ∧ Text.isBoundary text c.start ∧
    Text.isBoundary text c.stop

instance (text : List Char) (c : Capture) : Decidable (c.Highlights text) := by
  unfold Capture.Highlights
  infer_instance

namespace Span

theorem ofCapture?_eq_some_iff {theme : Theme} {text : List Char} {c : Capture} {s : Span} :
    ofCapture? theme text c = some s ↔ c.Highlights text ∧
      ∃ classes, tokenClasses? c.name = some classes ∧
        s = ⟨c.start, c.stop, theme.apply classes⟩ := by
  unfold ofCapture? Capture.Highlights
  cases hc : tokenClasses? c.name with
  | none => simp
  | some classes =>
    simp only [Option.bind_eq_bind, Option.bind_some, Option.isSome_some, true_and,
      Option.some.injEq, exists_eq_left']
    split
    · next h => simp [h, eq_comm]
    · next h => simp [h]

/-- One span stands before another: it starts earlier, or at the same place and is longer. -/
def Precedes (a b : Span) : Prop := a.start < b.start ∨ (a.start = b.start ∧ b.stop < a.stop)

/-- The spans have the same range. -/
def sameRange (a b : Span) : Bool := a.start == b.start && a.stop == b.stop

theorem sameRange_iff {a b : Span} :
    sameRange a b = true ↔ a.start = b.start ∧ a.stop = b.stop := by
  simp [sameRange]

theorem before_iff {a b : Span} :
    before a b = true ↔ a.start < b.start ∨ (a.start = b.start ∧ b.stop ≤ a.stop) := by
  simp [before]

theorem before_trans (a b c : Span) (hab : before a b = true) (hbc : before b c = true) :
    before a c = true := by
  rw [before_iff] at *
  omega

theorem before_total (a b : Span) : (before a b || before b a) = true := by
  rw [Bool.or_eq_true, before_iff, before_iff]
  omega

theorem before_of_sameRange {s a b : Span} (ha : sameRange s a = true) (hb : sameRange s b = true) :
    before a b = true := by
  rw [sameRange_iff] at ha hb
  rw [before_iff]
  omega

/-- The sort leaves spans of one range in the order in which they came. -/
theorem filter_mergeSort (s : Span) (spans : List Span) :
    (spans.mergeSort before).filter (sameRange s) = spans.filter (sameRange s) :=
  filter_mergeSort_of_tied before_trans before_total (fun _ _ => before_of_sameRange) spans

theorem find?_mergeSort (s : Span) (spans : List Span) :
    (spans.mergeSort before).find? (sameRange s) = spans.find? (sameRange s) := by
  rw [← List.head?_filter, ← List.head?_filter, filter_mergeSort]

/-! ### One span for each range -/

theorem mem_of_mem_dropRepeated {s : Span} {spans : List Span} (h : s ∈ dropRepeated spans) :
    s ∈ spans := by
  fun_induction dropRepeated spans with
  | case1 => exact h
  | case2 => exact h
  | case3 a b rest same ih =>
    rcases List.mem_cons.mp (ih h) with rfl | hs
    · exact List.mem_cons_self
    · exact List.mem_cons_of_mem _ (List.mem_cons_of_mem _ hs)
  | case4 a b rest differ ih =>
    rcases List.mem_cons.mp h with rfl | hs
    · exact List.mem_cons_self
    · exact List.mem_cons_of_mem _ (ih hs)

/-- What follows a neighbour of another range follows strictly. -/
theorem precedes_of_before {a b c : Span} {rest : List Span}
    (sorted : (a :: b :: rest).Pairwise (fun x y => before x y = true))
    (differ : ¬ (a.start = b.start ∧ a.stop = b.stop)) (hc : c ∈ b :: rest) : a.Precedes c := by
  obtain ⟨ha, hb⟩ := List.pairwise_cons.mp sorted
  have hab := before_iff.mp (ha b List.mem_cons_self)
  have hbc : c = b ∨ before b c = true :=
    (List.mem_cons.mp hc).imp_right fun h => (List.pairwise_cons.mp hb).1 c h
  unfold Precedes
  rcases hbc with rfl | hbc
  · omega
  · rw [before_iff] at hbc
    omega

theorem pairwise_dropRepeated {spans : List Span}
    (sorted : spans.Pairwise (fun a b => before a b = true)) :
    (dropRepeated spans).Pairwise Precedes := by
  fun_induction dropRepeated spans with
  | case1 => exact .nil
  | case2 => exact List.pairwise_singleton _ _
  | case3 a b rest same ih =>
    exact ih (sorted.sublist (.cons_cons a (List.sublist_cons_self b rest)))
  | case4 a b rest differ ih =>
    refine List.pairwise_cons.mpr ⟨fun c hc => ?_, ih (List.pairwise_cons.mp sorted).2⟩
    exact precedes_of_before sorted differ (mem_of_mem_dropRepeated hc)

/-- Of sorted spans those are left that are the first of their range. -/
theorem mem_dropRepeated_iff {s : Span} {spans : List Span}
    (sorted : spans.Pairwise (fun a b => before a b = true)) :
    s ∈ dropRepeated spans ↔ spans.find? (sameRange s) = some s := by
  have self : sameRange s s = true := by simp [sameRange]
  fun_induction dropRepeated spans with
  | case1 => simp
  | case2 a =>
    by_cases h : sameRange s a = true
    · simp [List.find?_cons_of_pos h, eq_comm]
    · have hne : s ≠ a := by rintro rfl; exact h self
      simp [List.find?_cons_of_neg h, hne]
  | case3 a b rest same ih =>
    have hih : s ∈ dropRepeated (a :: rest) ↔ (a :: rest).find? (sameRange s) = some s :=
      ih (sorted.sublist (.cons_cons a (List.sublist_cons_self b rest)))
    rw [hih]
    by_cases h : sameRange s a = true
    · rw [List.find?_cons_of_pos h, List.find?_cons_of_pos h]
    · have hb : ¬ sameRange s b = true := by
        rw [sameRange_iff] at h ⊢
        omega
      rw [List.find?_cons_of_neg h, List.find?_cons_of_neg h, List.find?_cons_of_neg hb]
  | case4 a b rest differ ih =>
    have hih : s ∈ dropRepeated (b :: rest) ↔ (b :: rest).find? (sameRange s) = some s :=
      ih (List.pairwise_cons.mp sorted).2
    rw [List.mem_cons, hih]
    by_cases h : sameRange s a = true
    · -- Behind a neighbour of another range nothing has the range of `a` again.
      have hrest : (b :: rest).find? (sameRange s) ≠ some s := by
        intro hfound
        have hprec := precedes_of_before sorted differ (List.mem_of_find?_eq_some hfound)
        rw [sameRange_iff] at h
        unfold Precedes at hprec
        omega
      rw [List.find?_cons_of_pos h]
      simp only [hrest, or_false, Option.some.injEq]
      exact eq_comm
    · have hne : s ≠ a := by rintro rfl; exact h self
      rw [List.find?_cons_of_neg h]
      simp [hne]

/-! ### The spans of captures -/

theorem sorted_mergeSort (spans : List Span) :
    (spans.mergeSort before).Pairwise (fun a b => before a b = true) :=
  List.pairwise_mergeSort before_trans before_total spans

theorem pairwise_ofCaptures (theme : Theme) (text : List Char) (captures : List Capture) :
    (ofCaptures theme text captures).Pairwise Precedes :=
  pairwise_dropRepeated (sorted_mergeSort _)

/-- A range has the classes of the first capture that gives it a span. -/
theorem mem_ofCaptures_iff {theme : Theme} {text : List Char} {captures : List Capture} {s : Span} :
    s ∈ ofCaptures theme text captures ↔ ∃ c classes,
      captures.find? (fun c => decide (c.Highlights text ∧ c.start = s.start ∧ c.stop = s.stop)) =
        some c ∧
      tokenClasses? c.name = some classes ∧ s = ⟨c.start, c.stop, theme.apply classes⟩ := by
  have range : ∀ c, (ofCapture? theme text c).any (sameRange s) =
      decide (c.Highlights text ∧ c.start = s.start ∧ c.stop = s.stop) := by
    intro c
    rw [Bool.eq_iff_iff, Option.any_eq_true, decide_eq_true_iff]
    constructor
    · rintro ⟨t, ht, hrange⟩
      obtain ⟨hhigh, classes, -, rfl⟩ := ofCapture?_eq_some_iff.mp ht
      rw [sameRange_iff] at hrange
      exact ⟨hhigh, hrange.1.symm, hrange.2.symm⟩
    · rintro ⟨hhigh, hstart, hstop⟩
      obtain ⟨classes, hclasses⟩ := Option.isSome_iff_exists.mp hhigh.1
      exact ⟨_, ofCapture?_eq_some_iff.mpr ⟨hhigh, classes, hclasses, rfl⟩,
        sameRange_iff.mpr ⟨hstart.symm, hstop.symm⟩⟩
  unfold ofCaptures
  rw [mem_dropRepeated_iff (sorted_mergeSort _), find?_mergeSort, List.find?_filterMap]
  simp only [range, Option.bind_eq_some_iff]
  constructor
  · rintro ⟨c, hc, hspan⟩
    obtain ⟨-, classes, hclasses, hs⟩ := ofCapture?_eq_some_iff.mp hspan
    exact ⟨c, classes, hc, hclasses, hs⟩
  · rintro ⟨c, classes, hc, hclasses, hs⟩
    have found := List.find?_some hc
    have hhigh := (of_decide_eq_true found).1
    exact ⟨c, hc, ofCapture?_eq_some_iff.mpr ⟨hhigh, classes, hclasses, hs⟩⟩

/-- The span of a capture lies between boundaries of the text. -/
theorem bounds_of_mem_ofCaptures {theme : Theme} {text : List Char} {captures : List Capture}
    {s : Span} (h : s ∈ ofCaptures theme text captures) :
    s.start < s.stop ∧ Text.isBoundary text s.start ∧ Text.isBoundary text s.stop := by
  obtain ⟨c, classes, hc, -, rfl⟩ := mem_ofCaptures_iff.mp h
  have found := List.find?_some hc
  exact (of_decide_eq_true found).1.2

end Span

end Highlighting
