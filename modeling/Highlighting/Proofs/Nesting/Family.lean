import Highlighting.Proofs.Nesting.Order
import Mathlib.Data.List.TakeWhile

/-! Which spans nesting keeps. One rule names them: of spans in order, a span is kept unless it
crosses the end of a span that is kept already. The recursion that nests meets exactly these spans,
in this order, and puts each into the innermost one around it. -/

namespace Highlighting.Span

/-- A span crosses the end of another: it starts inside it and ends behind it. -/
def Crosses (s t : Span) : Prop := t.start ≤ s.start ∧ s.start < t.stop ∧ t.stop < s.stop

instance (s t : Span) : Decidable (s.Crosses t) := by
  unfold Crosses
  infer_instance

/-- A span is kept if it crosses the end of none that is kept already. -/
def keep (kept : List Span) (s : Span) : List Span :=
  if ∀ t ∈ kept, ¬ s.Crosses t then kept ++ [s] else kept

/-- The spans that are kept of spans in order. -/
def greedy (spans : List Span) : List Span := spans.foldl keep []

/-- The bytes of one span are all in another. -/
def Encloses (t s : Span) : Prop := t.start ≤ s.start ∧ s.stop ≤ t.stop

/-- The innermost of some spans around one of them; `none` if there is no other around it. -/
def Innermost (kept : List Span) (s : Span) : Option Span → Prop
  | none => ∀ u ∈ kept, u.Encloses s → u = s
  | some t => t ∈ kept ∧ t ≠ s ∧ t.Encloses s ∧ ∀ u ∈ kept, u ≠ s → u.Encloses s → u.Encloses t

/-- The spans that nesting meets, in the order in which it does, each with the span around it. -/
def family (around : Option Span) : List Span → List (Span × Option Span)
  | [] => []
  | s :: rest =>
    (s, around) :: (family (some s) (s.inside rest) ++ family around (s.behind rest))
termination_by spans => spans.length
decreasing_by
  · exact Nat.lt_succ_of_le (length_inside_le s rest)
  · exact Nat.lt_succ_of_le (length_behind_le s rest)

/-- The spans that nesting meets. -/
def preorder : List Span → List Span
  | [] => []
  | s :: rest => s :: (preorder (s.inside rest) ++ preorder (s.behind rest))
termination_by spans => spans.length
decreasing_by
  · exact Nat.lt_succ_of_le (length_inside_le s rest)
  · exact Nat.lt_succ_of_le (length_behind_le s rest)

theorem map_fst_family (around : Option Span) (spans : List Span) :
    (family around spans).map Prod.fst = preorder spans := by
  fun_induction family around spans with
  | case1 => simp [preorder]
  | case2 around s rest ihinside ihbehind =>
    unfold preorder
    simp [ihinside, ihbehind]

/-- Spans in order, none of them empty. -/
structure Ordered (spans : List Span) : Prop where
  sorted : spans.Pairwise Precedes
  proper : ∀ s ∈ spans, s.start < s.stop

theorem Ordered.sublist {spans more : List Span} (h : Ordered more) (hs : spans.Sublist more) :
    Ordered spans := ⟨h.sorted.sublist hs, fun s hmem => h.proper s (hs.subset hmem)⟩

theorem Ordered.tail {s : Span} {rest : List Span} (h : Ordered (s :: rest)) : Ordered rest :=
  h.sublist (List.sublist_cons_self s rest)

theorem Ordered.head {s t : Span} {rest : List Span} (h : Ordered (s :: rest)) (ht : t ∈ rest) :
    s.Precedes t := (List.pairwise_cons.mp h.sorted).1 t ht

theorem ordered_ofCaptures (theme : Theme) (text : List Char) (captures : List Capture) :
    Ordered (ofCaptures theme text captures) :=
  ⟨pairwise_ofCaptures theme text captures, fun _ h => (bounds_of_mem_ofCaptures h).1⟩

theorem not_precedes_self (s : Span) : ¬ s.Precedes s := by
  unfold Precedes
  omega

/-! ### The spans inside and behind a span -/

theorem inside_sublist (s : Span) (rest : List Span) : (s.inside rest).Sublist rest :=
  List.filter_sublist.trans (List.takeWhile_sublist _)

theorem behind_sublist (s : Span) (rest : List Span) : (s.behind rest).Sublist rest :=
  List.dropWhile_sublist _

theorem Ordered.inside {s : Span} {rest : List Span} (h : Ordered (s :: rest)) :
    Ordered (s.inside rest) := h.tail.sublist (inside_sublist s rest)

theorem Ordered.behind {s : Span} {rest : List Span} (h : Ordered (s :: rest)) :
    Ordered (s.behind rest) := h.tail.sublist (behind_sublist s rest)

section Filters

variable {spans : List Span} (ordered : Ordered spans)
include ordered

theorem takeWhile_start_lt (n : Nat) :
    spans.takeWhile (fun t => decide (t.start < n)) =
      spans.filter fun t => decide (t.start < n) := by
  induction spans with
  | nil => rfl
  | cons u rest ih =>
    by_cases hu : u.start < n
    · rw [List.takeWhile_cons_of_pos (by simpa using hu),
        List.filter_cons_of_pos (by simpa using hu), ih ordered.tail]
    · rw [List.takeWhile_cons_of_neg (by simpa using hu),
        List.filter_cons_of_neg (by simpa using hu)]
      symm
      rw [List.filter_eq_nil_iff]
      intro t ht
      have hprec := ordered.head ht
      unfold Precedes at hprec
      rw [decide_eq_true_iff]
      omega

theorem dropWhile_start_lt (n : Nat) :
    spans.dropWhile (fun t => decide (t.start < n)) =
      spans.filter fun t => decide (n ≤ t.start) := by
  induction spans with
  | nil => rfl
  | cons u rest ih =>
    by_cases hu : u.start < n
    · rw [List.dropWhile_cons_of_pos (by simpa using hu),
        List.filter_cons_of_neg (by simpa using hu), ih ordered.tail]
    · rw [List.dropWhile_cons_of_neg (by simpa using hu)]
      symm
      rw [List.filter_eq_self]
      intro t ht
      have hle : u.start ≤ t.start := by
        rcases List.mem_cons.mp ht with rfl | ht
        · exact Nat.le_refl _
        · have hprec := ordered.head ht
          unfold Precedes at hprec
          omega
      rw [decide_eq_true_iff]
      omega

theorem inside_eq_filter (s : Span) : s.inside spans =
    spans.filter fun t => decide (t.stop ≤ s.stop ∧ t.start < s.stop) := by
  unfold inside
  rw [takeWhile_start_lt ordered, List.filter_filter]
  simp only [Bool.decide_and]

theorem behind_eq_filter (s : Span) :
    s.behind spans = spans.filter fun t => decide (s.stop ≤ t.start) :=
  dropWhile_start_lt ordered s.stop

/-- Inside a span that ends in another it is the same to look in all spans or in those inside the
other. -/
theorem inside_inside {s f : Span} (h : s.stop ≤ f.stop) :
    s.inside (f.inside spans) = s.inside spans := by
  have inner : Ordered (f.inside spans) := ordered.sublist (inside_sublist f spans)
  rw [inside_eq_filter inner, inside_eq_filter ordered f, inside_eq_filter ordered s,
    List.filter_filter]
  refine List.filter_congr fun t _ => ?_
  rw [← Bool.decide_and, decide_eq_decide]
  omega

theorem behind_inside (s f : Span) : s.behind (f.inside spans) = f.inside (s.behind spans) := by
  have inner : Ordered (f.inside spans) := ordered.sublist (inside_sublist f spans)
  have later : Ordered (s.behind spans) := ordered.sublist (behind_sublist s spans)
  rw [behind_eq_filter inner, inside_eq_filter ordered, inside_eq_filter later,
    behind_eq_filter ordered, List.filter_filter, List.filter_filter]
  refine List.filter_congr fun t _ => ?_
  rw [Bool.and_comm]

theorem behind_behind {s f : Span} (h : s.stop ≤ f.stop) :
    f.behind (s.behind spans) = f.behind spans := by
  have later : Ordered (s.behind spans) := ordered.sublist (behind_sublist s spans)
  rw [behind_eq_filter later, behind_eq_filter ordered s, behind_eq_filter ordered f,
    List.filter_filter]
  refine List.filter_congr fun t _ => ?_
  rw [← Bool.decide_and, decide_eq_decide]
  omega

end Filters

theorem encloses_of_mem_inside {s t : Span} {rest : List Span} (h : Ordered (s :: rest))
    (ht : t ∈ s.inside rest) : s.Encloses t ∧ t.start < s.stop := by
  have hprec := h.head ((inside_sublist s rest).subset ht)
  rw [inside_eq_filter h.tail] at ht
  have hin := of_decide_eq_true (List.mem_filter.mp ht).2
  unfold Precedes at hprec
  unfold Encloses
  omega

theorem stop_le_of_mem_behind {s t : Span} {rest : List Span} (h : Ordered rest)
    (ht : t ∈ s.behind rest) : s.stop ≤ t.start := by
  rw [behind_eq_filter h] at ht
  exact of_decide_eq_true (List.mem_filter.mp ht).2

theorem inside_append {s : Span} {rest later : List Span} (h : ∀ t ∈ later, s.stop ≤ t.start) :
    s.inside (rest ++ later) = s.inside rest := by
  have none : later.takeWhile (fun t => decide (t.start < s.stop)) = [] := by
    cases later with
    | nil => rfl
    | cons t later =>
      have ht := h t List.mem_cons_self
      exact List.takeWhile_cons_of_neg (by simpa using ht)
  unfold inside
  rw [List.takeWhile_append]
  split
  · next hall => rw [none, List.append_nil, (List.takeWhile_sublist _).eq_of_length hall]
  · rfl

theorem behind_append {s : Span} {rest later : List Span} (h : ∀ t ∈ later, s.stop ≤ t.start) :
    s.behind (rest ++ later) = s.behind rest ++ later := by
  have all : later.dropWhile (fun t => decide (t.start < s.stop)) = later := by
    cases later with
    | nil => rfl
    | cons t later =>
      have ht := h t List.mem_cons_self
      exact List.dropWhile_cons_of_neg (by simpa using ht)
  unfold behind
  rw [List.dropWhile_append]
  split
  · next hnil => simp [all, List.isEmpty_iff.mp hnil]
  · rfl

/-! ### The greedy rule -/

/-- Of the spans after the first, those that do not cross its end lie inside it or behind it. -/
theorem filter_not_crosses {s : Span} {rest : List Span} (h : Ordered (s :: rest)) :
    rest.filter (fun t => decide (¬ t.Crosses s)) = s.inside rest ++ s.behind rest := by
  conv_lhs => rw [← List.takeWhile_append_dropWhile (l := rest)
    (p := fun t => decide (t.start < s.stop))]
  rw [List.filter_append]
  congr 1
  · refine List.filter_congr fun t ht => ?_
    have hstart := List.mem_takeWhile_imp ht
    have hprec := h.head ((List.takeWhile_sublist _).subset ht)
    simp only [decide_eq_true_eq] at hstart
    unfold Precedes at hprec
    unfold Crosses
    rw [decide_eq_decide]
    omega
  · refine List.filter_eq_self.mpr fun t ht => ?_
    have hstop := stop_le_of_mem_behind h.tail ht
    unfold Crosses
    rw [decide_eq_true_iff]
    omega

theorem preorder_append {spans later : List Span}
    (h : ∀ s ∈ spans, ∀ t ∈ later, s.stop ≤ t.start) :
    preorder (spans ++ later) = preorder spans ++ preorder later := by
  fun_induction preorder spans with
  | case1 => rfl
  | case2 s rest _ ihbehind =>
    have hs := h s List.mem_cons_self
    have hrest : ∀ u ∈ s.behind rest, ∀ t ∈ later, u.stop ≤ t.start := fun u hu =>
      h u (List.mem_cons_of_mem s ((behind_sublist s rest).subset hu))
    rw [List.cons_append, preorder, inside_append hs, behind_append hs, ihbehind hrest]
    simp

/-- The spans of a list that cross the end of none that is kept. -/
def uncrossed (kept spans : List Span) : List Span :=
  spans.filter fun s => decide (∀ t ∈ kept, ¬ s.Crosses t)

theorem uncrossed_append_singleton (kept : List Span) (s : Span) (spans : List Span) :
    uncrossed (kept ++ [s]) spans =
      (uncrossed kept spans).filter fun t => decide (¬ t.Crosses s) := by
  unfold uncrossed
  rw [List.filter_filter]
  refine List.filter_congr fun u _ => ?_
  rw [← Bool.decide_and, decide_eq_decide]
  simp [or_imp, forall_and, and_comm]

/-- Going on with the greedy rule keeps what nesting meets of the spans that cross nothing so
far. -/
theorem foldl_keep {kept spans : List Span} (h : Ordered spans) :
    spans.foldl keep kept = kept ++ preorder (uncrossed kept spans) := by
  induction spans generalizing kept with
  | nil => simp [uncrossed, preorder]
  | cons s rest ih =>
    rw [List.foldl_cons, ih h.tail]
    by_cases hs : ∀ t ∈ kept, ¬ s.Crosses t
    · have hkeep : keep kept s = kept ++ [s] := if_pos hs
      have hcons : uncrossed kept (s :: rest) = s :: uncrossed kept rest :=
        List.filter_cons_of_pos (decide_eq_true hs)
      have ordered : Ordered (s :: uncrossed kept rest) :=
        h.sublist (.cons_cons s List.filter_sublist)
      have apart : ∀ u ∈ s.inside (uncrossed kept rest), ∀ t ∈ s.behind (uncrossed kept rest),
          u.stop ≤ t.start := by
        intro u hu t ht
        have henc := (encloses_of_mem_inside ordered hu).1
        have hstop := stop_le_of_mem_behind ordered.tail ht
        unfold Encloses at henc
        omega
      rw [hkeep, hcons, uncrossed_append_singleton, filter_not_crosses ordered,
        preorder_append apart, preorder]
      simp
    · have hkeep : keep kept s = kept := if_neg hs
      have hcons : uncrossed kept (s :: rest) = uncrossed kept rest :=
        List.filter_cons_of_neg (by simpa using hs)
      rw [hkeep, hcons]

/-- Nesting meets the spans that the greedy rule keeps, in their order. -/
theorem greedy_eq_preorder {spans : List Span} (h : Ordered spans) :
    greedy spans = preorder spans := by
  unfold greedy
  rw [foldl_keep h]
  simp [uncrossed]

/-! ### The span around a span -/

theorem mem_of_mem_preorder {s : Span} {spans : List Span} (h : s ∈ preorder spans) :
    s ∈ spans := by
  fun_induction preorder spans with
  | case1 => exact h
  | case2 t rest ihinside ihbehind =>
    rcases List.mem_cons.mp h with rfl | h
    · exact List.mem_cons_self
    · rcases List.mem_append.mp h with h | h
      · exact List.mem_cons_of_mem t ((inside_sublist t rest).subset (ihinside h))
      · exact List.mem_cons_of_mem t ((behind_sublist t rest).subset (ihbehind h))

theorem mem_preorder_of_mem_family {s : Span} {p around : Option Span} {spans : List Span}
    (h : (s, p) ∈ family around spans) : s ∈ preorder spans := by
  rw [← map_fst_family around]
  exact List.mem_map_of_mem h

section Innermost

variable {first : Span} {rest : List Span}

theorem mem_preorder_cons {u : Span} : u ∈ preorder (first :: rest) ↔
    u = first ∨ u ∈ preorder (first.inside rest) ∨ u ∈ preorder (first.behind rest) := by
  rw [preorder, List.mem_cons, List.mem_append]

theorem innermost_first (ordered : Ordered (first :: rest)) :
    Innermost (preorder (first :: rest)) first none := by
  intro u hu henc
  rcases List.mem_cons.mp (mem_of_mem_preorder hu) with rfl | hrest
  · rfl
  · have hprec := ordered.head hrest
    unfold Precedes at hprec
    unfold Encloses at henc
    omega

/-- Around a span inside the first are the first and spans inside it, but no span behind it. -/
theorem innermost_inside (ordered : Ordered (first :: rest)) {s : Span}
    (hs : s ∈ preorder (first.inside rest)) {p : Option Span}
    (h : Innermost (preorder (first.inside rest)) s p) :
    Innermost (preorder (first :: rest)) s (some (p.getD first)) := by
  have inner : ∀ u ∈ preorder (first.inside rest), first.Encloses u ∧ u.start < first.stop :=
    fun u hu => encloses_of_mem_inside ordered (mem_of_mem_preorder hu)
  have outer : ∀ u ∈ preorder (first.behind rest), ¬ u.Encloses s := by
    intro u hu henc
    have hstop := stop_le_of_mem_behind ordered.tail (mem_of_mem_preorder hu)
    have hstart := (inner s hs).2
    unfold Encloses at henc
    omega
  cases p with
  | none =>
    have hne : first ≠ s := by
      rintro rfl
      exact not_precedes_self _
        (ordered.head ((inside_sublist _ rest).subset (mem_of_mem_preorder hs)))
    refine ⟨mem_preorder_cons.mpr (.inl rfl), hne, (inner s hs).1, fun u hu hus henc => ?_⟩
    rcases mem_preorder_cons.mp hu with rfl | hu | hu
    · exact ⟨Nat.le_refl _, Nat.le_refl _⟩
    · exact absurd (h u hu henc) hus
    · exact absurd henc (outer u hu)
  | some t =>
    obtain ⟨ht, hne, henct, hmin⟩ := h
    refine ⟨mem_preorder_cons.mpr (.inr (.inl ht)), hne, henct, fun u hu hus henc => ?_⟩
    rcases mem_preorder_cons.mp hu with rfl | hu | hu
    · exact (inner t ht).1
    · exact hmin u hu hus henc
    · exact absurd henc (outer u hu)

/-- Around a span behind the first are only spans behind it. -/
theorem innermost_behind (ordered : Ordered (first :: rest)) {s : Span}
    (hs : s ∈ preorder (first.behind rest)) {p : Option Span}
    (h : Innermost (preorder (first.behind rest)) s p) :
    Innermost (preorder (first :: rest)) s p := by
  have hstart := stop_le_of_mem_behind ordered.tail (mem_of_mem_preorder hs)
  have hproper := ordered.behind.proper s (mem_of_mem_preorder hs)
  have outer : ∀ u ∈ preorder (first :: rest), u.Encloses s → u ∈ preorder (first.behind rest) := by
    intro u hu henc
    unfold Encloses at henc
    rcases mem_preorder_cons.mp hu with rfl | hu | hu
    · omega
    · have hin := (encloses_of_mem_inside ordered (mem_of_mem_preorder hu)).1
      unfold Encloses at hin
      omega
    · exact hu
  cases p with
  | none => exact fun u hu henc => h u (outer u hu henc) henc
  | some t =>
    obtain ⟨ht, hne, henct, hmin⟩ := h
    exact ⟨mem_preorder_cons.mpr (.inr (.inr ht)), hne, henct,
      fun u hu hus henc => hmin u (outer u hu henc) hus henc⟩

end Innermost

/-- Nesting puts a span into the innermost one around it, or leaves it where it is. -/
theorem innermost_of_mem_family {s : Span} {p around : Option Span} {spans : List Span}
    (ordered : Ordered spans) (h : (s, p) ∈ family around spans) :
    (p = around ∧ Innermost (preorder spans) s none) ∨
      ∃ t, p = some t ∧ Innermost (preorder spans) s (some t) := by
  fun_induction family around spans with
  | case1 => simp at h
  | case2 around first rest ihinside ihbehind =>
    rcases List.mem_cons.mp h with h | h
    · obtain ⟨rfl, rfl⟩ := Prod.mk.inj h
      exact .inl ⟨rfl, innermost_first ordered⟩
    rcases List.mem_append.mp h with h | h
    · have hs := mem_preorder_of_mem_family h
      rcases ihinside ordered.inside h with ⟨rfl, hin⟩ | ⟨t, rfl, hin⟩
      · exact .inr ⟨first, rfl, innermost_inside ordered hs hin⟩
      · exact .inr ⟨t, rfl, innermost_inside ordered hs hin⟩
    · have hs := mem_preorder_of_mem_family h
      rcases ihbehind ordered.behind h with ⟨rfl, hbehind⟩ | ⟨t, rfl, hbehind⟩
      · exact .inl ⟨rfl, innermost_behind ordered hs hbehind⟩
      · exact .inr ⟨t, rfl, innermost_behind ordered hs hbehind⟩

/-- At the top of a text the span around another is the innermost there is. -/
theorem innermost_of_mem_family_none {s : Span} {p : Option Span} {spans : List Span}
    (ordered : Ordered spans) (h : (s, p) ∈ family none spans) :
    Innermost (greedy spans) s p := by
  rw [greedy_eq_preorder ordered]
  rcases innermost_of_mem_family ordered h with ⟨rfl, hin⟩ | ⟨t, rfl, hin⟩
  · exact hin
  · exact hin

end Highlighting.Span
