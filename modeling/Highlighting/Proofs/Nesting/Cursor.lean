import Highlighting.Proofs.Nesting.Placed

/-! Nesting with one cursor. The spans come in order; the cursor stands at a byte of the text with
the spans around it that are open, and each text is cut where the cursor passes. Every such cut lies
between two boundaries of the text, and the forest is the one that nesting by recursion gives. -/

namespace Highlighting

/-- A span that is open, and the forest before it in the span around it. -/
structure Frame where
  span : Span
  before : Forest

/-- A byte of a text with what has been built: the forest inside the innermost open span, and the
open spans, the innermost first. -/
structure Cursor where
  pos : Nat
  nodes : Forest
  around : List Frame

namespace Cursor

/-- The text between two bytes as a leaf. It cannot be cut out of range or inside a character. -/
def cut? (text : List Char) (start stop : Nat) : Option Forest :=
  if start < stop then
    (Text.slice? text start stop).map fun part => [.text (String.ofList part)]
  else some []

/-- Closes open spans from the innermost outward, as long as they are to be closed. -/
def close? (text : List Char) (closes : Span → Bool) (pos : Nat) (nodes : Forest) :
    List Frame → Option Cursor
  | [] => some ⟨pos, nodes, []⟩
  | f :: around =>
    if closes f.span then do
      let last ← cut? text pos f.span.stop
      let closed := Node.span f.span.classes (nodes ++ last)
      close? text closes f.span.stop (f.before ++ [closed]) around
    else some ⟨pos, nodes, f :: around⟩

/-- Opens a span, after the spans that end before it are closed. A span that starts before the
cursor or ends behind the innermost open span is passed over. -/
def step? (text : List Char) (c : Cursor) (s : Span) : Option Cursor := do
  let c ← close? text (fun t => decide (t.stop ≤ s.start)) c.pos c.nodes c.around
  if s.start < c.pos ∨ c.around.head?.any (fun f => decide (f.span.stop < s.stop)) then return c
  let between ← cut? text c.pos s.start
  return ⟨s.start, [], ⟨s, c.nodes ++ between⟩ :: c.around⟩

/-- The forest of a text under spans in order; `none` if a text was cut where it cannot be. -/
def build? (text : List Char) (spans : List Span) : Option Forest := do
  let c ← spans.foldlM (step? text) ⟨0, [], []⟩
  let c ← close? text (fun _ => true) c.pos c.nodes c.around
  let last ← cut? text c.pos (Text.byteLength text)
  return c.nodes ++ last

/-! ### What is left to nest -/

/-- The forest that a cursor gives in the end, if the spans that are left are nested by recursion:
in the innermost open span those inside it, and those behind it around it. -/
def resume (text : List Char) (pos : Nat) (nodes : Forest) : List Frame → List Span → Forest
  | [], spans =>
    nodes ++ Span.nest pos (Text.slice text pos (Text.byteLength text)) spans
  | f :: around, spans =>
    let children := Span.nest pos (Text.slice text pos f.span.stop) (f.span.inside spans)
    resume text f.span.stop (f.before ++ [.span f.span.classes (nodes ++ children)]) around
      (f.span.behind spans)

/-- The cursor and the ends of the open spans are boundaries, none before the one inside it. -/
def Sound (text : List Char) (pos : Nat) : List Frame → Prop
  | [] => Text.isBoundary text pos
  | f :: around =>
    Text.isBoundary text pos ∧ pos ≤ f.span.stop ∧ Sound text f.span.stop around

/-- The spans that are left stand in order behind the cursor, between boundaries. -/
structure Ahead (text : List Char) (pos : Nat) (spans : List Span) : Prop where
  ordered : Span.Ordered spans
  within : Span.Within text pos (Text.byteLength text) spans

variable {text : List Char} {pos : Nat} {nodes : Forest} {around : List Frame} {f : Frame}
  {s : Span} {spans rest : List Span}

theorem Sound.isBoundary (h : Sound text pos around) : Text.isBoundary text pos = true := by
  cases around with
  | nil => exact h
  | cons f around => exact h.1

theorem Ahead.tail (h : Ahead text pos (s :: rest)) : Ahead text pos rest :=
  ⟨h.ordered.tail, fun t ht => h.within t (List.mem_cons_of_mem s ht)⟩

theorem Ahead.start_le (h : Ahead text pos (s :: rest)) {t : Span} (ht : t ∈ s :: rest) :
    s.start ≤ t.start := by
  rcases List.mem_cons.mp ht with rfl | ht
  · exact Nat.le_refl _
  · have hprec := h.ordered.head ht
    unfold Span.Precedes at hprec
    omega

/-- The cursor may go on to where no span that is left starts before it. -/
theorem Ahead.advance {next : Nat} (h : Ahead text pos spans)
    (hnext : ∀ t ∈ spans, next ≤ t.start) : Ahead text next spans :=
  ⟨h.ordered, fun t ht => ⟨hnext t ht, (h.within t ht).2⟩⟩

/-! ### Cuts -/

theorem cut?_eq {start stop : Nat} (hstart : Text.isBoundary text start = true)
    (hstop : Text.isBoundary text stop = true) (h : start ≤ stop) :
    cut? text start stop = some (Forest.leaf (Text.slice text start stop)) := by
  obtain ⟨stands, hlength⟩ := Text.standsAt_slice hstart hstop h
  unfold cut? Forest.leaf Forest.plain
  by_cases hlt : start < stop
  · have hne : Text.slice text start stop ≠ [] := by
      intro hnil
      rw [hnil, Text.byteLength] at hlength
      omega
    rw [if_pos hlt, Text.slice?_eq_some hstart hstop h]
    simp [hne]
  · have hnil : Text.slice text start stop = [] :=
      Text.eq_nil_of_byteLength_eq_zero (by omega)
    rw [if_neg hlt, hnil]
    simp

/-- The first of some spans cuts the slice they are nested in. -/
theorem nest_cons {stop : Nat} (hpos : Text.isBoundary text pos = true)
    (hstop : Text.isBoundary text stop = true) (within : Span.Within text pos stop [s])
    (proper : s.start < s.stop) :
    Span.nest pos (Text.slice text pos stop) (s :: rest) =
      Forest.leaf (Text.slice text pos s.start) ++
        .span s.classes (Span.nest s.start (Text.slice text s.start s.stop) (s.inside rest)) ::
        Span.nest s.stop (Text.slice text s.stop stop) (s.behind rest) := by
  have hle : pos ≤ stop := by
    obtain ⟨hstart, hend, -⟩ := within s List.mem_cons_self
    omega
  obtain ⟨stands, hlength⟩ := Text.standsAt_slice hpos hstop hle
  rw [← hlength] at within
  obtain ⟨between, covered, tail, hbetween, hcovered, lbetween, lcovered, ltail, sbetween,
    scovered, stail⟩ := Span.Within.cut stands within proper
  rw [Span.nest, hbetween]
  simp only [hcovered]
  have hbetween : Text.slice text pos s.start = between := by rw [← lbetween, sbetween.slice_eq]
  have hcovered : Text.slice text s.start s.stop = covered := by
    rw [← lcovered, scovered.slice_eq]
  have htail : Text.slice text s.stop stop = tail := by
    rw [← hlength, ← ltail, stail.slice_eq]
  rw [hbetween, hcovered, htail]

/-! ### Steps -/

/-- The end of a span that none of those left starts before may be closed at once. -/
theorem resume_close (h : ∀ t ∈ spans, f.span.stop ≤ t.start) :
    resume text pos nodes (f :: around) spans =
      resume text f.span.stop
        (f.before ++ [.span f.span.classes
          (nodes ++ Forest.leaf (Text.slice text pos f.span.stop))])
        around spans := by
  have hinside : f.span.inside spans = [] := by
    have happend : f.span.inside ([] ++ spans) = f.span.inside [] := Span.inside_append h
    simpa [Span.inside] using happend
  have hbehind : f.span.behind spans = spans := by
    have happend : f.span.behind ([] ++ spans) = f.span.behind [] ++ spans :=
      Span.behind_append h
    simpa [Span.behind] using happend
  rw [resume, hinside, hbehind, Span.nest]

/-- A span that crosses the end of the innermost open one does not count. -/
theorem resume_skip (hstart : s.start < f.span.stop) (hstop : f.span.stop < s.stop) :
    resume text pos nodes (f :: around) (s :: rest) =
      resume text pos nodes (f :: around) rest := by
  have hinside : f.span.inside (s :: rest) = f.span.inside rest := by
    unfold Span.inside
    rw [List.takeWhile_cons_of_pos (by simpa using hstart),
      List.filter_cons_of_neg (by simpa using hstop)]
  have hbehind : f.span.behind (s :: rest) = f.span.behind rest := by
    unfold Span.behind
    rw [List.dropWhile_cons_of_pos (by simpa using hstart)]
  rw [resume, resume, hinside, hbehind]

/-- A span that lies in the innermost open one is opened in it. -/
theorem resume_open (sound : Sound text pos around) (ahead : Ahead text pos (s :: rest))
    (fits : ∀ f ∈ around.head?, s.start < f.span.stop ∧ s.stop ≤ f.span.stop) :
    resume text s.start [] (⟨s, nodes ++ Forest.leaf (Text.slice text pos s.start)⟩ :: around)
      rest = resume text pos nodes around (s :: rest) := by
  have hbounds := ahead.within s List.mem_cons_self
  have proper := ahead.ordered.proper s List.mem_cons_self
  cases around with
  | nil =>
    have hend := Text.isBoundary_byteLength text
    have within : Span.Within text pos (Text.byteLength text) [s] := by
      intro t ht
      obtain rfl := List.mem_singleton.mp ht
      exact hbounds
    simp [resume, nest_cons sound.isBoundary hend within proper]
  | cons f around =>
    obtain ⟨hin, hle⟩ := fits f rfl
    have within : Span.Within text pos f.span.stop [s] := by
      intro t ht
      obtain rfl := List.mem_singleton.mp ht
      exact ⟨hbounds.1, hle, hbounds.2.2⟩
    have hinside : f.span.inside (s :: rest) = s :: f.span.inside rest := by
      unfold Span.inside
      rw [List.takeWhile_cons_of_pos (by simpa using hin),
        List.filter_cons_of_pos (by simpa using hle)]
    have hbehind : f.span.behind (s :: rest) = f.span.behind rest := by
      unfold Span.behind
      rw [List.dropWhile_cons_of_pos (by simpa using hin)]
    have ordered := ahead.ordered.tail
    rw [resume, resume, resume, hinside, hbehind,
      nest_cons sound.isBoundary sound.2.2.isBoundary within proper,
      Span.inside_inside ordered hle, Span.behind_inside ordered, Span.behind_behind ordered hle]
    simp

theorem Sound.advance {next : Nat} (h : Sound text pos around)
    (hnext : Text.isBoundary text next = true) (hle : ∀ f ∈ around.head?, next ≤ f.span.stop) :
    Sound text next around := by
  cases around with
  | nil => exact hnext
  | cons f around => exact ⟨hnext, hle f rfl, h.2.2⟩

/-- Closing cuts the text at boundaries only and changes nothing of what comes out in the end. -/
theorem close?_spec (closes : Span → Bool) (nodes : Forest) (sound : Sound text pos around)
    (ahead : Ahead text pos spans)
    (hcloses : ∀ u, closes u = true → ∀ t ∈ spans, u.stop ≤ t.start) :
    ∃ c, close? text closes pos nodes around = some c ∧ Sound text c.pos c.around ∧
      Ahead text c.pos spans ∧ (∀ f ∈ c.around.head?, closes f.span = false) ∧
      resume text c.pos c.nodes c.around spans = resume text pos nodes around spans := by
  induction around generalizing pos nodes with
  | nil => exact ⟨⟨pos, nodes, []⟩, rfl, sound, ahead, by simp, rfl⟩
  | cons f around ih =>
    by_cases hf : closes f.span = true
    · obtain ⟨hpos, hle, outer⟩ := sound
      have hlater := hcloses f.span hf
      obtain ⟨c, hc, csound, cahead, chead, cresume⟩ := ih (f.before ++
        [.span f.span.classes (nodes ++ Forest.leaf (Text.slice text pos f.span.stop))]) outer
        (ahead.advance hlater)
      refine ⟨c, ?_, csound, cahead, chead, ?_⟩
      · rw [close?, if_pos hf, cut?_eq hpos outer.isBoundary hle]
        exact hc
      · rw [cresume, resume_close hlater]
    · refine ⟨⟨pos, nodes, f :: around⟩, ?_, sound, ahead, ?_, rfl⟩
      · rw [close?, if_neg hf]
      · intro g hg
        obtain rfl : f = g := Option.some.inj hg
        simpa using hf

/-- So does a step, for the spans that it leaves. -/
theorem step?_spec {c : Cursor} (sound : Sound text c.pos c.around)
    (ahead : Ahead text c.pos (s :: rest)) :
    ∃ next, step? text c s = some next ∧ Sound text next.pos next.around ∧
      Ahead text next.pos rest ∧
      resume text next.pos next.nodes next.around rest =
        resume text c.pos c.nodes c.around (s :: rest) := by
  have hcloses : ∀ u : Span, decide (u.stop ≤ s.start) = true → ∀ t ∈ s :: rest,
      u.stop ≤ t.start := by
    intro u hu t ht
    exact Nat.le_trans (of_decide_eq_true hu) (ahead.start_le ht)
  obtain ⟨d, hd, dsound, dahead, dhead, dresume⟩ :=
    close?_spec _ c.nodes sound ahead hcloses
  obtain ⟨hstart, -, bstart, bstop⟩ := dahead.within s List.mem_cons_self
  have proper := dahead.ordered.proper s List.mem_cons_self
  have inside : ∀ f ∈ d.around.head?, s.start < f.span.stop := by
    intro f hf
    have hopen := of_decide_eq_false (dhead f hf)
    omega
  unfold step?
  simp only [hd, Option.bind_eq_bind, Option.bind_some]
  by_cases hcross : d.around.head?.any (fun f => decide (f.span.stop < s.stop)) = true
  · rw [if_pos (.inr hcross)]
    refine ⟨d, rfl, dsound, dahead.tail, ?_⟩
    obtain ⟨f, hf, hstop⟩ := (Option.any_eq_true _ _).mp hcross
    obtain ⟨around, haround⟩ : ∃ around, d.around = f :: around := List.head?_eq_some_iff.mp hf
    rw [← dresume, haround, resume_skip (inside f hf) (of_decide_eq_true hstop)]
  · have fits : ∀ f ∈ d.around.head?, s.start < f.span.stop ∧ s.stop ≤ f.span.stop := by
      intro f hf
      refine ⟨inside f hf, Nat.le_of_not_lt fun hlt => hcross ?_⟩
      exact (Option.any_eq_true _ _).mpr ⟨f, hf, decide_eq_true hlt⟩
    have stays : ¬ (s.start < d.pos ∨
        d.around.head?.any (fun f => decide (f.span.stop < s.stop)) = true) := by
      rintro (h | h)
      · omega
      · exact hcross h
    rw [if_neg stays, cut?_eq dsound.isBoundary bstart hstart]
    refine ⟨_, rfl, ⟨bstart, proper.le, dsound.advance bstop fun f hf => (fits f hf).2⟩, ?_, ?_⟩
    · exact dahead.tail.advance fun t ht => dahead.start_le (List.mem_cons_of_mem s ht)
    · rw [← dresume, ← resume_open dsound dahead fits]

/-- So does going through all spans. -/
theorem foldlM_step? {c : Cursor} (sound : Sound text c.pos c.around)
    (ahead : Ahead text c.pos spans) :
    ∃ last, spans.foldlM (step? text) c = some last ∧ Sound text last.pos last.around ∧
      resume text last.pos last.nodes last.around [] =
        resume text c.pos c.nodes c.around spans := by
  induction spans generalizing c with
  | nil => exact ⟨c, rfl, sound, rfl⟩
  | cons s rest ih =>
    obtain ⟨next, hnext, nsound, nahead, nresume⟩ := step?_spec sound ahead
    obtain ⟨last, hlast, lsound, lresume⟩ := ih nsound nahead
    refine ⟨last, ?_, lsound, lresume.trans nresume⟩
    rw [List.foldlM_cons, hnext]
    exact hlast

/-- The cursor builds the forest of nesting, and no text is cut out of range or inside a
character. -/
theorem build?_eq_nest (ordered : Span.Ordered spans)
    (within : Span.Within text 0 (Text.byteLength text) spans) :
    build? text spans = some (Span.nest 0 text spans) := by
  have hzero : Text.isBoundary text 0 = true := Text.isBoundary_iff.mpr ⟨[], text, rfl, rfl⟩
  obtain ⟨c, hc, csound, cresume⟩ :=
    foldlM_step? (c := ⟨0, [], []⟩) hzero ⟨ordered, within⟩
  have nothing : Ahead text c.pos [] := ⟨⟨.nil, by simp⟩, by simp [Span.Within]⟩
  obtain ⟨d, hd, dsound, -, dhead, dresume⟩ :=
    close?_spec (fun _ => true) c.nodes csound nothing (by simp)
  have hnone : d.around = [] := by
    cases haround : d.around with
    | nil => rfl
    | cons f around => simpa using dhead f (by rw [haround]; rfl)
  have hend := Text.isBoundary_byteLength text
  have hpos := Text.le_byteLength_of_isBoundary dsound.isBoundary
  have hall : Text.slice text 0 (Text.byteLength text) = text := by
    simpa using (Text.standsAt_zero text).slice_eq
  have hforest : d.nodes ++ Forest.leaf (Text.slice text d.pos (Text.byteLength text)) =
      Span.nest 0 text spans := by
    rw [cresume, hnone] at dresume
    simpa [resume, Span.nest, hall] using dresume
  unfold build?
  simp only [hc, hd, cut?_eq dsound.isBoundary hend hpos, Option.bind_eq_bind, Option.bind_some]
  rw [hforest]
  rfl

end Cursor

end Highlighting
