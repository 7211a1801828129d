import Mathlib
import Highlighting.Grammar.Captured
import Highlighting.Proofs.Nesting.Order

/-! What the order of captures decides. Each range of a text goes to the first of its captures whose
name has classes, and the spans that come of this are sorted; so it is all the same how the captures
of different ranges are mixed. -/

namespace Highlighting

section Find

variable {α : Type} {p : α → Bool}

/-- Leaving out what is not sought does not change what is found. -/
theorem find?_filter_of_imp {q : α → Bool} {l : List α} (h : ∀ a ∈ l, p a = true → q a = true) :
    (l.filter q).find? p = l.find? p := by
  induction l with
  | nil => rfl
  | cons a l ih =>
    obtain ⟨ha, hl⟩ := List.forall_mem_cons.mp h
    by_cases hq : q a = true
    · rw [List.filter_cons_of_pos hq, List.find?_cons, List.find?_cons, ih hl]
    · have hp : ¬ p a = true := fun hp => hq (ha hp)
      rw [List.filter_cons_of_neg hq, List.find?_cons_of_neg hp, ih hl]

/-- Nor does leaving out a repetition where it is sought only if what it repeats is. -/
theorem find?_eraseDupsBy {r : α → α → Bool} : ∀ {l : List α},
    (∀ a ∈ l, ∀ b ∈ l, r b a = true → p b = true → p a = true) →
      (l.eraseDupsBy r).find? p = l.find? p
  | [], _ => rfl
  | a :: l, h => by
    rw [List.eraseDupsBy_cons]
    by_cases ha : p a = true
    · rw [List.find?_cons_of_pos ha, List.find?_cons_of_pos ha]
    · have hl : ∀ b ∈ l.filter (fun b => decide (r b a = false)), b ∈ a :: l := fun b hb =>
        List.mem_cons_of_mem a (List.mem_filter.mp hb).1
      rw [List.find?_cons_of_neg ha, List.find?_cons_of_neg ha,
        find?_eraseDupsBy fun b hb c hc => h b (hl b hb) c (hl c hc)]
      refine find?_filter_of_imp fun b hb hpb => ?_
      have hother : ¬ r b a = true := fun hr =>
        ha (h a List.mem_cons_self b (List.mem_cons_of_mem a hb) hr hpb)
      simpa using hother
termination_by l => l.length
decreasing_by exact Nat.lt_succ_of_le (List.length_filter_le _ _)

theorem mem_of_mem_eraseDupsBy {r : α → α → Bool} {b : α} : ∀ {l : List α},
    b ∈ l.eraseDupsBy r → b ∈ l
  | [], h => h
  | a :: l, h => by
    rw [List.eraseDupsBy_cons] at h
    rcases List.mem_cons.mp h with rfl | h
    · exact List.mem_cons_self
    · exact List.mem_cons_of_mem a (List.mem_filter.mp (mem_of_mem_eraseDupsBy h)).1
termination_by l => l.length
decreasing_by exact Nat.lt_succ_of_le (List.length_filter_le _ _)

theorem pairwise_eraseDupsBy {r : α → α → Bool} : ∀ l : List α,
    (l.eraseDupsBy r).Pairwise fun a b => r b a = false
  | [] => .nil
  | a :: l => by
    rw [List.eraseDupsBy_cons, List.pairwise_cons]
    refine ⟨fun b hb => ?_, pairwise_eraseDupsBy _⟩
    exact of_decide_eq_true (List.mem_filter.mp (mem_of_mem_eraseDupsBy hb)).2
termination_by l => l.length
decreasing_by exact Nat.lt_succ_of_le (List.length_filter_le _ _)

/-- Where no two elements are sought, the one that is there is found. -/
theorem find?_eq_some_of_pairwise {l : List α} {a : α}
    (h : l.Pairwise fun a b => ¬ (p a = true ∧ p b = true)) (hmem : a ∈ l) (ha : p a = true) :
    l.find? p = some a := by
  obtain ⟨before, after, rfl⟩ := List.append_of_mem hmem
  refine List.find?_eq_some_iff_append.mpr ⟨ha, before, after, rfl, fun b hb => ?_⟩
  have hnot := (List.pairwise_append.mp h).2.2 b hb a List.mem_cons_self
  simpa [ha] using hnot

end Find

/-! ### Captures of one range -/

namespace Capture

/-- The captures have the same range. -/
def sameRange (c d : Capture) : Bool := c.start == d.start && c.stop == d.stop

theorem sameRange_iff {c d : Capture} :
    sameRange c d = true ↔ c.start = d.start ∧ c.stop = d.stop := by
  simp [sameRange]

def hasClasses (c : Capture) : Bool := (tokenClasses? c.name).isSome

/-- Of the captures of each range the first whose name has classes. -/
def leading (captures : List Capture) : List Capture :=
  (captures.filter hasClasses).eraseDupsBy sameRange

/-- One list of captures arises from another by changing the order, but not that of captures of the
same range. -/
structure Rearranged (captures captures' : List Capture) : Prop where
  perm : captures.Perm captures'
  filter_eq : ∀ c, captures.filter (sameRange c) = captures'.filter (sameRange c)

variable {captures captures' : List Capture}

theorem rearranged_iff : Rearranged captures captures' ↔ captures.Perm captures' ∧
    ∀ c ∈ captures, captures.filter (sameRange c) = captures'.filter (sameRange c) := by
  constructor
  · exact fun h => ⟨h.perm, fun c _ => h.filter_eq c⟩
  · rintro ⟨hperm, hfilter⟩
    refine ⟨hperm, fun c => ?_⟩
    by_cases hc : ∃ d ∈ captures, sameRange c d = true
    · obtain ⟨d, hd, hrange⟩ := hc
      have hsame : sameRange c = sameRange d := by
        rw [sameRange_iff] at hrange
        funext e
        rw [sameRange, sameRange, hrange.1, hrange.2]
      rw [hsame, hfilter d hd]
    · -- Neither list has a capture of this range.
      have hnone : captures.filter (sameRange c) = [] :=
        List.filter_eq_nil_iff.mpr fun d hd hrange => hc ⟨d, hd, hrange⟩
      have hperm' := hperm.filter (sameRange c)
      rw [hnone] at hperm' ⊢
      exact hperm'.nil_eq

instance (captures captures' : List Capture) : Decidable (Rearranged captures captures') :=
  decidable_of_iff _ rearranged_iff.symm

/-- A capture that gives the span of a range. -/
def gives (text : List Char) (start stop : Nat) (c : Capture) : Bool :=
  decide (c.Highlights text ∧ c.start = start ∧ c.stop = stop)

variable {text : List Char} {start stop : Nat} {c d : Capture}

theorem gives_iff : c.gives text start stop = true ↔
    c.Highlights text ∧ c.start = start ∧ c.stop = stop := decide_eq_true_iff

theorem hasClasses_of_gives (h : c.gives text start stop = true) : c.hasClasses = true :=
  (gives_iff.mp h).1.1

/-- A capture that gives the span of a range stands for all captures of it with classes. -/
theorem gives_of_sameRange (hd : d.hasClasses = true) (hrange : sameRange c d = true)
    (h : c.gives text start stop = true) : d.gives text start stop = true := by
  obtain ⟨⟨-, hbounds⟩, hstart, hstop⟩ := gives_iff.mp h
  obtain ⟨hstart', hstop'⟩ := sameRange_iff.mp hrange
  rw [hstart', hstop'] at hbounds
  exact gives_iff.mpr ⟨⟨hd, hbounds⟩, hstart' ▸ hstart, hstop' ▸ hstop⟩

theorem Rearranged.find?_gives (h : Rearranged captures captures') (text : List Char)
    (start stop : Nat) :
    captures.find? (gives text start stop) = captures'.find? (gives text start stop) := by
  have hrange : ∀ c : Capture, c.gives text start stop = true →
      sameRange ⟨"", start, stop⟩ c = true := fun c hc =>
    sameRange_iff.mpr ⟨(gives_iff.mp hc).2.1.symm, (gives_iff.mp hc).2.2.symm⟩
  rw [← find?_filter_of_imp fun c (_ : c ∈ captures) => hrange c, h.filter_eq,
    find?_filter_of_imp fun c _ => hrange c]

theorem find?_gives_leading (captures : List Capture) (text : List Char) (start stop : Nat) :
    (leading captures).find? (gives text start stop) =
      captures.find? (gives text start stop) := by
  unfold leading
  rw [find?_eraseDupsBy, find?_filter_of_imp]
  · exact fun c _ => hasClasses_of_gives
  · intro d hd c _ hrange hc
    exact gives_of_sameRange (List.mem_filter.mp hd).2 hrange hc

theorem find?_eq_some_of_mem_leading (hc : c ∈ leading captures)
    (hgives : c.gives text start stop = true) :
    captures.find? (gives text start stop) = some c := by
  rw [← find?_gives_leading]
  have hpairwise : (leading captures).Pairwise fun c d => sameRange d c = false :=
    pairwise_eraseDupsBy _
  refine find?_eq_some_of_pairwise (hpairwise.imp fun {a b} hother hboth => ?_) hc hgives
  obtain ⟨⟨-, hstart, hstop⟩, -, hstart', hstop'⟩ :=
    hboth.imp gives_iff.mp gives_iff.mp
  have hsame : sameRange b a = true :=
    sameRange_iff.mpr ⟨hstart'.trans hstart.symm, hstop'.trans hstop.symm⟩
  rw [hother] at hsame
  cases hsame

end Capture

/-! ### Their spans -/

namespace Span

/-- Spans in strict order are known by what is among them. -/
theorem eq_of_mem_iff {spans spans' : List Span} (h : spans.Pairwise Precedes)
    (h' : spans'.Pairwise Precedes) (hmem : ∀ s, s ∈ spans ↔ s ∈ spans') : spans = spans' := by
  have hirrefl {a b : Span} (hab : a.Precedes b) : a ≠ b := by
    rintro rfl
    unfold Precedes at hab
    omega
  have hperm : spans.Perm spans' :=
    (List.perm_ext_iff_of_nodup (h.imp hirrefl) (h'.imp hirrefl)).mpr hmem
  refine hperm.eq_of_pairwise (fun a b _ _ hab hba => ?_) h h'
  unfold Precedes at hab hba
  omega

variable {theme : Theme} {text : List Char} {captures captures' : List Capture}

theorem mem_ofCaptures_iff_find? {s : Span} : s ∈ ofCaptures theme text captures ↔
    ∃ c, captures.find? (Capture.gives text s.start s.stop) = some c ∧
      ofCapture? theme text c = some s := by
  rw [mem_ofCaptures_iff]
  constructor
  · rintro ⟨c, classes, hc, hclasses, hs⟩
    have hgives : c.gives text s.start s.stop = true := List.find?_some hc
    exact ⟨c, hc,
      ofCapture?_eq_some_iff.mpr ⟨(Capture.gives_iff.mp hgives).1, classes, hclasses, hs⟩⟩
  · rintro ⟨c, hc, hspan⟩
    obtain ⟨-, classes, hclasses, hs⟩ := ofCapture?_eq_some_iff.mp hspan
    exact ⟨c, classes, hc, hclasses, hs⟩

/-- Captures of which the same ones are found give the same spans. -/
theorem ofCaptures_congr (h : ∀ start stop, captures.find? (Capture.gives text start stop) =
    captures'.find? (Capture.gives text start stop)) :
    ofCaptures theme text captures = ofCaptures theme text captures' := by
  refine eq_of_mem_iff (pairwise_ofCaptures theme text captures)
    (pairwise_ofCaptures theme text captures') fun s => ?_
  rw [mem_ofCaptures_iff_find?, mem_ofCaptures_iff_find?, h]

theorem mem_ofCaptures_iff_leading {s : Span} : s ∈ ofCaptures theme text captures ↔
    ∃ c ∈ Capture.leading captures, ofCapture? theme text c = some s := by
  rw [mem_ofCaptures_iff_find?]
  constructor
  · rintro ⟨c, hc, hspan⟩
    rw [← Capture.find?_gives_leading] at hc
    exact ⟨c, List.mem_of_find?_eq_some hc, hspan⟩
  · rintro ⟨c, hc, hspan⟩
    obtain ⟨hhighlights, classes, -, hs⟩ := ofCapture?_eq_some_iff.mp hspan
    have hgives : c.gives text s.start s.stop = true := by
      rw [hs]
      exact Capture.gives_iff.mpr ⟨hhighlights, rfl, rfl⟩
    exact ⟨c, Capture.find?_eq_some_of_mem_leading hc hgives, hspan⟩

end Span

/-- The order of captures matters only among those of the same range, and of these only the first
one whose name has classes contributes: the others may be left out, and the spans that are nested
are those of the captures that are left. -/
theorem highlightCaptures_rearranged (theme : Theme) (text : String)
    {captures captures' : List Capture} (h : Capture.Rearranged captures captures') :
    highlightCaptures theme text captures = highlightCaptures theme text captures' ∧
      highlightCaptures theme text captures =
        highlightCaptures theme text (Capture.leading captures) ∧
      ∀ s, s ∈ Span.ofCaptures theme text.toList captures ↔
        ∃ c ∈ Capture.leading captures, Span.ofCapture? theme text.toList c = some s := by
  have hleading : Span.ofCaptures theme text.toList captures =
      Span.ofCaptures theme text.toList (Capture.leading captures) :=
    Span.ofCaptures_congr fun start stop =>
      (Capture.find?_gives_leading captures text.toList start stop).symm
  refine ⟨?_, congrArg (Span.nest 0 text.toList) hleading, fun s => Span.mem_ofCaptures_iff_leading⟩
  exact congrArg (Span.nest 0 text.toList) (Span.ofCaptures_congr (h.find?_gives text.toList))

/-- Captures of crossing ranges change places; of the captures of one range the first has no
classes, and the second one goes before the third. -/
theorem highlightCaptures_rearranged_crossing :
    let captures : List Capture := [⟨"_tag", 1, 3⟩, ⟨"tag", 1, 3⟩, ⟨"tag", 2, 4⟩, ⟨"text", 1, 3⟩]
    let captures' : List Capture := [⟨"tag", 2, 4⟩, ⟨"_tag", 1, 3⟩, ⟨"tag", 1, 3⟩, ⟨"text", 1, 3⟩]
    Capture.Rearranged captures captures' ∧
      Capture.leading captures = [⟨"tag", 1, 3⟩, ⟨"tag", 2, 4⟩] ∧
      highlightCaptures .empty "abcd" captures = highlightCaptures .empty "abcd" captures' ∧
      highlightCaptures .empty "abcd" captures =
        [.text "a", .span ["token", "tag"] [.text "bc"], .text "d"] := by
  intro captures captures'
  have h : Capture.Rearranged captures captures' := by decide
  have hleading : Capture.leading captures = [⟨"tag", 1, 3⟩, ⟨"tag", 2, 4⟩] := by cbv
  obtain ⟨hsame, hfirst, -⟩ := highlightCaptures_rearranged .empty "abcd" h
  rw [hleading] at hfirst
  exact ⟨h, hleading, hsame, hfirst.trans (by cbv)⟩

end Highlighting
