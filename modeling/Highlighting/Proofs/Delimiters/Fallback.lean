import Highlighting.Proofs.Delimiters.Enclosing
import Highlighting.Proofs.Marking.Rounds

/-! How much of the matches shows in the fallback. Literals are looked for in the text without
delimiters, so a match is marked in whole unless another mark takes part of its text first. Such a
mark crosses the match, and its literal comes no later in the order of literals. -/

namespace Highlighting

/-! ### Matches at their own places -/

namespace Passage

/-- The matches, each with the byte of the text from which on it stands. -/
def foundFrom (start : Nat) : Passage → List (Nat × List Char)
  | last _ => []
  | next stretch found rest =>
    let place := start + Text.byteLength stretch
    (place, found) :: rest.foundFrom (place + Text.byteLength found)

/-- Neither plain stretches nor matches contain a delimiter. -/
def Free (start stop : List Char) : Passage → Prop
  | last stretch => ¬ start <:+: stretch ∧ ¬ stop <:+: stretch
  | next stretch found rest =>
    (¬ start <:+: stretch ∧ ¬ stop <:+: stretch) ∧ (¬ start <:+: found ∧ ¬ stop <:+: found) ∧
      rest.Free start stop

instance decidableFree (start stop : List Char) : ∀ p : Passage, Decidable (p.Free start stop)
  | last _ => inferInstanceAs (Decidable (_ ∧ _))
  | next _ _ rest =>
    have := decidableFree start stop rest
    inferInstanceAs (Decidable (_ ∧ _))

variable {p : Passage} {start place : Nat} {found : List Char}

theorem mem_found_of_mem_foundFrom (h : (place, found) ∈ p.foundFrom start) : found ∈ p.found := by
  induction p generalizing start with
  | last _ => cases h
  | next stretch first rest ih =>
    rcases List.mem_cons.mp h with heq | h
    · cases heq
      exact List.mem_cons_self
    · exact List.mem_cons_of_mem first (ih h)

theorem plain_of_mem_foundFrom (h : (place, found) ∈ p.foundFrom start) :
    ∃ front behind, p.plain = front ++ (found ++ behind) ∧
      place = start + Text.byteLength front := by
  induction p generalizing start with
  | last _ => cases h
  | next stretch first rest ih =>
    rcases List.mem_cons.mp h with heq | h
    · cases heq
      exact ⟨stretch, rest.plain, rfl, rfl⟩
    · obtain ⟨front, behind, hplain, rfl⟩ := ih h
      refine ⟨stretch ++ (first ++ front), behind, ?_, ?_⟩
      · rw [plain, hplain]
        simp
      · rw [Text.byteLength_append, Text.byteLength_append]
        omega

/-- Delimiters that do not end as they begin are found wherever they are put. -/
theorem Free.separable {open' close : List Char}
    (hopen : ∀ n < open'.length, 0 < n → ¬ open'.drop n <+: open')
    (hclose : ∀ n < close.length, 0 < n → ¬ close.drop n <+: close)
    (h : p.Free open' close) : p.Separable open' close := by
  induction p with
  | last _ => exact h
  | next stretch first rest ih =>
    obtain ⟨hstretch, hfirst, hrest⟩ := h
    exact ⟨hstretch, Text.foundBehind_of_not_infix hopen hstretch.1,
      Text.foundBehind_of_not_infix hclose hfirst.2, ih hrest⟩

end Passage

/-! ### Matches in the fallback -/

/-- Each character of a stretch that stands from byte `start` on lies inside a mark. -/
def Forest.Shows (f : Forest) (start : Nat) (stretch : List Char) : Prop :=
  ∀ n < stretch.length, ∃ mark ∈ f.marks,
    mark.start ≤ start + Text.byteLength (stretch.take n) ∧
      start + Text.byteLength (stretch.take (n + 1)) ≤ mark.stop

instance (f : Forest) (start : Nat) (stretch : List Char) : Decidable (f.Shows start stretch) :=
  inferInstanceAs (Decidable (∀ n < stretch.length, _))

/-- A mark covers some of the bytes from `start` to `stop`, and some beside them, but not all. -/
def Placed.Crosses (mark : Placed) (start stop : Nat) : Prop :=
  mark.start < start ∧ start < mark.stop ∧ mark.stop < stop ∨
    start < mark.start ∧ mark.start < stop ∧ stop < mark.stop

instance (mark : Placed) (start stop : Nat) : Decidable (mark.Crosses start stop) :=
  inferInstanceAs (Decidable (_ ∨ _))

theorem Forest.shows_of_covers {f : Forest} {mark : Placed} {start : Nat} {stretch : List Char}
    (hmark : mark ∈ f.marks) (hstart : mark.start ≤ start)
    (hstop : start + Text.byteLength stretch ≤ mark.stop) : f.Shows start stretch := by
  intro n _
  refine ⟨mark, hmark, Nat.le_add_right_of_le hstart, ?_⟩
  have hlength := Text.byteLength_append (stretch.take (n + 1)) (stretch.drop (n + 1))
  rw [List.take_append_drop] at hlength
  omega

namespace Piece

/-- After its round a literal is marked in whole, or a mark crosses it that holds a literal which
had its round no later. Further rounds leave both as they are. -/
theorem shows_or_crosses {before after : List (List Char)} {literal : List Char}
    (hne : [] ∉ before ++ [literal])
    (hlonger : ∀ other ∈ before, Text.byteLength literal ≤ Text.byteLength other)
    (front behind : List Char) (f : Forest)
    (hf : f = (rounds (before ++ literal :: after)
      [plain (front ++ (literal ++ behind))]).map toNode) :
    f.Shows (Text.byteLength front) literal ∨ ∃ other ∈ before ++ [literal], ∃ mark ∈ f.marks,
      mark.content = String.ofList other ∧
        mark.Crosses (Text.byteLength front) (Text.byteLength front + Text.byteLength literal) := by
  have hsettled := settled_rounds hne (front ++ (literal ++ behind))
  have hliteral : literal ∈ before ++ [literal] := by simp
  obtain ⟨ahead, other, rest, hpieces, hoverlap⟩ := exists_overlap hsettled.isChain
    (fun hnil => hne (hnil ▸ hliteral))
    (fun stretch hmem => hsettled.not_infix stretch hmem literal hliteral) hsettled.joined_eq
  have hother : other ∈ before ++ [literal] := hsettled.mem other (by simp [hpieces])
  have hlong : Text.byteLength literal ≤ Text.byteLength other := by
    rcases List.mem_append.mp hother with hmem | hmem
    · exact hlonger other hmem
    · rw [List.mem_singleton.mp hmem]
  have hall : rounds (before ++ literal :: after) [plain (front ++ (literal ++ behind))] =
      rounds after (ahead ++ hit other :: rest) := by
    rw [← hpieces, rounds, rounds, rounds, ← List.foldl_append, List.append_assoc]
    rfl
  obtain ⟨ahead', rest', hfinal, hjoined⟩ := exists_hit_rounds after ahead rest other
  obtain ⟨mark, hmark, hstart, hstop, hcontent⟩ := exists_mark ahead' rest' other
  rw [hall, hfinal] at hf
  rw [← hf] at hmark
  rw [hjoined] at hstart hstop
  obtain ⟨hbefore, hafter⟩ := hoverlap
  by_cases hcovers : mark.start ≤ Text.byteLength front ∧
      Text.byteLength front + Text.byteLength literal ≤ mark.stop
  · exact .inl (Forest.shows_of_covers hmark hcovers.1 hcovers.2)
  · refine .inr ⟨other, hother, mark, hmark, hcontent, ?_⟩
    unfold Placed.Crosses
    omega

end Piece

theorem idxOf_le_of_mem {α : Type} [BEq α] [LawfulBEq α] {before after : List α} {a b : α}
    (ha : a ∉ before) (hb : b ∈ before ++ [a]) :
    (before ++ a :: after).idxOf b ≤ (before ++ a :: after).idxOf a := by
  rcases List.mem_append.mp hb with hb | hb
  · rw [List.idxOf_append_of_mem hb, List.idxOf_append_of_notMem ha, List.idxOf_cons_self]
    exact Nat.le_of_lt (List.idxOf_lt_length_of_mem hb)
  · rw [List.mem_singleton.mp hb]

namespace Bounds

theorem fallback_of_separable {bounds : Bounds} (hstart : bounds.start ≠ "")
    (hstop : bounds.stop ≠ "") {p : Passage}
    (h : p.Separable bounds.start.toList bounds.stop.toList) :
    (bounds.strip (bounds.enclose p)).fallback =
      (Piece.rounds (orderLiterals p.found) [.plain p.plain]).map Piece.toNode := by
  have hmarks : (orderLiterals p.found).map (fun l => Replacement.markAll (String.ofList l)) =
      ((orderLiterals p.found).map String.ofList).map Replacement.markAll := by simp
  have hnonempty : "" ∉ (orderLiterals p.found).map String.ofList := by
    simp [mem_orderLiterals]
  rw [strip_eq_of_separable hstart hstop h, Stripped.fallback]
  simp only
  rw [hmarks, renderPlain_markAll hnonempty, String.toList_ofList]
  simp [Function.comp_def]

theorem standard_separable {p : Passage}
    (h : p.Free standard.start.toList standard.stop.toList) :
    p.Separable standard.start.toList standard.stop.toList :=
  h.separable (by decide) (by decide)

/-- Each match of a passage shows in the fallback with all of its characters, unless a mark crosses
it whose literal comes no later in the order of literals. -/
theorem fallback_shows {p : Passage} (hfree : p.Free standard.start.toList standard.stop.toList)
    (hne : [] ∉ p.found) :
    let stripped := standard.strip (standard.enclose p)
    ∀ place found, (place, found) ∈ p.foundFrom 0 →
      stripped.fallback.Shows place found ∨ ∃ mark ∈ stripped.fallback.marks,
        stripped.literals.idxOf mark.content ≤ stripped.literals.idxOf (String.ofList found) ∧
          mark.Crosses place (place + Text.byteLength found) := by
  intro stripped place found hplace
  have hstart : standard.start ≠ "" := by decide
  have hstop : standard.stop ≠ "" := by decide
  have hseparable := standard_separable hfree
  have hliterals := literals_of_separable hstart hstop hseparable
  have hfallback := fallback_of_separable hstart hstop hseparable
  have horder := longestFirst_orderLiterals p.found
  have hfound := Passage.mem_found_of_mem_foundFrom hplace
  obtain ⟨before, after, hsplit⟩ := List.append_of_mem
    ((horder.mem_iff found).mpr ⟨hfound, fun hnil => hne (hnil ▸ hfound)⟩)
  rw [hsplit] at horder hliterals hfallback
  have hnil : [] ∉ before ++ found :: after := fun hmem => ((horder.mem_iff []).mp hmem).2 rfl
  obtain ⟨front, behind, hplain, hfront⟩ := Passage.plain_of_mem_foundFrom hplace
  rw [Nat.zero_add] at hfront
  rw [hplain] at hfallback
  rw [hfront]
  have hnil' : [] ∉ before ++ [found] := by
    intro hmem
    refine hnil ?_
    rw [List.append_cons]
    exact List.mem_append_left after hmem
  rcases Piece.shows_or_crosses hnil' horder.byteLength_le front behind _ hfallback with
    hshows | ⟨other, hother, mark, hmark, hcontent, hcrosses⟩
  · exact .inl hshows
  · refine .inr ⟨mark, hmark, ?_, hcrosses⟩
    have hnew : String.ofList found ∉ before.map String.ofList := by
      intro hmem
      obtain ⟨same, hsame, heq⟩ := List.mem_map.mp hmem
      obtain rfl := String.ofList_injective heq
      exact (List.nodup_append.mp horder.nodup).2.2 same hsame same List.mem_cons_self rfl
    have hmem : String.ofList other ∈ before.map String.ofList ++ [String.ofList found] := by
      rw [← List.map_singleton, ← List.map_append]
      exact List.mem_map_of_mem hother
    rw [hliterals, hcontent, List.map_append, List.map_cons]
    exact idxOf_le_of_mem hnew hmem

/-- The longer literal `bcd` is also found where it begins within the match `ab`, and takes the
second character of it. -/
theorem fallback_shows_crossing :
    let p : Passage := .next [] ['a', 'b'] (.next ['c', 'd', ' '] ['b', 'c', 'd'] (.last []))
    let stripped := standard.strip (standard.enclose p)
    (p.Free standard.start.toList standard.stop.toList ∧ [] ∉ p.found) ∧
      standard.enclose p = "<|[[--ab--]]|>cd <|[[--bcd--]]|>" ∧
      stripped.fallback = [.text "a", .mark "bcd", .text " ", .mark "bcd"] ∧
      stripped.fallback.Shows 5 ['b', 'c', 'd'] ∧ ¬ stripped.fallback.Shows 0 ['a', 'b'] ∧
      ∃ mark ∈ stripped.fallback.marks,
        stripped.literals.idxOf mark.content ≤ stripped.literals.idxOf "ab" ∧ mark.Crosses 0 2 := by
  intro p stripped
  have hfree : p.Free standard.start.toList standard.stop.toList := by decide
  have hne : [] ∉ p.found := by decide
  have hfallback : stripped.fallback = [.text "a", .mark "bcd", .text " ", .mark "bcd"] := by cbv
  have hshows := fallback_shows hfree hne
  have hfirst : ¬ stripped.fallback.Shows 0 ['a', 'b'] := by
    rw [hfallback]
    decide
  have hsecond : ¬ ∃ mark ∈ stripped.fallback.marks, mark.Crosses 5 8 := by
    rw [hfallback]
    decide
  refine ⟨⟨hfree, hne⟩, by cbv, hfallback, ?_, hfirst, ?_⟩
  · rcases hshows 5 ['b', 'c', 'd'] (by decide) with h | ⟨mark, hmark, -, hcrosses⟩
    · exact h
    · exact absurd ⟨mark, hmark, hcrosses⟩ hsecond
  · exact (hshows 0 ['a', 'b'] (by decide)).resolve_left hfirst

/-- Not every match shows. The literal `aa` is found one place before the match that it comes from,
and the last character of the match stays plain. -/
theorem not_fallback_shows : ¬ ∀ p : Passage,
    p.Free standard.start.toList standard.stop.toList → [] ∉ p.found →
      ∀ place found, (place, found) ∈ p.foundFrom 0 →
        (standard.strip (standard.enclose p)).fallback.Shows place found := by
  intro h
  let p : Passage := .next ['a'] ['a', 'a'] (.last [])
  have hfallback : (standard.strip (standard.enclose p)).fallback = [.mark "aa", .text "a"] := by
    cbv
  have hshows := h p (by decide) (by decide) 1 ['a', 'a'] (by decide)
  rw [hfallback] at hshows
  exact absurd hshows (by decide)

end Bounds

end Highlighting
