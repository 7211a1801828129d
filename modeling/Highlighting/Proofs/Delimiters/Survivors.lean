import Mathlib
import Highlighting.Mark.Delimited
import Highlighting.Proofs.Delimiters.Gaps

/-! Which delimiters survive when they are stripped. Each delimiter is deleted once and what remains
is not looked at again. So a start delimiter inside of a match stays with the match, and where
something was deleted the two sides may make up a new delimiter. There is no third way. -/

namespace Highlighting

/-! ### How a text is taken apart -/

section Matches

variable {start stop text before inside found rest : List Char}

theorem length_rest_lt (hstart : start ≠ [])
    (hopen : Text.splitFirst? start text = some (before, inside))
    (hclose : Text.splitFirst? stop inside = some (found, rest)) : rest.length < text.length := by
  have hpositive := List.length_pos_iff.mpr hstart
  have htext := congrArg List.length (Text.append_of_splitFirst? hopen)
  have hinside := congrArg List.length (Text.append_of_splitFirst? hclose)
  simp only [List.length_append] at htext hinside
  omega

theorem matchesOf_of_none (hopen : Text.splitFirst? start text = none) :
    matchesOf start stop text = (eraseDelimiters start stop text, []) := by
  rw [matchesOf, hopen]

theorem matchesOf_unterminated (hopen : Text.splitFirst? start text = some (before, inside))
    (hclose : Text.splitFirst? stop inside = none) :
    matchesOf start stop text =
      (eraseDelimiters start stop before ++ eraseDelimiters start stop inside, []) := by
  rw [matchesOf, hopen]
  simp only [hclose]

theorem matchesOf_match (hstart : start ≠ [])
    (hopen : Text.splitFirst? start text = some (before, inside))
    (hclose : Text.splitFirst? stop inside = some (found, rest)) :
    matchesOf start stop text =
      (eraseDelimiters start stop before ++ found ++ (matchesOf start stop rest).1,
        found :: (matchesOf start stop rest).2) := by
  rw [matchesOf, hopen]
  simp only [hclose, if_pos (length_rest_lt hstart hopen hclose)]

end Matches

namespace Gapped

variable {start stop : List Char}

/-- Deletes delimiters outside of matches. -/
def outside (start stop text : List Char) : Gapped := erase stop (erase start (text.map some))

/-- What stripping leaves of a text, with a gap for each deletion. -/
def stripped (start stop text : List Char) : Gapped :=
  match Text.splitFirst? start text with
  | none => outside start stop text
  | some (before, inside) =>
    match Text.splitFirst? stop inside with
    | none => outside start stop before ++ none :: outside start stop inside
    | some (found, rest) =>
      if rest.length < text.length then
        outside start stop before ++ none :: (found.map some ++ none :: stripped start stop rest)
      else text.map some
termination_by text.length

theorem reduceOption_outside (hstart : start ≠ []) (hstop : stop ≠ []) (text : List Char) :
    (outside start stop text).reduceOption = eraseDelimiters start stop text := by
  unfold outside eraseDelimiters
  rw [reduceOption_erase hstop, reduceOption_erase hstart, reduceOption_map_some]

/-- The gaps aside, this is the text that stripping leaves. -/
theorem reduceOption_stripped (hstart : start ≠ []) (hstop : stop ≠ []) (text : List Char) :
    (stripped start stop text).reduceOption = (matchesOf start stop text).1 := by
  have houtside := reduceOption_outside hstart hstop
  fun_induction stripped start stop text with
  | case1 text hopen => rw [matchesOf_of_none hopen, houtside]
  | case2 text before inside hopen hclose =>
    rw [matchesOf_unterminated hopen hclose]
    simp [List.reduceOption_append, houtside]
  | case3 text before inside hopen found rest hclose hlt ih =>
    rw [matchesOf_match hstart hopen hclose]
    simp [List.reduceOption_append, houtside, ih]
  | case4 text before inside hopen found rest hclose hge =>
    exact absurd (length_rest_lt hstart hopen hclose) hge

theorem not_infix_outside (hstart : start ≠ []) (hstop : stop ≠ []) (text : List Char) :
    ¬ start.map some <:+: outside start stop text ∧
      ¬ stop.map some <:+: outside start stop text := by
  constructor
  · intro h
    have hbefore := (infix_of_infix_erase hstop hstart h).1
    exact (infix_of_infix_erase hstart hstart hbefore).2 rfl
  · intro h
    exact (infix_of_infix_erase hstop hstop h).2 rfl

theorem infix_of_infix_map_some {l text : List Char} (h : l.map some <:+: text.map some) :
    l <:+: text := by
  obtain ⟨u, v, heq⟩ := h
  refine ⟨u.reduceOption, v.reduceOption, ?_⟩
  have hreduced := congrArg List.reduceOption heq
  rwa [List.reduceOption_append, List.reduceOption_append, reduceOption_map_some,
    reduceOption_map_some] at hreduced

/-- No stretch that stripping leaves holds a stop delimiter. -/
theorem not_infix_stripped (hstart : start ≠ []) (hstop : stop ≠ []) (text : List Char) :
    ¬ stop.map some <:+: stripped start stop text := by
  have houtside (u : List Char) := (not_infix_outside hstart hstop u).2
  fun_induction stripped start stop text with
  | case1 text => exact houtside text
  | case2 text before inside =>
    rw [infix_append_none_iff hstop]
    exact not_or.mpr ⟨houtside before, houtside inside⟩
  | case3 text before inside hopen found rest hclose hlt ih =>
    have hfound : ¬ stop.map some <:+: found.map some := by
      intro h
      exact Text.not_infix_of_splitFirst? hstop hclose (infix_of_infix_map_some h)
    rw [infix_append_none_iff hstop, infix_append_none_iff hstop]
    exact not_or.mpr ⟨houtside before, not_or.mpr ⟨hfound, ih⟩⟩
  | case4 text before inside hopen found rest hclose hge =>
    exact absurd (length_rest_lt hstart hopen hclose) hge

/-- A stretch that holds a start delimiter is a match. -/
theorem infix_stripped_iff (hstart : start ≠ []) (hstop : stop ≠ []) (text : List Char) :
    start.map some <:+: stripped start stop text ↔
      ∃ found ∈ (matchesOf start stop text).2, start <:+: found := by
  have houtside (u : List Char) := (not_infix_outside hstart hstop u).1
  fun_induction stripped start stop text with
  | case1 text hopen => simp [matchesOf_of_none hopen, houtside text]
  | case2 text before inside hopen hclose =>
    rw [matchesOf_unterminated hopen hclose, infix_append_none_iff hstart]
    simp [houtside before, houtside inside]
  | case3 text before inside hopen found rest hclose hlt ih =>
    have hfound : start.map some <:+: found.map some ↔ start <:+: found :=
      ⟨infix_of_infix_map_some, fun h => h.map some⟩
    rw [matchesOf_match hstart hopen hclose, infix_append_none_iff hstart,
      infix_append_none_iff hstart]
    simp [houtside before, hfound, ih]
  | case4 text before inside hopen found rest hclose hge =>
    exact absurd (length_rest_lt hstart hopen hclose) hge

end Gapped

/-! ### What stripping leaves of the delimiters -/

/-- A match never holds a stop delimiter. -/
theorem not_infix_of_mem_matchesOf {start stop text found : List Char} (hstart : start ≠ [])
    (hstop : stop ≠ []) (h : found ∈ (matchesOf start stop text).2) : ¬ stop <:+: found := by
  fun_induction matchesOf start stop text with
  | case1 => simp at h
  | case2 => simp at h
  | case3 text before inside hopen first rest hclose _ _ more hmore ih =>
    have hrest : (matchesOf start stop rest).2 = more := by rw [hmore]
    rw [hrest] at ih
    rcases List.mem_cons.mp h with rfl | hmem
    · exact Text.not_infix_of_splitFirst? hstop hclose
    · exact ih hmem
  | case4 text before inside hopen first rest hclose hge =>
    exact absurd (length_rest_lt hstart hopen hclose) hge

theorem mem_orderLiterals {found : List (List Char)} {l : List Char} :
    l ∈ orderLiterals found ↔ l ∈ found ∧ l ≠ [] := by
  unfold orderLiterals
  rw [List.mem_mergeSort, List.mem_eraseDups, List.mem_filter]
  simp

namespace Stripped

/-- The text or one of the literals contains a delimiter. -/
def Holds (s : Stripped) (delimiter : String) : Prop :=
  delimiter.toList <:+: s.text.toList ∨ ∃ l ∈ s.literals, delimiter.toList <:+: l.toList

end Stripped

namespace Bounds

variable {bounds : Bounds}

/-- The text that is stripped, with the gaps that the delimiters leave. -/
def gapped (bounds : Bounds) (text : String) : Gapped :=
  .stripped bounds.start.toList bounds.stop.toList text.toList

theorem strip_eq (hstart : bounds.start ≠ "") (hstop : bounds.stop ≠ "") (text : String) :
    bounds.strip text =
      let (clean, found) := matchesOf bounds.start.toList bounds.stop.toList text.toList
      ⟨String.ofList clean, (orderLiterals found).map fun l => .markAll (String.ofList l)⟩ := by
  unfold strip
  rw [if_neg]
  simp [String.isEmpty_iff, hstart, hstop]

theorem mem_literals_strip (hstart : bounds.start ≠ "") (hstop : bounds.stop ≠ "")
    (text l : String) : l ∈ (bounds.strip text).literals ↔
      l.toList ∈ (matchesOf bounds.start.toList bounds.stop.toList text.toList).2 ∧
        l.toList ≠ [] := by
  rw [strip_eq hstart hstop]
  unfold Stripped.literals
  rw [← mem_orderLiterals]
  simp only [List.map_map, List.mem_map, Function.comp_apply, Replacement.markAll]
  constructor
  · rintro ⟨chars, hchars, rfl⟩
    rwa [String.toList_ofList]
  · intro hl
    exact ⟨l.toList, hl, String.ofList_toList⟩

theorem text_strip (hstart : bounds.start ≠ "") (hstop : bounds.stop ≠ "") (text : String) :
    (bounds.strip text).text.toList = (bounds.gapped text).reduceOption := by
  have hstart' : bounds.start.toList ≠ [] := by simpa using hstart
  have hstop' : bounds.stop.toList ≠ [] := by simpa using hstop
  rw [strip_eq hstart hstop, gapped, Gapped.reduceOption_stripped hstart' hstop']
  exact String.toList_ofList

/-- A start delimiter survives if a match holds one or the two sides of a deletion make one up, a
stop delimiter only if the two sides of a deletion make one up; no literal ever contains a stop
delimiter. So nothing of the delimiters is left if and only if no match holds a start delimiter and
no deletion joins two parts of a delimiter. -/
theorem strip_holds_iff (hstart : bounds.start ≠ "") (hstop : bounds.stop ≠ "") (text : String) :
    ((bounds.strip text).Holds bounds.start ↔
      (∃ found ∈ (matchesOf bounds.start.toList bounds.stop.toList text.toList).2,
        bounds.start.toList <:+: found) ∨
      Gapped.Rejoins bounds.start.toList (bounds.gapped text)) ∧
    ((bounds.strip text).Holds bounds.stop ↔
      Gapped.Rejoins bounds.stop.toList (bounds.gapped text)) ∧
    ∀ l ∈ (bounds.strip text).literals, ¬ bounds.stop.toList <:+: l.toList := by
  have hstart' : bounds.start.toList ≠ [] := by simpa using hstart
  have hstop' : bounds.stop.toList ≠ [] := by simpa using hstop
  have hliterals : ∀ l ∈ (bounds.strip text).literals, ¬ bounds.stop.toList <:+: l.toList := by
    intro l hl
    have hmatch := ((mem_literals_strip hstart hstop text l).mp hl).1
    exact not_infix_of_mem_matchesOf hstart' hstop' hmatch
  refine ⟨?_, ?_, hliterals⟩
  · unfold Stripped.Holds
    rw [text_strip hstart hstop, Gapped.infix_reduceOption_iff hstart', gapped,
      Gapped.infix_stripped_iff hstart' hstop']
    constructor
    · rintro (htext | ⟨l, hl, hholds⟩)
      · exact htext
      · exact .inl ⟨l.toList, ((mem_literals_strip hstart hstop text l).mp hl).1, hholds⟩
    · exact .inl
  · unfold Stripped.Holds
    rw [text_strip hstart hstop, Gapped.infix_reduceOption_iff hstop']
    constructor
    · rintro ((hinside | hjoins) | ⟨l, hl, hholds⟩)
      · exact absurd hinside (Gapped.not_infix_stripped hstart' hstop' text.toList)
      · exact hjoins
      · exact absurd hholds (hliterals l hl)
    · exact fun h => .inl (.inr h)

/-- A stop delimiter stands between the two halves of another one, which come together when it is
deleted. -/
theorem strip_holds_iff_halves :
    standard.start ≠ "" ∧ standard.stop ≠ "" ∧
      Gapped.Rejoins standard.stop.toList (standard.gapped "a --]--]]|>]|> b") := by
  have hstart : standard.start ≠ "" := by decide
  have hstop : standard.stop ≠ "" := by decide
  have htext : (standard.strip "a --]--]]|>]|> b").text = "a --]]|> b" := by cbv
  refine ⟨hstart, hstop, (strip_holds_iff hstart hstop _).2.1.mp (.inl ?_)⟩
  rw [htext]
  decide

/-- Two start delimiters stand before one stop delimiter. The second is taken for text of the
match. -/
theorem strip_leaves_delimiters :
    ¬ ∀ (bounds : Bounds) (text : String), bounds.start ≠ "" → bounds.stop ≠ "" →
      ¬ (bounds.strip text).Holds bounds.start ∧ ¬ (bounds.strip text).Holds bounds.stop := by
  intro h
  have hstart : standard.start ≠ "" := by decide
  have hstop : standard.stop ≠ "" := by decide
  refine (h standard "<|[[--a <|[[--b--]]|>" hstart hstop).1 (.inl ?_)
  have htext : (standard.strip "<|[[--a <|[[--b--]]|>").text = "a <|[[--b" := by cbv
  rw [htext]
  decide

end Bounds

end Highlighting
