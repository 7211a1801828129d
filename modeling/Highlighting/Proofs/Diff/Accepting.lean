import Mathlib.Data.List.Infix
import Highlighting.Proofs.Diff.Header
import Highlighting.Proofs.Text.Cutting

/-! Headers of hunks as they are accepted. This is more than what is written: blank characters of
any kind stand between the ranges, a number may have a plus sign and leading zeros, and what follows
the ranges may be anything that begins with a blank character and holds a space and two at signs. A
header that is written is read as the numbers it shows. -/

namespace Highlighting

/-! ### Numbers -/

namespace Number

/-- A number as it is read: its digits, behind at most one plus sign. -/
def Spelled (text : List Char) (n : UInt64) : Prop :=
  ∃ digits, Shows digits n.toNat ∧ (text = digits ∨ text = '+' :: digits)

theorem isDigit_of_le {c : Char} (h : '0' ≤ c ∧ c ≤ '9') : c.isDigit := by
  simpa [Char.isDigit, Char.le_def] using h

/-- The digits below ten are the decimal digits, and no letter is one of them. -/
theorem isDigit_of_digit? {c : Char} {d : Nat} (h : digit? 10 c = some d) : c.isDigit := by
  obtain ⟨hvalue, hlt⟩ := Option.filter_eq_some_iff.mp h
  split at hvalue
  · next hc => exact isDigit_of_le hc
  · simp only [decide_eq_true_eq] at hlt
    split at hvalue
    · simp only [Option.some.injEq] at hvalue
      omega
    · split at hvalue
      · simp only [Option.some.injEq] at hvalue
        omega
      · cases hvalue

theorem shows_of_ofDigitsAfter? {digits : List Char} {high n : Nat}
    (h : ofDigitsAfter? 10 high digits = some n) :
    (∀ c ∈ digits, c.isDigit) ∧ Nat.ofDigitChars 10 digits high = n := by
  have hdigits : ∀ c ∈ digits, c.isDigit := by
    induction digits generalizing high with
    | nil => exact fun c hc => absurd hc List.not_mem_nil
    | cons c digits ih =>
      obtain ⟨d, hd, hrest⟩ := Option.bind_eq_some_iff.mp h
      exact List.forall_mem_cons.mpr ⟨isDigit_of_digit? hd, ih hrest⟩
  rw [ofDigitsAfter?_eq hdigits] at h
  exact ⟨hdigits, Option.some.inj h⟩

theorem shows_of_ofDigits? {digits : List Char} {n : UInt64}
    (h : (ofDigits? 10 digits).bind fit? = some n) : Shows digits n.toNat := by
  obtain ⟨m, hm, hfit⟩ := Option.bind_eq_some_iff.mp h
  have hvalue : n.toNat = m := by
    unfold fit? at hfit
    split at hfit
    · next hlt =>
      obtain rfl := Option.some.inj hfit
      exact UInt64.toNat_ofNat_of_lt hlt
    · cases hfit
  cases digits with
  | nil => cases hm
  | cons c digits =>
    obtain ⟨hdigits, hn⟩ := shows_of_ofDigitsAfter? hm
    exact ⟨List.cons_ne_nil c digits, hdigits, hn.trans hvalue.symm⟩

theorem readUnsigned?_eq_some_iff {text : List Char} {n : UInt64} :
    readUnsigned? text = some n ↔ Spelled text n := by
  constructor
  · intro h
    unfold readUnsigned? at h
    split at h
    · next digits => exact ⟨digits, shows_of_ofDigits? h, .inr rfl⟩
    · exact ⟨text, shows_of_ofDigits? h, .inl rfl⟩
  · rintro ⟨digits, hshows, rfl | rfl⟩
    · exact readUnsigned?_of_shows hshows
    · exact bind_fit?_of_shows hshows

theorem Spelled.isDigit_or_plus {text : List Char} {n : UInt64} (h : Spelled text n) :
    ∀ c ∈ text, c.isDigit ∨ c = '+' := by
  obtain ⟨digits, hshows, rfl | rfl⟩ := h
  · exact fun c hc => .inl (hshows.digit c hc)
  · intro c hc
    rcases List.mem_cons.mp hc with rfl | hc
    · exact .inr rfl
    · exact .inl (hshows.digit c hc)

end Number

/-! ### Ranges -/

namespace Hunk

/-- A range of lines as it is read. -/
inductive RangeSpelled (start count : UInt64) : List Char → Prop
  | counted {first many : List Char} : Number.Spelled first start →
      Number.Spelled many count → RangeSpelled start count (first ++ ',' :: many)
  | single {first : List Char} : Number.Spelled first start → count = 1 →
      RangeSpelled start count first

/-- The characters that a range is made of. -/
theorem RangeSpelled.mem_cases {start count : UInt64} {text : List Char}
    (h : RangeSpelled start count text) : ∀ c ∈ text, c.isDigit ∨ c = '+' ∨ c = ',' := by
  have hnumber {part : List Char} {n : UInt64} (hpart : Number.Spelled part n) (c : Char)
      (hc : c ∈ part) : c.isDigit ∨ c = '+' ∨ c = ',' :=
    (hpart.isDigit_or_plus c hc).imp_right .inl
  cases h with
  | counted hfirst hmany =>
    intro c hc
    rcases List.mem_append.mp hc with hc | hc
    · exact hnumber hfirst c hc
    · rcases List.mem_cons.mp hc with rfl | hc
      · exact .inr (.inr rfl)
      · exact hnumber hmany c hc
  | single hfirst => exact hnumber hfirst

theorem isBlank_of_isDigit {c : Char} (h : c.isDigit) : ¬ Text.isBlank c := by
  have hzero : 48 ≤ c.toNat := (Number.le_of_isDigit h).1
  have hnine : c.toNat ≤ 57 := (Number.le_of_isDigit h).2
  simp only [Text.isBlank, Text.blankRanges, List.any_cons, List.any_nil, Bool.or_eq_true,
    Bool.and_eq_true, decide_eq_true_eq, Bool.false_eq_true, or_false]
  omega

theorem RangeSpelled.not_isBlank {start count : UInt64} {text : List Char}
    (h : RangeSpelled start count text) : ∀ c ∈ text, ¬ Text.isBlank c := by
  intro c hc
  rcases h.mem_cases c hc with hdigit | rfl | rfl
  · exact isBlank_of_isDigit hdigit
  · decide
  · decide

theorem RangeSpelled.notMem_at {start count : UInt64} {text : List Char}
    (h : RangeSpelled start count text) : '@' ∉ text := by
  intro hc
  have hcases := h.mem_cases _ hc
  simp [Char.isDigit] at hcases

theorem notMem_of_spelled {text : List Char} {n : UInt64} (h : Number.Spelled text n) :
    ',' ∉ text := by
  intro hc
  have hcases := h.isDigit_or_plus _ hc
  simp [Char.isDigit] at hcases

theorem splitFirst?_comma {first : List Char} (h : ',' ∉ first) (many : List Char) :
    Text.splitFirst? [','] (first ++ ',' :: many) = some (first, many) := by
  refine Text.splitFirst?_append (List.cons_ne_nil _ _) ?_ many
  rw [List.dropLast_singleton, List.append_nil, List.singleton_infix_iff]
  exact h

theorem splitFirst?_comma_eq_none {text : List Char} (h : ',' ∉ text) :
    Text.splitFirst? [','] text = none := by
  refine Text.splitFirst?_eq_none ?_
  rwa [List.singleton_infix_iff]

theorem readRange?_eq_some_iff {text : List Char} {start count : UInt64} :
    readRange? text = some (start, count) ↔ RangeSpelled start count text := by
  constructor
  · intro h
    unfold readRange? at h
    split at h
    · next first many hsplit =>
      obtain ⟨m, hfirst, h⟩ := Option.bind_eq_some_iff.mp h
      obtain ⟨n, hmany, h⟩ := Option.bind_eq_some_iff.mp h
      obtain ⟨rfl, rfl⟩ := Prod.mk.inj (Option.some.inj h)
      have htext : text = first ++ ',' :: many := by
        simpa using Text.append_of_splitFirst? hsplit
      rw [htext]
      exact .counted (Number.readUnsigned?_eq_some_iff.mp hfirst)
        (Number.readUnsigned?_eq_some_iff.mp hmany)
    · obtain ⟨m, hfirst, h⟩ := Option.bind_eq_some_iff.mp h
      obtain ⟨rfl, rfl⟩ := Prod.mk.inj (Option.some.inj h)
      exact .single (Number.readUnsigned?_eq_some_iff.mp hfirst) rfl
  · intro h
    unfold readRange?
    cases h with
    | counted hfirst hmany =>
      rw [splitFirst?_comma (notMem_of_spelled hfirst)]
      simp [Number.readUnsigned?_eq_some_iff.mpr hfirst, Number.readUnsigned?_eq_some_iff.mpr hmany]
    | single hfirst hcount =>
      rw [splitFirst?_comma_eq_none (notMem_of_spelled hfirst)]
      simp [Number.readUnsigned?_eq_some_iff.mpr hfirst, hcount]

/-! ### Headers -/

/-- A hunk without changes, as the line that it begins with declares it. -/
def OpenedBy (h : Hunk) (line : List Char) : Prop :=
  h.header = String.ofList line ∧ h.changes = [] ∧
    ∃ lead old gap new tail, RangeSpelled h.oldStart h.oldLines old ∧
      RangeSpelled h.newStart h.newLines new ∧ (∀ c ∈ lead ++ gap, Text.isBlank c) ∧ gap ≠ [] ∧
        (∃ c, tail.head? = some c ∧ Text.isBlank c) ∧ " @@".toList <:+: tail ∧
          line = "@@ ".toList ++ (lead ++ ('-' :: old ++ (gap ++ ('+' :: new ++ tail))))

/-- The closing at signs are not looked for before a tail that begins with a blank character. -/
theorem splitFirst?_at_append {front tail : List Char} (hfront : '@' ∉ front)
    (htail : tail.head? ≠ some '@') :
    Text.splitFirst? [' ', '@', '@'] (front ++ tail) =
      (Text.splitFirst? [' ', '@', '@'] tail).map
        fun (before, rest) => (front ++ before, rest) := by
  induction front with
  | nil => simp
  | cons c front ih =>
    obtain ⟨hc, hfront⟩ := not_or.mp (mt List.mem_cons.mpr hfront)
    have hnext : (front ++ tail).head? ≠ some '@' := by
      cases front with
      | nil => exact htail
      | cons d front =>
        obtain ⟨hd, -⟩ := not_or.mp (mt List.mem_cons.mpr hfront)
        simpa using Ne.symm hd
    have hafter : Text.after? [' ', '@', '@'] (c :: (front ++ tail)) = none := by
      rw [Option.eq_none_iff_forall_ne_some]
      intro rest hrest
      have heq := Text.after?_eq_some_iff.mp hrest
      obtain ⟨-, hrest⟩ := List.cons.inj heq
      exact hnext (by rw [hrest]; rfl)
    rw [List.cons_append, Text.splitFirst?, hafter]
    simp [ih hfront, Function.comp_def]

theorem openedBy_of_ofHeader? {h : Hunk} {line : List Char} (hread : ofHeader? line = some h) :
    h.OpenedBy line := by
  unfold ofHeader? at hread
  obtain ⟨inner, hinner, hread⟩ := Option.bind_eq_some_iff.mp hread
  obtain ⟨⟨ranges, suffix⟩, hranges, hread⟩ := Option.bind_eq_some_iff.mp hread
  dsimp only at hread
  split at hread
  · next old new more hwords =>
    obtain ⟨⟨oldStart, oldLines⟩, hold, hread⟩ := Option.bind_eq_some_iff.mp hread
    obtain ⟨⟨newStart, newLines⟩, hnew, hread⟩ := Option.bind_eq_some_iff.mp hread
    obtain rfl := Option.some.inj hread
    obtain ⟨lead, behind, hlead, hleadBlank, hbehind, hmore⟩ := Text.exists_of_words_eq_cons hwords
    obtain ⟨gap, rest, hgap, hgapBlank, hrest, -⟩ := Text.exists_of_words_eq_cons hmore
    have hline : line = "@@ ".toList ++ inner := Text.after?_eq_some_iff.mp hinner
    have hgapNe : gap ≠ [] := by
      rintro rfl
      have hplus : Text.isBlank '+' := hbehind '+' (by rw [hgap]; rfl)
      exact absurd hplus (by decide)
    have htail : ∃ c, (rest ++ (" @@".toList ++ suffix)).head? = some c ∧ Text.isBlank c := by
      cases rest with
      | nil => exact ⟨' ', rfl, by decide⟩
      | cons c rest => exact ⟨c, rfl, hrest c rfl⟩
    refine ⟨rfl, rfl, lead, old, gap, new, rest ++ (" @@".toList ++ suffix),
      readRange?_eq_some_iff.mp hold, readRange?_eq_some_iff.mp hnew, ?_, hgapNe, htail,
      ⟨rest, suffix, List.append_assoc ..⟩, ?_⟩
    · exact List.forall_mem_append.mpr ⟨hleadBlank, hgapBlank⟩
    · have hsplit : inner = ranges ++ " @@".toList ++ suffix := Text.append_of_splitFirst? hranges
      rw [hline, hsplit, hlead, hgap]
      simp
  · cases hread

/-- The words in front of the closing at signs begin with both ranges. -/
theorem words_ranges {lead old gap new rest : List Char} (hlead : ∀ c ∈ lead, Text.isBlank c)
    (hold : ∀ c ∈ old, ¬ Text.isBlank c) (hne : gap ≠ []) (hgap : ∀ c ∈ gap, Text.isBlank c)
    (hnew : ∀ c ∈ new, ¬ Text.isBlank c) (hrest : ∀ c, rest.head? = some c → Text.isBlank c) :
    Text.words (lead ++ ('-' :: old ++ (gap ++ ('+' :: new ++ rest)))) =
      ('-' :: old) :: ('+' :: new) :: Text.words rest := by
  have holdWord : ∀ c ∈ '-' :: old, ¬ Text.isBlank c :=
    List.forall_mem_cons.mpr ⟨by decide, hold⟩
  have hnewWord : ∀ c ∈ '+' :: new, ¬ Text.isBlank c :=
    List.forall_mem_cons.mpr ⟨by decide, hnew⟩
  have hgapHead : ∀ c, (gap ++ ('+' :: new ++ rest)).head? = some c → Text.isBlank c := by
    intro c hc
    obtain ⟨d, gap, rfl⟩ := List.exists_cons_of_ne_nil hne
    obtain rfl : d = c := by simpa using hc
    exact hgap d List.mem_cons_self
  rw [Text.words_append_of_blank hlead,
    Text.words_append (List.cons_ne_nil _ _) holdWord hgapHead, Text.words_append_of_blank hgap,
    Text.words_append (List.cons_ne_nil _ _) hnewWord hrest]

theorem ofHeader?_of_openedBy {h : Hunk} {line : List Char} (hopened : h.OpenedBy line) :
    ofHeader? line = some h := by
  obtain ⟨hheader, hchanges, lead, old, gap, new, tail, hold, hnew, hblank, hgap, ⟨c, hc, hcBlank⟩,
    hclosed, hline⟩ := hopened
  obtain ⟨hlead, hgapBlank⟩ := List.forall_mem_append.mp hblank
  let front := lead ++ ('-' :: old ++ (gap ++ '+' :: new))
  have hinner : Text.after? ['@', '@', ' '] line = some (front ++ tail) := by
    rw [Text.after?_eq_some_iff, hline]
    simp [front]
  have hfront : '@' ∉ front := by
    have hleadAt : '@' ∉ lead := fun hat => absurd (hlead _ hat) (by decide)
    have hgapAt : '@' ∉ gap := fun hat => absurd (hgapBlank _ hat) (by decide)
    simp [front, hleadAt, hgapAt, hold.notMem_at, hnew.notMem_at]
  have hcloses : [' ', '@', '@'] <:+: tail := hclosed
  obtain ⟨before, suffix, htail⟩ := Text.exists_of_infix hcloses
  have hranges : Text.splitFirst? [' ', '@', '@'] (front ++ tail) =
      some (front ++ before, suffix) := by
    have hat : tail.head? ≠ some '@' := by
      rw [hc]
      rintro ⟨⟩
      exact absurd hcBlank (by decide)
    rw [splitFirst?_at_append hfront hat, htail, Option.map_some]
  have hbefore : ∀ d, before.head? = some d → Text.isBlank d := by
    intro d hd
    have hsplit := Text.append_of_splitFirst? htail
    obtain ⟨rest, rfl⟩ := List.head?_eq_some_iff.mp hd
    rw [hsplit] at hc
    obtain rfl : d = c := by simpa using hc
    exact hcBlank
  have hwords : Text.words (front ++ before) =
      ('-' :: old) :: ('+' :: new) :: Text.words before := by
    rw [← words_ranges hlead hold.not_isBlank hgap hgapBlank hnew.not_isBlank hbefore]
    simp [front]
  simp only [ofHeader?, hinner, hranges, hwords, readRange?_eq_some_iff.mpr hold,
    readRange?_eq_some_iff.mpr hnew, Option.bind_eq_bind, Option.bind_some, Option.pure_def]
  rw [← hheader, ← hchanges]

/-- The header of a hunk is accepted if and only if it has the form of one. -/
theorem ofHeader?_eq_some_iff {h : Hunk} {line : List Char} :
    ofHeader? line = some h ↔ h.OpenedBy line :=
  ⟨openedBy_of_ofHeader?, ofHeader?_of_openedBy⟩

/-! ### Headers as they are written -/

theorem RangeText.spelled {start count : UInt64} {text : List Char}
    (h : RangeText start count text) : RangeSpelled start count text := by
  cases h with
  | counted hfirst hmany => exact .counted ⟨_, hfirst, .inl rfl⟩ ⟨_, hmany, .inl rfl⟩
  | single hfirst hcount => exact .single ⟨_, hfirst, .inl rfl⟩ hcount

theorem HeaderText.openedBy {h : Hunk} {line : List Char} (hline : h.HeaderText line) :
    { h with header := String.ofList line, changes := [] }.OpenedBy line := by
  obtain ⟨old, new, suffix, hold, hnew, rfl⟩ := hline
  have hspace : Text.isBlank ' ' := by decide
  refine ⟨rfl, rfl, [], old, [' '], new, " @@".toList ++ suffix, hold.spelled, hnew.spelled,
    List.forall_mem_singleton.mpr hspace, List.cons_ne_nil _ _, ⟨' ', rfl, hspace⟩,
    List.infix_append [] _ suffix, ?_⟩
  simp

/-- A header is read as the hunk it belongs to, without changes so far. -/
theorem ofHeader?_of_headerText {h : Hunk} {line : List Char} (hline : h.HeaderText line) :
    ofHeader? line = some { h with header := String.ofList line, changes := [] } :=
  ofHeader?_of_openedBy hline.openedBy

end Hunk

end Highlighting
