import Highlighting.Proofs.Delimiters.Survivors
import Highlighting.Proofs.Sorting
import Highlighting.Proofs.Text.Finding

/-! Stripping undoes enclosing. Where each delimiter is found at the place where it was put, the
stretches of a passage come back as they were, and the literals are its matches, the longest
first. -/

namespace Highlighting

/-! ### The order of literals -/

/-- The different texts among those that were found, empty ones aside: the longest in bytes first,
and of those that are as long the one first that appears first. -/
structure LongestFirst (found literals : List (List Char)) : Prop where
  mem_iff : ∀ literal, literal ∈ literals ↔ literal ∈ found ∧ literal ≠ []
  sorted : literals.Pairwise fun a b => Text.byteLength b < Text.byteLength a ∨
    Text.byteLength a = Text.byteLength b ∧ AppearsBefore found a b

theorem longestFirst_orderLiterals (found : List (List Char)) :
    LongestFirst found (orderLiterals found) := by
  refine ⟨fun literal => mem_orderLiterals, ?_⟩
  unfold orderLiterals
  have trans (a b c : List Char) (hab : decide (Text.byteLength b ≤ Text.byteLength a) = true)
      (hbc : decide (Text.byteLength c ≤ Text.byteLength b) = true) :
      decide (Text.byteLength c ≤ Text.byteLength a) = true := by
    rw [decide_eq_true_eq] at *
    exact Nat.le_trans hbc hab
  have total (a b : List Char) : (decide (Text.byteLength b ≤ Text.byteLength a) ||
      decide (Text.byteLength a ≤ Text.byteLength b)) = true := by
    rw [Bool.or_eq_true, decide_eq_true_eq, decide_eq_true_eq]
    exact Nat.le_total _ _
  have hsorted := pairwise_mergeSort_or trans total
    (pairwise_eraseDups (found.filter (! ·.isEmpty)))
  refine hsorted.imp_of_mem fun {a b} _ hb hab => ?_
  obtain ⟨-, hne⟩ := mem_orderLiterals.mp hb
  obtain ⟨hle, htied⟩ := hab
  rw [decide_eq_true_eq] at hle htied
  rcases Nat.lt_or_eq_of_le hle with hlt | heq
  · exact .inl hlt
  · exact .inr ⟨heq.symm, (htied heq.ge).of_filter (by simpa using hne)⟩

theorem LongestFirst.nodup {found literals : List (List Char)} (h : LongestFirst found literals) :
    literals.Nodup := by
  refine h.sorted.imp fun {a b} hab => ?_
  rintro rfl
  rcases hab with hlt | ⟨-, happears⟩
  · exact Nat.lt_irrefl _ hlt
  · exact happears.ne rfl

/-- A literal is as long as each one behind it. -/
theorem LongestFirst.byteLength_le {found before after : List (List Char)} {literal : List Char}
    (h : LongestFirst found (before ++ literal :: after)) :
    ∀ other ∈ before, Text.byteLength literal ≤ Text.byteLength other := by
  intro other hmem
  rcases (List.pairwise_append.mp h.sorted).2.2 other hmem literal List.mem_cons_self with
    hlt | ⟨heq, -⟩
  · exact Nat.le_of_lt hlt
  · exact Nat.le_of_eq heq.symm

/-- One list is in this order. -/
theorem longestFirst_iff {found literals : List (List Char)} :
    LongestFirst found literals ↔ literals = orderLiterals found := by
  constructor
  · intro h
    have h' := longestFirst_orderLiterals found
    refine List.Perm.eq_of_pairwise (fun a b _ _ hab hba => ?_) h.sorted h'.sorted ?_
    · rcases hab with hlt | ⟨heq, happears⟩ <;> rcases hba with hlt' | ⟨heq', happears'⟩
      · omega
      · omega
      · omega
      · exact absurd happears' happears.asymm
    · rw [List.perm_ext_iff_of_nodup h.nodup h'.nodup]
      exact fun literal => (h.mem_iff literal).trans (h'.mem_iff literal).symm
  · rintro rfl
    exact longestFirst_orderLiterals found

/-! ### Passages -/

/-- Plain stretches of a text and the matches between them. -/
inductive Passage where
  | last (stretch : List Char)
  | next (stretch found : List Char) (rest : Passage)
  deriving DecidableEq, Repr

namespace Passage

/-- The text itself. -/
def plain : Passage → List Char
  | last stretch => stretch
  | next stretch found rest => stretch ++ (found ++ rest.plain)

/-- The text with delimiters around each match. -/
def enclosed (start stop : List Char) : Passage → List Char
  | last stretch => stretch
  | next stretch found rest => stretch ++ (start ++ (found ++ (stop ++ rest.enclosed start stop)))

/-- The matches in order. -/
def found : Passage → List (List Char)
  | last _ => []
  | next _ found rest => found :: rest.found

/-- No plain stretch contains a delimiter, and each delimiter is found where it is put, behind a
stretch or behind a match. -/
def Separable (start stop : List Char) : Passage → Prop
  | last stretch => ¬ start <:+: stretch ∧ ¬ stop <:+: stretch
  | next stretch found rest =>
    (¬ start <:+: stretch ∧ ¬ stop <:+: stretch) ∧ Text.FoundBehind start stretch ∧
      Text.FoundBehind stop found ∧ rest.Separable start stop

instance decidableSeparable (start stop : List Char) : ∀ p : Passage,
    Decidable (p.Separable start stop)
  | last _ => inferInstanceAs (Decidable (_ ∧ _))
  | next _ _ rest =>
    have := decidableSeparable start stop rest
    inferInstanceAs (Decidable (_ ∧ _))

end Passage

theorem Text.erase_eq_self {needle text : List Char} (h : ¬ needle <:+: text) :
    erase needle text = text := by
  rw [erase, splitFirst?_eq_none h]

theorem eraseDelimiters_eq_self {start stop text : List Char} (hstart : ¬ start <:+: text)
    (hstop : ¬ stop <:+: text) : eraseDelimiters start stop text = text := by
  rw [eraseDelimiters, Text.erase_eq_self hstart, Text.erase_eq_self hstop]

/-- Each delimiter is taken where it was put, from the first stretch on. -/
theorem Passage.matchesOf_enclosed {start stop : List Char} (hstart : start ≠ [])
    (hstop : stop ≠ []) {p : Passage} (h : p.Separable start stop) :
    matchesOf start stop (p.enclosed start stop) = (p.plain, p.found) := by
  induction p with
  | last stretch =>
    obtain ⟨hno, hno'⟩ := h
    rw [enclosed, matchesOf_of_none (Text.splitFirst?_eq_none hno),
      eraseDelimiters_eq_self hno hno']
    rfl
  | next stretch found rest ih =>
    obtain ⟨⟨hno, hno'⟩, hopens, hcloses, hrest⟩ := h
    have hopen : Text.splitFirst? start ((next stretch found rest).enclosed start stop) =
        some (stretch, found ++ (stop ++ rest.enclosed start stop)) :=
      (Text.splitFirst?_eq_some_iff hstart).mpr ⟨rfl, hopens⟩
    have hclose : Text.splitFirst? stop (found ++ (stop ++ rest.enclosed start stop)) =
        some (found, rest.enclosed start stop) :=
      (Text.splitFirst?_eq_some_iff hstop).mpr ⟨rfl, hcloses⟩
    rw [matchesOf_match hstart hopen hclose, eraseDelimiters_eq_self hno hno', ih hrest,
      List.append_assoc]
    rfl

namespace Bounds

/-- A passage with these delimiters around its matches. -/
def enclose (bounds : Bounds) (p : Passage) : String :=
  String.ofList (p.enclosed bounds.start.toList bounds.stop.toList)

variable {bounds : Bounds}

theorem strip_eq_of_separable (hstart : bounds.start ≠ "") (hstop : bounds.stop ≠ "") {p : Passage}
    (h : p.Separable bounds.start.toList bounds.stop.toList) :
    bounds.strip (bounds.enclose p) = ⟨String.ofList p.plain,
      (orderLiterals p.found).map fun l => .markAll (String.ofList l)⟩ := by
  have hmatches := Passage.matchesOf_enclosed (by simpa using hstart) (by simpa using hstop) h
  rw [strip_eq hstart hstop, enclose, String.toList_ofList, hmatches]

theorem literals_of_separable (hstart : bounds.start ≠ "") (hstop : bounds.stop ≠ "") {p : Passage}
    (h : p.Separable bounds.start.toList bounds.stop.toList) :
    (bounds.strip (bounds.enclose p)).literals = (orderLiterals p.found).map String.ofList := by
  rw [strip_eq_of_separable hstart hstop h, Stripped.literals, List.map_map]
  rfl

/-- The delimiters of a passage are stripped and nothing else, and the literals are its different
matches, the longest first. -/
theorem strip_enclose (hstart : bounds.start ≠ "") (hstop : bounds.stop ≠ "") {p : Passage}
    (h : p.Separable bounds.start.toList bounds.stop.toList) :
    (bounds.strip (bounds.enclose p)).text = String.ofList p.plain ∧
      ∀ literals : List String, (bounds.strip (bounds.enclose p)).literals = literals ↔
        LongestFirst p.found (literals.map String.toList) := by
  refine ⟨by rw [strip_eq_of_separable hstart hstop h], fun literals => ?_⟩
  rw [literals_of_separable hstart hstop h, longestFirst_iff]
  constructor
  · rintro rfl
    simp [Function.comp_def]
  · intro heq
    rw [← heq]
    simp [Function.comp_def]

/-- A stretch ends as the first delimiter begins, a match as the second one begins, and stripping
makes up a delimiter that was not there. -/
theorem strip_enclose_hyphens :
    let bounds : Bounds := ⟨"[-", "-]"⟩
    let p : Passage := .next ['['] ['b', '-'] (.next [']'] [] (.next [] ['é']
      (.next ['-'] ['b', '-'] (.last ['-']))))
    bounds.start ≠ "" ∧ bounds.stop ≠ "" ∧ p.Separable bounds.start.toList bounds.stop.toList ∧
      bounds.enclose p = "[[-b--]][--][-é-]-[-b--]-" ∧
      (bounds.strip (bounds.enclose p)).text = "[b-]é-b--" ∧
      (bounds.strip (bounds.enclose p)).literals = ["b-", "é"] := by
  intro bounds p
  have hstart : bounds.start ≠ "" := by decide
  have hstop : bounds.stop ≠ "" := by decide
  have hseparable : p.Separable bounds.start.toList bounds.stop.toList := by decide
  have horder : LongestFirst p.found (["b-", "é"].map String.toList) :=
    longestFirst_iff.mpr (by cbv)
  obtain ⟨htext, hliterals⟩ := strip_enclose hstart hstop hseparable
  exact ⟨hstart, hstop, hseparable, by cbv, htext.trans (by cbv), (hliterals _).mpr horder⟩

end Bounds

end Highlighting
