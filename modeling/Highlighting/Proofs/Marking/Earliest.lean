import Highlighting.Proofs.Marking.Leftmost
import Highlighting.Proofs.Nesting.Bytes
import Highlighting.Proofs.Text.Cutting

/-! Marking is leftmost-longest matching. It goes from one occurrence to the next: of the first
occurrences of all needles it takes the earliest, the longest one of those that begin together, and
goes on with the text that is left behind it. The pieces that this gives are those of the rule. -/

namespace Highlighting

theorem Needle.mem_ofLiterals {needle : Needle} {literals : List String} :
    needle ∈ ofLiterals literals ↔ needle.1 ∈ literals.map String.toList := by
  unfold ofLiterals
  simp only [List.mem_filterMap, List.mem_map, Option.dite_none_right_eq_some, Option.some.injEq]
  constructor
  · rintro ⟨literal, hmem, -, rfl⟩
    exact ⟨literal, hmem, rfl⟩
  · rintro ⟨literal, hmem, hliteral⟩
    exact ⟨literal, hmem, hliteral ▸ needle.2, Subtype.ext hliteral⟩

/-! ### The earliest occurrence -/

namespace Occurrence

/-- One occurrence is to be taken rather than another, or is as good. -/
def Precedes (a b : Occurrence) : Prop :=
  a.start < b.start ∨ a.start = b.start ∧ b.length ≤ a.length

theorem Precedes.refl (o : Occurrence) : o.Precedes o := .inr ⟨rfl, Nat.le_refl _⟩

theorem Precedes.trans {a b c : Occurrence} (h : a.Precedes b) (h' : b.Precedes c) :
    a.Precedes c := by
  unfold Precedes at *
  omega

theorem earlier_precedes (a b : Occurrence) :
    (a.earlier b).Precedes a ∧ (a.earlier b).Precedes b := by
  unfold earlier Precedes
  split <;> omega

theorem foldl_earlier_precedes (o : Occurrence) (rest : List Occurrence) :
    ∀ p ∈ o :: rest, (rest.foldl earlier o).Precedes p := by
  induction rest generalizing o with
  | nil =>
    intro p hp
    rw [List.mem_singleton.mp hp]
    exact .refl o
  | cons next rest ih =>
    obtain ⟨hbest, hlater⟩ := List.forall_mem_cons.mp (ih (o.earlier next))
    obtain ⟨hfirst, hnext⟩ := earlier_precedes o next
    refine List.forall_mem_cons.mpr ⟨hbest.trans hfirst, ?_⟩
    exact List.forall_mem_cons.mpr ⟨hbest.trans hnext, hlater⟩

variable {needles : List Needle} {needle : Needle} {text : List Char} {o p : Occurrence}

theorem precedes_of_earliest? (h : earliest? needles text = some o) (hneedle : needle ∈ needles)
    (hp : first? text needle = some p) : o.Precedes p := by
  have hmem : p ∈ needles.filterMap (first? text) := List.mem_filterMap.mpr ⟨needle, hneedle, hp⟩
  unfold earliest? at h
  split at h
  · cases h
  · next first rest hfound =>
    rw [hfound] at hmem
    rw [← Option.some.inj h]
    exact foldl_earlier_precedes first rest p hmem

theorem first?_of_earliest?_eq_none (h : earliest? needles text = none)
    (hneedle : needle ∈ needles) : first? text needle = none := by
  unfold earliest? at h
  split at h
  · next hnone => exact List.filterMap_eq_nil_iff.mp hnone needle hneedle
  · cases h

/-- A needle that stands at some place occurs first there or before. -/
theorem exists_first? (needle : Needle) (passed rest : List Char) :
    ∃ p, first? (passed ++ (needle.1 ++ rest)) needle = some p ∧
      p.start ≤ Text.byteLength passed ∧ p.length = Text.byteLength needle.1 := by
  obtain ⟨before, after, hsplit, more, rfl⟩ := Text.exists_splitFirst? needle.1 passed rest
  refine ⟨⟨Text.byteLength before, Text.byteLength needle.1⟩, ?_, ?_, rfl⟩
  · unfold first?
    rw [hsplit]
    rfl
  · rw [Text.byteLength_append]
    exact Nat.le_add_right _ _

/-- A needle between two stretches of a text is to be taken: wherever one of the needles stands, it
begins no earlier, and it is no longer if it begins there. -/
structure IsEarliest (needles : List Needle) (before : List Char) (needle : Needle)
    (after : List Char) : Prop where
  mem : needle ∈ needles
  precedes : ∀ other ∈ needles, ∀ passed rest,
    before ++ (needle.1 ++ after) = passed ++ (other.1 ++ rest) →
      Precedes ⟨Text.byteLength before, Text.byteLength needle.1⟩
        ⟨Text.byteLength passed, Text.byteLength other.1⟩

theorem isEarliest_of_earliest? (h : earliest? needles text = some o) :
    ∃ before needle after, text = before ++ (needle.1 ++ after) ∧
      o = ⟨Text.byteLength before, Text.byteLength needle.1⟩ ∧
      IsEarliest needles before needle after := by
  obtain ⟨needle, hneedle, hfirst⟩ := exists_of_earliest? h
  obtain ⟨before, after, rfl, rfl⟩ := exists_of_first? hfirst
  refine ⟨before, needle, after, rfl, rfl, hneedle, fun other hother passed rest heq => ?_⟩
  rw [heq] at h
  obtain ⟨p, hp, hstart, hlength⟩ := exists_first? other passed rest
  have hbest := precedes_of_earliest? h hother hp
  unfold Precedes at *
  dsimp only at *
  omega

end Occurrence

/-! ### From one occurrence to the next -/

namespace Piece

open Occurrence (IsEarliest)

variable {literals : List String} {needle : Needle} {before after : List Char}

theorem mem_ofLiterals {literal : List Char} (hmem : literal ∈ literals.map String.toList)
    (hne : literal ≠ []) : ⟨literal, hne⟩ ∈ Needle.ofLiterals literals :=
  Needle.mem_ofLiterals.mpr hmem

/-- What is taken is the longest literal that stands there. -/
theorem isLongest_of_isEarliest (h : IsEarliest (Needle.ofLiterals literals) before needle after) :
    IsLongest (literals.map String.toList) (needle.1 ++ after) needle.1 where
  mem := Needle.mem_ofLiterals.mp h.mem
  ne_nil := needle.2
  starts := List.prefix_append needle.1 after
  longest other hmem hstarts := by
    by_cases hne : other = []
    · rw [hne]
      exact Nat.zero_le _
    · obtain ⟨rest, hrest⟩ := hstarts
      have hprecedes :=
        h.precedes ⟨other, hne⟩ (mem_ofLiterals hmem hne) before rest (by rw [hrest])
      rcases hprecedes with hlt | ⟨-, hle⟩
      · exact absurd hlt (Nat.lt_irrefl _)
      · exact (Text.prefix_of_byteLength_le ⟨rest, hrest⟩ (List.prefix_append _ _) hle).length_le

/-- No literal stands anywhere before it. -/
theorem noneAt_of_isEarliest {passed ahead : List Char} (hahead : ahead ≠ [])
    (h : IsEarliest (Needle.ofLiterals literals) (passed ++ ahead) needle after) :
    NoneAt (literals.map String.toList) (ahead ++ (needle.1 ++ after)) := by
  rintro other hmem ⟨rest, hrest⟩
  refine Classical.byContradiction fun hne => ?_
  have hprecedes := h.precedes ⟨other, hne⟩ (mem_ofLiterals hmem hne) passed rest
    (by rw [List.append_assoc, hrest])
  have hpositive := Text.byteLength_pos hahead
  simp only [Occurrence.Precedes, Text.byteLength_append] at hprecedes
  omega

theorem noneAt_of_earliest?_eq_none {passed ahead : List Char}
    (h : Occurrence.earliest? (Needle.ofLiterals literals) (passed ++ ahead) = none) :
    NoneAt (literals.map String.toList) ahead := by
  rintro other hmem ⟨rest, rfl⟩
  refine Classical.byContradiction fun hne => ?_
  have hnone := Occurrence.first?_of_earliest?_eq_none h (mem_ofLiterals hmem hne)
  obtain ⟨p, hp, -⟩ := Occurrence.exists_first? ⟨other, hne⟩ passed rest
  rw [hnone] at hp
  cases hp

/-- A stretch without a literal goes before pieces that begin with a hit, or before none. -/
theorem leftmost_ofText {stretch : List Char} {literals : List (List Char)} {pieces : List Piece}
    (hnone : ∀ passed ahead, stretch = passed ++ ahead → ahead ≠ [] →
      NoneAt literals (ahead ++ joined pieces))
    (hfirst : ∀ b rest, pieces ≠ plain b :: rest) (h : Leftmost literals pieces) :
    Leftmost literals (ofText stretch ++ pieces) := by
  cases stretch with
  | nil => exact h
  | cons c cs => exact leftmost_plain_iff.mpr ⟨List.cons_ne_nil c cs, hnone, hfirst, h⟩

/-- The pieces that are cut out from one occurrence to the next keep to the rule. -/
theorem leftmost_cut (literals : List String) (value : List Char) :
    Leftmost (literals.map String.toList) (cut (Needle.ofLiterals literals) value) := by
  fun_induction cut (Needle.ofLiterals literals) value with
  | case1 value o hfound found behind ih =>
    obtain ⟨before, needle, after, rfl, rfl, hearliest⟩ :=
      Occurrence.isEarliest_of_earliest? hfound
    have hcut : found = (before, needle.1 ++ after) := Text.splitAtByte_byteLength before _
    have hleft : behind = (needle.1, after) := by
      unfold behind
      rw [hcut]
      exact Text.splitAtByte_byteLength needle.1 after
    rw [hleft] at ih
    rw [hcut, hleft]
    have hjoined : joined (hit needle.1 :: cut (Needle.ofLiterals literals) after) =
        needle.1 ++ after := congrArg (needle.1 ++ ·) (joined_cut _ after)
    refine leftmost_ofText ?_ (by simp) (leftmost_hit_iff.mpr ⟨?_, ih⟩)
    · rintro passed ahead rfl hahead
      rw [hjoined]
      exact noneAt_of_isEarliest hahead hearliest
    · rw [joined_cut]
      exact isLongest_of_isEarliest hearliest
  | case2 value hnone =>
    have hpieces : Leftmost (literals.map String.toList) (ofText value ++ []) := by
      refine leftmost_ofText ?_ (by simp) leftmost_nil
      rintro passed ahead rfl -
      rw [show joined [] = [] from rfl, List.append_nil]
      exact noneAt_of_earliest?_eq_none hnone
    rwa [List.append_nil] at hpieces

/-- They are those of the scan from character to character. -/
theorem cut_eq_scan (literals : List String) (value : List Char) :
    cut (Needle.ofLiterals literals) value = scan (literals.map String.toList) value :=
  (leftmost_cut literals value).eq_scan (joined_cut _ value)

/-! ### One needle -/

theorem cut_singleton_eq_scan (needle : Needle) (value : List Char) :
    cut [needle] value = scan [needle.1] value := by
  have hneedle : Needle.ofLiterals [String.ofList needle.1] = [needle] := by
    simp [Needle.ofLiterals, needle.2]
  have hsame := cut_eq_scan [String.ofList needle.1] value
  rwa [hneedle, List.map_singleton, String.toList_ofList] at hsame

theorem earliest?_singleton (needle : Needle) (value : List Char) :
    Occurrence.earliest? [needle] value = Occurrence.first? value needle := by
  unfold Occurrence.earliest?
  cases hfirst : Occurrence.first? value needle <;> simp [hfirst]

theorem cut_of_splitFirst? {value : List Char}
    (h : Text.splitFirst? needle.1 value = some (before, after)) :
    cut [needle] value = ofText before ++ hit needle.1 :: cut [needle] after := by
  have hfirst : Occurrence.earliest? [needle] value =
      some ⟨Text.byteLength before, Text.byteLength needle.1⟩ := by
    rw [earliest?_singleton, Occurrence.first?, h]
    rfl
  have hvalue := Text.append_of_splitFirst? h
  rw [List.append_assoc] at hvalue
  subst hvalue
  rw [cut]
  split
  · next o ho =>
    obtain rfl := Option.some.inj (hfirst.symm.trans ho)
    dsimp only
    rw [Text.splitAtByte_byteLength, Text.splitAtByte_byteLength]
  · next hnone =>
    rw [hfirst] at hnone
    cases hnone

theorem cut_of_absent {value : List Char} (h : Text.splitFirst? needle.1 value = none) :
    cut [needle] value = ofText value := by
  have hfirst : Occurrence.earliest? [needle] value = none := by
    rw [earliest?_singleton, Occurrence.first?, h]
    rfl
  rw [cut]
  split
  · next o ho =>
    rw [hfirst] at ho
    cases ho
  · rfl

end Piece

theorem markText_eq (literals : List String) (value : String) :
    markText (Needle.ofLiterals literals) value =
      if value = "" then [.text value]
      else (Piece.scan (literals.map String.toList) value.toList).map Piece.toNode := by
  unfold markText
  rw [Piece.cut_eq_scan]
  simp

/-! ### Over a forest -/

/-- One forest arises from another by putting nodes in the place of each text. The elements stay,
with their tags and properties and with what they hold. -/
inductive Forest.Replaced (R : String → Forest → Prop) : Forest → Forest → Prop
  | nil : Replaced R [] []
  | text {value : String} {nodes f g : Forest} :
      R value nodes → Replaced R f g → Replaced R (.text value :: f) (nodes ++ g)
  | element {tag : String} {properties : Properties} {children children' f g : Forest} :
      Replaced R children children' → Replaced R f g →
      Replaced R (.element tag properties children :: f) (.element tag properties children' :: g)

/-- A text with the literals in it marked from the left, at each place the longest one: a hit shows
as a mark around its text, and what lies between hits as a text. An empty text stays. -/
def MarkedText (literals : List String) (value : String) (nodes : Forest) : Prop :=
  if value = "" then nodes = [.text ""]
  else ∃ pieces : List Piece, Piece.joined pieces = value.toList ∧
    Piece.Leftmost (literals.map String.toList) pieces ∧
      nodes = pieces.map fun
        | .plain stretch => .text (String.ofList stretch)
        | .hit literal => .element "mark" ⟨[], .single "data-marked" (.bool true)⟩
            [.text (String.ofList literal)]

theorem markedText_iff {literals : List String} {value : String} {nodes : Forest} :
    MarkedText literals value nodes ↔ nodes = markText (Needle.ofLiterals literals) value := by
  rw [markText_eq]
  unfold MarkedText
  split
  · next hempty => rw [hempty]
  · constructor
    · rintro ⟨pieces, hjoined, hleftmost, rfl⟩
      rw [← hleftmost.eq_scan hjoined]
      exact List.map_congr_left fun piece _ => by cases piece <;> rfl
    · rintro rfl
      refine ⟨_, Piece.joined_scan _ _, Piece.leftmost_scan _ _, ?_⟩
      exact List.map_congr_left fun piece _ => by cases piece <;> rfl

mutual

theorem Node.replaced_markWith {literals : List String} {f g : Forest}
    (h : f.Replaced (MarkedText literals) g) : ∀ n : Node,
      Forest.Replaced (MarkedText literals) (n :: f) (n.markWith (Needle.ofLiterals literals) ++ g)
  | .text _ => .text (markedText_iff.mpr rfl) h
  | .element _ _ children => .element (Forest.replaced_markWith children) h

theorem Forest.replaced_markWith {literals : List String} : ∀ f : Forest,
    f.Replaced (MarkedText literals) (f.markWith (Needle.ofLiterals literals))
  | [] => .nil
  | n :: rest => Node.replaced_markWith (Forest.replaced_markWith rest) n

end

/-- Marking leaves the elements of a forest as they are, and in each of its texts it marks the
literals from the left, at each place the longest one. This says what comes of it: there is no other
forest of which it is true. -/
theorem Forest.mark_eq_iff (f g : Forest) (literals : List String) :
    f.mark literals = g ↔ f.Replaced (MarkedText literals) g := by
  rw [Forest.mark_eq]
  constructor
  · rintro rfl
    exact Forest.replaced_markWith f
  · intro h
    induction h with
    | nil => rfl
    | text hnodes _ ih =>
      obtain rfl := markedText_iff.mp hnodes
      rw [Forest.markWith, Node.markWith, ih]
    | element _ _ ihchildren ih =>
      rw [Forest.markWith, Node.markWith, ihchildren, ih]
      rfl

end Highlighting
