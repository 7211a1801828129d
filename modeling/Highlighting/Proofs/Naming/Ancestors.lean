import Highlighting.Grammar.Capture
import Highlighting.Proofs.Text.Cutting
import Mathlib.Data.List.Infix
import Mathlib.Data.List.TakeWhile

/-! What a captured name stands for. A name descends from itself and from what stands before each of
its dots. Its ancestors are tried from the longest on, each of them found by a cut at the last dot,
so the first known one is the longest, and none is left out. -/

namespace Highlighting

/-! ### Ancestors -/

/-- A name is its own ancestor, and so is whatever a dot follows at its beginning. -/
def IsAncestor (ancestor name : String) : Prop :=
  name = ancestor ∨ name.startsWith (ancestor ++ ".")

namespace IsAncestor

variable {ancestor other name before after : String}

theorem refl (name : String) : IsAncestor name name := .inl rfl

theorem iff_toList : IsAncestor ancestor name ↔
    name = ancestor ∨ ancestor.toList ++ ['.'] <+: name.toList := by
  unfold IsAncestor
  rw [String.startsWith_string_iff, String.toList_append]
  rfl

instance (ancestor name : String) : Decidable (IsAncestor ancestor name) :=
  decidable_of_iff _ iff_toList.symm

theorem isPrefix (h : IsAncestor ancestor name) : ancestor.toList <+: name.toList := by
  rcases iff_toList.mp h with rfl | hbegins
  · exact List.prefix_refl _
  · exact (List.prefix_append _ _).trans hbegins

theorem length_le (h : IsAncestor ancestor name) : ancestor.length ≤ name.length := by
  rw [← String.length_toList, ← String.length_toList]
  exact h.isPrefix.length_le

/-- Ancestors of one name differ in length. -/
theorem eq_of_length_eq (h : IsAncestor ancestor name) (hother : IsAncestor other name)
    (hlength : ancestor.length = other.length) : ancestor = other := by
  rw [← String.length_toList, ← String.length_toList] at hlength
  have hwithin := List.prefix_of_prefix_length_le h.isPrefix hother.isPrefix hlength.le
  exact String.toList_inj.mp (hwithin.eq_of_length hlength)

/-- A name without a dot has no other ancestor than itself. -/
theorem iff_of_root (hroot : '.' ∉ name.toList) : IsAncestor ancestor name ↔ name = ancestor := by
  rw [iff_toList, or_iff_left]
  intro hbegins
  exact hroot (hbegins.subset (by simp))

/-- The ancestors of a name, itself apart, are those of what stands before its last dot. -/
theorem iff_of_cut (hafter : '.' ∉ after.toList) :
    IsAncestor ancestor (before ++ "." ++ after) ↔
      before ++ "." ++ after = ancestor ∨ IsAncestor ancestor before := by
  rw [iff_toList, iff_toList]
  refine or_congr_right ?_
  rw [String.toList_append, String.toList_append, ← String.toList_inj]
  constructor
  · intro hbegins
    rcases List.prefix_or_prefix_of_prefix hbegins (List.prefix_append _ after.toList) with
      hinside | ⟨more, hmore⟩
    · rcases List.prefix_concat_iff.mp hinside with heq | hshort
      · exact .inl (List.append_cancel_right heq).symm
      · exact .inr hshort
    · -- What reaches beyond the last dot would end in another one.
      rcases List.eq_nil_or_concat' more with rfl | ⟨front, last, rfl⟩
      · rw [List.append_nil] at hmore
        exact .inl (List.append_cancel_right hmore)
      · rw [← List.append_assoc] at hmore
        obtain ⟨-, hlast⟩ := List.append_inj' hmore rfl
        cases hlast
        rw [← hmore, List.append_assoc, List.prefix_append_right_inj] at hbegins
        exact absurd (hbegins.subset (by simp)) hafter
  · rintro (heq | hbegins)
    · rw [heq]
      exact List.prefix_append _ after.toList
    · rw [List.append_assoc]
      exact hbegins.trans (List.prefix_append _ _)

end IsAncestor

/-! ### The search -/

/-- A known name is the longest known ancestor of a name. -/
structure IsLongestKnown (known name : String) : Prop where
  mem : known ∈ knownNames
  ancestor : IsAncestor known name
  longest : ∀ other ∈ knownNames, IsAncestor other name → other.length ≤ known.length

/-- The longest known ancestor of a name, or that it has no known one. -/
def StandsFor (name : String) : Option String → Prop
  | some known => IsLongestKnown known name
  | none => ∀ known ∈ knownNames, ¬ IsAncestor known name

/-- The rounds of a search that goes on for as long as it likes. A known name is found, and of
another one what stands before its last dot is looked for, if it has a dot. -/
inductive NameSearch : String → Option String → Prop
  | found {name : String} : name ∈ knownNames → NameSearch name (some name)
  | root {name : String} : name ∉ knownNames → '.' ∉ name.toList → NameSearch name none
  | cut {before after : String} {result : Option String} :
      before ++ "." ++ after ∉ knownNames → '.' ∉ after.toList → NameSearch before result →
      NameSearch (before ++ "." ++ after) result

namespace StandsFor

variable {name before after : String} {result result' : Option String}

theorem unique (h : StandsFor name result) (h' : StandsFor name result') : result = result' := by
  cases result with
  | none =>
    cases result' with
    | none => rfl
    | some known => exact absurd h'.ancestor (h known h'.mem)
  | some known =>
    cases result' with
    | none => exact absurd h.ancestor (h' known h.mem)
    | some known' =>
      have hle := h.longest known' h'.mem h'.ancestor
      have hge := h'.longest known h.mem h.ancestor
      rw [h.ancestor.eq_of_length_eq h'.ancestor (hge.antisymm hle)]

theorem found (h : name ∈ knownNames) : StandsFor name (some name) :=
  ⟨h, .refl name, fun _ _ hother => hother.length_le⟩

theorem root (h : name ∉ knownNames) (hroot : '.' ∉ name.toList) : StandsFor name none := by
  intro known hknown hancestor
  rw [IsAncestor.iff_of_root hroot] at hancestor
  exact h (hancestor ▸ hknown)

/-- A name that is not known has the known ancestors of what stands before its last dot. -/
theorem cut (h : before ++ "." ++ after ∉ knownNames) (hafter : '.' ∉ after.toList)
    (hbefore : StandsFor before result) : StandsFor (before ++ "." ++ after) result := by
  have hsame {known : String} (hknown : known ∈ knownNames) :
      IsAncestor known (before ++ "." ++ after) ↔ IsAncestor known before := by
    rw [IsAncestor.iff_of_cut hafter, or_iff_right]
    rintro rfl
    exact h hknown
  cases result with
  | none => exact fun known hknown hancestor => hbefore known hknown ((hsame hknown).mp hancestor)
  | some known =>
    refine ⟨hbefore.mem, (hsame hbefore.mem).mpr hbefore.ancestor, fun other hother hancestor => ?_⟩
    exact hbefore.longest other hother ((hsame hother).mp hancestor)

end StandsFor

theorem NameSearch.standsFor {name : String} {result : Option String} (h : NameSearch name result) :
    StandsFor name result := by
  induction h with
  | found hknown => exact .found hknown
  | root hunknown hroot => exact .root hunknown hroot
  | cut hunknown hafter _ ih => exact .cut hunknown hafter ih

/-! ### The search that is carried out -/

/-- A name has no dot, or it is cut at its last one. -/
@[elab_as_elim]
theorem dotted_induction {P : String → Prop} (root : ∀ name, '.' ∉ name.toList → P name)
    (cut : ∀ before after, '.' ∉ after.toList → P before → P (before ++ "." ++ after))
    (name : String) : P name := by
  induction hlength : name.length using Nat.strong_induction_on generalizing name with
  | _ n ih =>
    by_cases hdot : '.' ∈ name.toList
    · obtain ⟨after, before, hreverse, hafter⟩ :=
        List.eq_append_cons_of_mem (List.mem_reverse.mpr hdot)
      have hname : name = String.ofList before.reverse ++ "." ++ String.ofList after.reverse := by
        rw [← String.toList_inj, ← List.reverse_inj, hreverse]
        simp
      subst hname
      refine cut _ _ (by simpa using hafter) (ih _ ?_ _ rfl)
      have hpositive : 0 < ".".length := by decide
      rw [← hlength, String.length_append, String.length_append]
      omega
    · exact root name hdot

section Rounds

variable {name before after : String}

theorem bne_dot_of_mem_reverse (h : '.' ∉ name.toList) :
    ∀ c ∈ name.toList.reverse, (c != '.') = true := by
  intro c hc
  rw [bne_iff_ne]
  rintro rfl
  exact h (List.mem_reverse.mp hc)

theorem resolveName?_of_mem (h : name ∈ knownNames) : resolveName? name = some name := by
  unfold resolveName?
  rw [resolveReversed?, List.reverse_reverse, String.ofList_toList]
  exact if_pos h

theorem resolveName?_of_root (h : name ∉ knownNames) (hroot : '.' ∉ name.toList) :
    resolveName? name = none := by
  have hrest : name.toList.reverse.dropWhile (· != '.') = [] :=
    List.dropWhile_eq_nil_iff.mpr (bne_dot_of_mem_reverse hroot)
  unfold resolveName?
  rw [resolveReversed?, List.reverse_reverse, String.ofList_toList, if_neg h]
  split
  · rfl
  · next hsome =>
    rw [hrest] at hsome
    cases hsome

theorem resolveName?_of_cut (h : before ++ "." ++ after ∉ knownNames)
    (hafter : '.' ∉ after.toList) :
    resolveName? (before ++ "." ++ after) = resolveName? before := by
  have hrest : (before ++ "." ++ after).toList.reverse.dropWhile (· != '.') =
      '.' :: before.toList.reverse := by
    rw [String.toList_append, List.reverse_append,
      List.dropWhile_append_of_pos (bne_dot_of_mem_reverse hafter), String.toList_append,
      List.reverse_append]
    rfl
  unfold resolveName?
  rw [resolveReversed?, List.reverse_reverse, String.ofList_toList, if_neg h]
  split
  · next hnil =>
    rw [hrest] at hnil
    cases hnil
  · next hsome =>
    rw [hrest] at hsome
    cases hsome
    rfl

end Rounds

/-- The rounds that are carried out come to an end. -/
theorem nameSearch_resolveName? (name : String) : NameSearch name (resolveName? name) := by
  induction name using dotted_induction with
  | root name hroot =>
    by_cases hknown : name ∈ knownNames
    · rw [resolveName?_of_mem hknown]
      exact .found hknown
    · rw [resolveName?_of_root hknown hroot]
      exact .root hknown hroot
  | cut before after hafter ih =>
    by_cases hknown : before ++ "." ++ after ∈ knownNames
    · rw [resolveName?_of_mem hknown]
      exact .found hknown
    · rw [resolveName?_of_cut hknown hafter]
      exact .cut hknown hafter ih

theorem standsFor_resolveName? (name : String) : StandsFor name (resolveName? name) :=
  (nameSearch_resolveName? name).standsFor

theorem standsFor_iff {name : String} {result : Option String} :
    StandsFor name result ↔ resolveName? name = result :=
  ⟨(standsFor_resolveName? name).unique, fun h => h ▸ standsFor_resolveName? name⟩

/-! ### Classes -/

/-- Segments that dots join to a name. -/
def IsDotted (name : String) (segments : List String) : Prop :=
  segments ≠ [] ∧ (∀ segment ∈ segments, '.' ∉ segment.toList) ∧ ".".intercalate segments = name

/-- A name is cut into its segments in one way. -/
theorem isDotted_iff {name : String} {segments : List String} :
    IsDotted name segments ↔ (Text.splitOn '.' name.toList).map String.ofList = segments := by
  constructor
  · rintro ⟨hne, hdots, rfl⟩
    have hparts : ∀ part ∈ segments.map String.toList, '.' ∉ part := by simpa using hdots
    have hcut := List.splitOn_intercalate '.' hparts (by simpa using hne)
    rw [Text.splitOn_eq, String.toList_intercalate]
    exact (congrArg _ hcut).trans (by simp)
  · rintro rfl
    have hjoined : ['.'].intercalate (Text.splitOn '.' name.toList) = name.toList := by
      rw [Text.splitOn_eq, List.intercalate_splitOn]
    refine ⟨?_, ?_, ?_⟩
    · simp [Text.splitOn_eq]
    · simpa using fun part hpart => Text.notMem_of_mem_splitOn hpart
    · rw [← String.toList_inj, String.toList_intercalate, List.map_map]
      simpa [Function.comp_def] using hjoined

section Classes

variable {name : String}

theorem startsWith_underscore_iff : name.startsWith '_' ↔ name.toList.head? = some '_' := by
  rw [String.startsWith_char_eq_head?, beq_iff_eq]

theorem tokenClasses?_of_underscore (h : name.startsWith '_') : tokenClasses? name = none :=
  if_pos (startsWith_underscore_iff.mp h)

theorem tokenClasses?_of_not_underscore (h : ¬ name.startsWith '_') : tokenClasses? name =
    (resolveName? name).map fun known =>
      tokenClass :: (Text.splitOn '.' known.toList).map String.ofList :=
  if_neg (mt startsWith_underscore_iff.mpr h)

theorem tokenClasses?_eq_none_iff :
    tokenClasses? name = none ↔ name.startsWith '_' ∨ resolveName? name = none := by
  by_cases h : name.startsWith '_'
  · simp [tokenClasses?_of_underscore h, h]
  · simp [tokenClasses?_of_not_underscore h, h]

theorem tokenClasses?_eq_some_iff {classes : List String} :
    tokenClasses? name = some classes ↔ ¬ name.startsWith '_' ∧
      ∃ known segments, resolveName? name = some known ∧ IsDotted known segments ∧
        classes = tokenClass :: segments := by
  by_cases h : name.startsWith '_'
  · simp [tokenClasses?_of_underscore h, h]
  · rw [tokenClasses?_of_not_underscore h, Option.map_eq_some_iff, and_iff_right h]
    refine exists_congr fun known => ?_
    constructor
    · rintro ⟨hfound, rfl⟩
      exact ⟨_, hfound, isDotted_iff.mpr rfl, rfl⟩
    · rintro ⟨segments, hfound, hdotted, rfl⟩
      exact ⟨hfound, congrArg _ (isDotted_iff.mp hdotted)⟩

end Classes

/-- The search for what a name stands for comes to an end, whatever the name is, and it ends in one
way: with the longest known ancestor, or with none if no ancestor is known. A name has no classes if
it begins with an underscore or stands for nothing, and else the class of all tokens and then the
segments of what it stands for. -/
theorem tokenClasses?_longest_ancestor (name : String) :
    (∀ result, NameSearch name result ↔ resolveName? name = result) ∧
      (∀ known, resolveName? name = some known ↔ IsLongestKnown known name) ∧
      (resolveName? name = none ↔ ¬ ∃ known ∈ knownNames, IsAncestor known name) ∧
      (tokenClasses? name = none ↔ name.startsWith '_' ∨ resolveName? name = none) ∧
      ∀ classes, tokenClasses? name = some classes ↔ ¬ name.startsWith '_' ∧
        ∃ known segments, resolveName? name = some known ∧ IsDotted known segments ∧
          classes = "token" :: segments := by
  refine ⟨fun result => ?_, fun known => standsFor_iff.symm, ?_, tokenClasses?_eq_none_iff,
    fun classes => tokenClasses?_eq_some_iff⟩
  · constructor
    · exact fun h => standsFor_iff.mp h.standsFor
    · rintro rfl
      exact nameSearch_resolveName? name
  · rw [← standsFor_iff, not_exists]
    simp only [not_and]
    rfl

/-- A name whose beginning looks like a longer known name, and one with an empty segment. -/
theorem tokenClasses?_longest_ancestor_lookalike :
    resolveName? "constant.builtins.x" = some "constant" ∧
      ¬ IsAncestor "constant.builtin" "constant.builtins.x" ∧
      IsAncestor "keyword" "keyword.function..x" ∧
      resolveName? "keyword.function..x" = some "keyword.function" ∧
      tokenClasses? "keyword.function..x" = some ["token", "keyword", "function"] := by
  obtain ⟨-, hconstant, -⟩ := tokenClasses?_longest_ancestor "constant.builtins.x"
  obtain ⟨-, hkeyword, -, -, hclasses⟩ := tokenClasses?_longest_ancestor "keyword.function..x"
  have hfound : resolveName? "keyword.function..x" = some "keyword.function" :=
    (hkeyword _).mpr ⟨by decide, by decide, by decide⟩
  refine ⟨(hconstant _).mpr ⟨by decide, by decide, by decide⟩, by decide, by decide, hfound, ?_⟩
  refine (hclasses _).mpr ⟨?_, "keyword.function", ["keyword", "function"], hfound, ?_, rfl⟩
  · rw [startsWith_underscore_iff]
    decide
  · exact isDotted_iff.mpr (by decide)

end Highlighting
