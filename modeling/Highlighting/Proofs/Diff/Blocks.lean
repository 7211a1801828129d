import Highlighting.Proofs.Diff.Reading

/-! The lines of a unified diff in blocks. A block begins at a line with two at signs in front; its
body is the shortest stretch of its lines that has as many lines for each side as the first line
declares. -/

namespace Highlighting

/-! ### Lines for changes -/

namespace Change

/-- A line that stands for a change of one of the kinds, which a normal one is among: it begins with
the sign of such a kind or is empty. -/
def isLineFor (kinds : List ChangeKind) (line : List Char) : Bool :=
  line.head?.all fun c => c ∈ kinds.map ChangeKind.sign

theorem ofLine?_eq_some_iff {c : Change} {line : List Char} :
    ofLine? line = some c ↔ LineText c line := by
  refine ⟨fun h => ?_, ofLine?_of_lineText⟩
  have hsigned (kind : ChangeKind) (content : List Char) :
      LineText ⟨kind, String.ofList content⟩ (kind.sign :: content) := by
    simpa using LineText.signed ⟨kind, String.ofList content⟩
  unfold ofLine? at h
  split at h
  · obtain rfl := Option.some.inj h
    exact hsigned .insert _
  · obtain rfl := Option.some.inj h
    exact hsigned .delete _
  · obtain rfl := Option.some.inj h
    exact hsigned .normal _
  · obtain rfl := Option.some.inj h
    exact .blank
  · cases h

theorem sign_injective : Function.Injective ChangeKind.sign := by
  intro a b h
  cases a <;> cases b <;> simp_all [ChangeKind.sign]

theorem isLineFor_cons (kinds : List ChangeKind) (kind : ChangeKind) (content : List Char) :
    isLineFor kinds (kind.sign :: content) = decide (kind ∈ kinds) := by
  simp [isLineFor, sign_injective.eq_iff]

theorem isLineFor_eq {kinds : List ChangeKind} (h : .normal ∈ kinds) (line : List Char) :
    isLineFor kinds line = (ofLine? line).any (·.kind ∈ kinds) := by
  unfold ofLine?
  split
  · exact isLineFor_cons kinds .insert _
  · exact isLineFor_cons kinds .delete _
  · exact isLineFor_cons kinds .normal _
  · simp [isLineFor, h]
  · next hinsert hdelete hnormal hempty =>
    cases line with
    | nil => exact absurd rfl hempty
    | cons c rest =>
      have hsign (kind : ChangeKind) : kind.sign ≠ c := by
        rintro rfl
        cases kind with
        | insert => exact hinsert rest rfl
        | delete => exact hdelete rest rfl
        | normal => exact hnormal rest rfl
      simp [isLineFor, hsign]

theorem isLineFor_all (line : List Char) :
    isLineFor [.insert, .delete, .normal] line = (ofLine? line).isSome := by
  rw [isLineFor_eq (by decide)]
  cases ofLine? line with
  | none => rfl
  | some c => cases hkind : c.kind <;> simp [hkind]

/-- The changes of lines are told by the lines that stand for one, each in its place. -/
theorem forall₂_lineText (ls : List (List Char)) :
    List.Forall₂ LineText (ls.filterMap ofLine?)
      (ls.filter (isLineFor [.insert, .delete, .normal])) := by
  induction ls with
  | nil => exact .nil
  | cons line ls ih =>
    have hline := isLineFor_all line
    cases hc : ofLine? line with
    | none => simpa [hc, hline] using ih
    | some c =>
      rw [hc] at hline
      simpa [hc, hline] using ⟨ofLine?_eq_some_iff.mp hc, ih⟩

theorem countP_isLineFor {kinds : List ChangeKind} (h : .normal ∈ kinds) (ls : List (List Char)) :
    ls.countP (isLineFor kinds) = (ls.filterMap ofLine?).countP (·.kind ∈ kinds) := by
  rw [List.countP_filterMap]
  congr 1
  funext line
  rw [isLineFor_eq h]
  cases ofLine? line <;> rfl

end Change

/-! ### Bodies -/

/-- The lines have as many for each side as the header of the hunk declares, or more. -/
def Hunk.Filled (h : Hunk) (ls : List (List Char)) : Prop :=
  h.oldLines.toNat ≤ ls.countP (Change.isLineFor [.delete, .normal]) ∧
    h.newLines.toNat ≤ ls.countP (Change.isLineFor [.insert, .normal])

instance (h : Hunk) : DecidablePred h.Filled := fun _ => inferInstanceAs (Decidable (_ ∧ _))

/-- A line at which a block begins, and the lines behind it up to the next such line. -/
structure DiffBlock where
  header : List Char
  later : List (List Char)

namespace DiffBlock

/-- The shortest stretch of lines that has those which the header of the hunk declares, all of the
block if there is none. -/
def body (b : DiffBlock) (h : Hunk) : List (List Char) :=
  (b.later.inits.find? (h.Filled ·)).getD b.later

def behind (b : DiffBlock) (h : Hunk) : List (List Char) := b.later.drop (b.body h).length

def extend (b : DiffBlock) (line : List Char) : DiffBlock := { b with later := b.later ++ [line] }

section Body

variable {b : DiffBlock} {h : Hunk}

/-- Either the body has what is declared, or no stretch has and it is all of the block. -/
theorem find?_inits_cases (b : DiffBlock) (h : Hunk) :
    (b.later.inits.find? (h.Filled ·) = some (b.body h) ∧ h.Filled (b.body h)) ∨
      (b.later.inits.find? (h.Filled ·) = none ∧ b.body h = b.later ∧ ¬ h.Filled (b.body h)) := by
  unfold body
  cases hfind : b.later.inits.find? (h.Filled ·) with
  | some ls => exact .inl ⟨rfl, by simpa using List.find?_some hfind⟩
  | none =>
    have hnone := List.find?_eq_none.mp hfind b.later ((List.mem_inits _ _).mpr List.prefix_rfl)
    exact .inr ⟨rfl, rfl, by simpa using hnone⟩

theorem body_prefix (b : DiffBlock) (h : Hunk) : b.body h <+: b.later := by
  rcases b.find?_inits_cases h with ⟨hfind, -⟩ | ⟨-, hwhole, -⟩
  · exact (List.mem_inits _ _).mp (List.mem_of_find?_eq_some hfind)
  · rw [hwhole]

/-- The body ends as soon as it has what is declared. -/
theorem not_filled_of_prefix {short : List (List Char)} (hshort : short <+: b.body h)
    (hne : short ≠ b.body h) : ¬ h.Filled short := by
  have hlater : short <+: b.later := hshort.trans (b.body_prefix h)
  rcases b.find?_inits_cases h with ⟨hfind, -⟩ | ⟨hfind, -, -⟩
  · obtain ⟨-, i, hi, hbody, hearlier⟩ := List.find?_eq_some_iff_getElem.mp hfind
    rw [List.getElem_inits] at hbody
    have hlt : short.length < (b.body h).length :=
      Nat.lt_of_le_of_ne hshort.length_le fun hlength => hne (hshort.eq_of_length hlength)
    have hle : (b.body h).length ≤ i := by
      rw [← hbody]
      exact List.length_take_le i b.later
    have hnot := hearlier short.length (by omega)
    rw [List.getElem_inits, ← List.prefix_iff_eq_take.mp hlater] at hnot
    simpa using hnot
  · have hnot := List.find?_eq_none.mp hfind short ((List.mem_inits _ _).mpr hlater)
    simpa using hnot

theorem body_eq_later (hfilled : ¬ h.Filled (b.body h)) : b.body h = b.later := by
  rcases b.find?_inits_cases h with ⟨-, hfull⟩ | ⟨-, hwhole, -⟩
  · exact absurd hfull hfilled
  · exact hwhole

theorem behind_eq_nil (hfilled : ¬ h.Filled (b.body h)) : b.behind h = [] := by
  rw [behind, body_eq_later hfilled, List.drop_length]

theorem body_extend_of_filled (hfilled : h.Filled (b.body h)) (line : List Char) :
    (b.extend line).body h = b.body h := by
  rcases b.find?_inits_cases h with ⟨hfind, -⟩ | ⟨-, -, hnone⟩
  · rw [body, extend, List.inits_append, List.find?_append, hfind]
    rfl
  · exact absurd hfilled hnone

theorem body_extend_of_not_filled (hfilled : ¬ h.Filled (b.body h)) (line : List Char) :
    (b.extend line).body h = b.later ++ [line] := by
  rcases b.find?_inits_cases h with ⟨-, hfull⟩ | ⟨hfind, -, -⟩
  · exact absurd hfull hfilled
  · rw [body, extend, List.inits_append, List.find?_append, hfind]
    by_cases hnow : h.Filled (b.later ++ [line]) <;> simp [hnow]

theorem behind_extend_of_filled (hfilled : h.Filled (b.body h)) (line : List Char) :
    (b.extend line).behind h = b.behind h ++ [line] := by
  rw [behind, body_extend_of_filled hfilled, extend, behind,
    List.drop_append_of_le_length (b.body_prefix h).length_le]

theorem behind_extend_of_not_filled (hfilled : ¬ h.Filled (b.body h)) (line : List Char) :
    (b.extend line).behind h = [] := by
  rw [behind, body_extend_of_not_filled hfilled, extend, List.drop_length]

end Body

/-! ### Cutting into blocks -/

/-- A line at which a block begins. -/
def Opens (line : List Char) : Prop := ['@', '@'] <+: line

instance : DecidablePred Opens := fun _ => inferInstanceAs (Decidable (_ <+: _))

def lines (b : DiffBlock) : List (List Char) := b.header :: b.later

/-- The lines before the first block. -/
def preamble (ls : List (List Char)) : List (List Char) := ls.takeWhile (¬ Opens ·)

/-- The blocks of the lines of a diff. -/
def cut : List (List Char) → List DiffBlock
  | [] => []
  | line :: rest => if Opens line then ⟨line, preamble rest⟩ :: cut rest else cut rest

theorem preamble_append_cut (ls : List (List Char)) :
    preamble ls ++ (cut ls).flatMap lines = ls := by
  induction ls with
  | nil => rfl
  | cons line ls ih =>
    by_cases hopens : Opens line
    · simpa [preamble, cut, hopens, lines] using ih
    · simpa [preamble, cut, hopens] using ih

theorem cut_eq_nil_iff {ls : List (List Char)} : cut ls = [] ↔ ∀ line ∈ ls, ¬ Opens line := by
  induction ls with
  | nil => simp [cut]
  | cons line ls ih => by_cases hopens : Opens line <;> simp [cut, hopens, ih]

section Append

variable {ls : List (List Char)} {line : List Char}

theorem preamble_append_of_opens (h : Opens line) (ls : List (List Char)) :
    preamble (ls ++ [line]) = preamble ls := by
  induction ls with
  | nil => simp [preamble, h]
  | cons first ls ih =>
    by_cases hopens : Opens first
    · simp [preamble, hopens]
    · simpa [preamble, hopens] using ih

theorem preamble_append_of_cut_ne_nil (h : cut ls ≠ []) (line : List Char) :
    preamble (ls ++ [line]) = preamble ls := by
  induction ls with
  | nil => exact absurd rfl h
  | cons first ls ih =>
    by_cases hopens : Opens first
    · simp [preamble, hopens]
    · rw [cut, if_neg hopens] at h
      simpa [preamble, hopens] using ih h

theorem preamble_eq_self (h : cut ls = []) : preamble ls = ls := by
  have hwhole := preamble_append_cut ls
  rwa [h, List.flatMap_nil, List.append_nil] at hwhole

theorem cut_append_of_opens (h : Opens line) (ls : List (List Char)) :
    cut (ls ++ [line]) = cut ls ++ [⟨line, []⟩] := by
  induction ls with
  | nil => simp [cut, h, preamble]
  | cons first ls ih =>
    by_cases hopens : Opens first
    · rw [List.cons_append, cut, if_pos hopens, cut, if_pos hopens, ih,
        preamble_append_of_opens h, List.cons_append]
    · rw [List.cons_append, cut, if_neg hopens, cut, if_neg hopens, ih]

theorem cut_append_eq_nil (h : ¬ Opens line) (hcut : cut ls = []) : cut (ls ++ [line]) = [] := by
  rw [cut_eq_nil_iff] at hcut ⊢
  exact List.forall_mem_append.mpr ⟨hcut, List.forall_mem_singleton.mpr h⟩

/-- A line at which no block begins belongs to the block before it. -/
theorem cut_append_of_not_opens (h : ¬ Opens line) {init : List DiffBlock} {b : DiffBlock}
    (hcut : cut ls = init ++ [b]) : cut (ls ++ [line]) = init ++ [b.extend line] := by
  induction ls generalizing init with
  | nil => simp [cut] at hcut
  | cons first ls ih =>
    by_cases hopens : Opens first
    · rw [cut, if_pos hopens] at hcut
      rw [List.cons_append, cut, if_pos hopens]
      cases init with
      | nil =>
        obtain ⟨rfl, hnil⟩ := List.cons.inj hcut
        have hnone : cut (ls ++ [line]) = [] := cut_append_eq_nil h hnil
        rw [hnone, preamble_eq_self hnone, preamble_eq_self hnil]
        rfl
      | cons block init =>
        obtain ⟨rfl, hrest⟩ := List.cons.inj hcut
        have hne : cut ls ≠ [] := by simp [hrest]
        rw [ih hrest, preamble_append_of_cut_ne_nil hne, List.cons_append]
    · rw [cut, if_neg hopens] at hcut
      rw [List.cons_append, cut, if_neg hopens, ih hcut]

end Append

end DiffBlock

end Highlighting
