import Highlighting.Proofs.Content.Marks

/-! Leftmost-longest matching. The rule is stated on the pieces that a text is cut into, without a
scan: where a piece is a hit it is the longest literal that stands there, and in a plain piece no
literal stands anywhere, not even one that would run on beyond it. One way to cut a text keeps to
the rule, and a scan from character to character finds it. -/

namespace Highlighting

namespace Piece

/-! ### The scan -/

/-- A literal in place of the best one so far, if a text starts with it and it is longer. -/
def longer (text : List Char) (best : Option (List Char)) (literal : List Char) :
    Option (List Char) :=
  if (best.getD []).length < literal.length ∧ literal.isPrefixOf text then some literal else best

/-- The longest literal, not empty, that a text starts with. -/
def longestAt? (literals : List (List Char)) (text : List Char) : Option (List Char) :=
  literals.foldl (longer text) none

/-- Puts a character before the pieces of the text that follows it. -/
def consPlain (c : Char) : List Piece → List Piece
  | plain text :: rest => plain (c :: text) :: rest
  | rest => plain [c] :: rest

/-- The pieces of a text from the left: at each place the longest literal that stands there is a
hit, and the scan goes on behind it. -/
def scan (literals : List (List Char)) : List Char → List Piece
  | [] => []
  | c :: cs =>
    match longestAt? literals (c :: cs) with
    | some literal => hit literal :: scan literals (cs.drop (literal.length - 1))
    | none => consPlain c (scan literals cs)
termination_by text => text.length
decreasing_by
  · simp only [List.length_drop, List.length_cons]
    omega
  · simp

theorem foldl_longer_eq_some {text literal : List Char} {literals : List (List Char)}
    {best : Option (List Char)} (hbest : ∀ b, best = some b → b <+: text ∧ 0 < b.length)
    (h : literals.foldl (longer text) best = some literal) :
    literal <+: text ∧ 0 < literal.length := by
  induction literals generalizing best with
  | nil => exact hbest literal h
  | cons candidate rest ih =>
    refine ih (fun b hb => ?_) h
    unfold longer at hb
    split at hb
    · next hc =>
      obtain rfl := Option.some.inj hb
      exact ⟨List.isPrefixOf_iff_prefix.mp hc.2, Nat.zero_lt_of_lt hc.1⟩
    · exact hbest b hb

/-- A literal that is found stands at the start of the text and is not empty. -/
theorem longestAt?_eq_some {literals : List (List Char)} {text literal : List Char}
    (h : longestAt? literals text = some literal) : literal <+: text ∧ 0 < literal.length :=
  foldl_longer_eq_some (fun _ hb => by cases hb) h

@[simp] theorem joined_consPlain (c : Char) (pieces : List Piece) :
    joined (consPlain c pieces) = c :: joined pieces := by
  unfold consPlain
  split <;> rfl

/-- The pieces of a text join to it. -/
theorem joined_scan (literals : List (List Char)) (value : List Char) :
    joined (scan literals value) = value := by
  fun_induction scan literals value with
  | case1 => rfl
  | case2 c cs literal found ih =>
    obtain ⟨⟨rest, hrest⟩, positive⟩ := longestAt?_eq_some found
    obtain ⟨d, tail, rfl⟩ := List.exists_cons_of_length_pos positive
    obtain ⟨rfl, rfl⟩ : d = c ∧ tail ++ rest = cs := by simpa using hrest
    have hscan : joined (scan literals ((tail ++ rest).drop tail.length)) = rest := by
      simpa using ih
    simpa [joined, text] using hscan
  | case3 c cs _ ih => rw [joined_consPlain, ih]

/-! ### At one place -/

/-- The longest literal, not empty, that a text starts with. -/
structure IsLongest (literals : List (List Char)) (text literal : List Char) : Prop where
  mem : literal ∈ literals
  ne_nil : literal ≠ []
  starts : literal <+: text
  longest : ∀ other ∈ literals, other <+: text → other.length ≤ literal.length

/-- A text starts with no literal, apart from empty ones. -/
def NoneAt (literals : List (List Char)) (text : List Char) : Prop :=
  ∀ literal ∈ literals, literal <+: text → literal = []

variable {literals : List (List Char)} {text literal : List Char}

theorem IsLongest.unique {other : List Char} (h : IsLongest literals text literal)
    (h' : IsLongest literals text other) : other = literal := by
  have hle : other.length ≤ literal.length := h.longest other h'.mem h'.starts
  have hge : literal.length ≤ other.length := h'.longest literal h.mem h.starts
  have hprefix := List.prefix_of_prefix_length_le h'.starts h.starts hle
  exact hprefix.eq_of_length (Nat.le_antisymm hle hge)

theorem IsLongest.not_noneAt (h : IsLongest literals text literal) : ¬ NoneAt literals text :=
  fun hnone => h.ne_nil (hnone literal h.mem h.starts)

/-- The better of a literal and the best one before it. -/
theorem longer_spec (text : List Char) (best : Option (List Char)) (literal : List Char) :
    (longer text best literal = best ∨ longer text best literal = some literal) ∧
      (best.getD []).length ≤ ((longer text best literal).getD []).length ∧
        (literal <+: text → literal.length ≤ ((longer text best literal).getD []).length) := by
  unfold longer
  split
  · next h =>
    refine ⟨.inr rfl, ?_, fun _ => Nat.le_refl _⟩
    rw [Option.getD_some]
    exact Nat.le_of_lt h.1
  · next h =>
    refine ⟨.inl rfl, Nat.le_refl _, fun hstarts => Nat.le_of_not_lt fun hlonger => ?_⟩
    exact h ⟨hlonger, List.isPrefixOf_iff_prefix.mpr hstarts⟩

/-- The best of several literals is one of them or the best one before them, and no literal that
stands there is longer. -/
theorem foldl_longer_spec (text : List Char) (literals : List (List Char))
    (best : Option (List Char)) :
    let found := literals.foldl (longer text) best
    (found = best ∨ ∃ literal ∈ literals, found = some literal) ∧
      (best.getD []).length ≤ (found.getD []).length ∧
        ∀ literal ∈ literals, literal <+: text → literal.length ≤ (found.getD []).length := by
  induction literals generalizing best with
  | nil => exact ⟨.inl rfl, Nat.le_refl _, by simp⟩
  | cons first rest ih =>
    obtain ⟨hfrom, hkept, hfirst⟩ := longer_spec text best first
    obtain ⟨hfound, hle, hrest⟩ := ih (longer text best first)
    refine ⟨?_, Nat.le_trans hkept hle, ?_⟩
    · rcases hfound with hfound | ⟨literal, hmem, hfound⟩
      · rcases hfrom with hfrom | hfrom
        · exact .inl (hfound.trans hfrom)
        · exact .inr ⟨first, List.mem_cons_self, hfound.trans hfrom⟩
      · exact .inr ⟨literal, List.mem_cons_of_mem first hmem, hfound⟩
    · rintro literal hmem hstarts
      rcases List.mem_cons.mp hmem with rfl | hmem
      · exact Nat.le_trans (hfirst hstarts) hle
      · exact hrest literal hmem hstarts

theorem longestAt?_eq_some_iff :
    longestAt? literals text = some literal ↔ IsLongest literals text literal := by
  obtain ⟨hfound, -, hlongest⟩ := foldl_longer_spec text literals none
  have hsound {found : List Char} (h : longestAt? literals text = some found) :
      IsLongest literals text found := by
    obtain ⟨hstarts, hpositive⟩ := longestAt?_eq_some h
    unfold longestAt? at h
    rw [h] at hfound hlongest
    obtain ⟨_, hmem, hsame⟩ : ∃ l ∈ literals, some found = some l := hfound.resolve_left (by simp)
    cases hsame
    exact ⟨hmem, List.length_pos_iff.mp hpositive, hstarts, hlongest⟩
  constructor
  · exact hsound
  · intro h
    cases hr : longestAt? literals text with
    | some found => rw [h.unique (hsound hr)]
    | none =>
      -- A literal that stands there is no longer than what was found.
      have hshort := hlongest literal h.mem h.starts
      unfold longestAt? at hr
      rw [hr] at hshort
      exact absurd (List.length_eq_zero_iff.mp (Nat.le_zero.mp hshort)) h.ne_nil

theorem longestAt?_eq_none_iff : longestAt? literals text = none ↔ NoneAt literals text := by
  constructor
  · intro h other hmem hstarts
    obtain ⟨-, -, hlongest⟩ := foldl_longer_spec text literals none
    have hshort := hlongest other hmem hstarts
    unfold longestAt? at h
    rw [h] at hshort
    exact List.length_eq_zero_iff.mp (Nat.le_zero.mp hshort)
  · intro h
    cases hr : longestAt? literals text with
    | none => rfl
    | some found => exact absurd h (longestAt?_eq_some_iff.mp hr).not_noneAt

/-! ### Over a text -/

/-- Pieces that literals are marked in from the left, at each place the longest one. A piece with
`before` in front of it and `after` behind it starts where the joined text of `before` ends, and
what stands there is its own text and all that is joined behind it. -/
structure Leftmost (literals : List (List Char)) (pieces : List Piece) : Prop where
  longest : ∀ before literal after, pieces = before ++ hit literal :: after →
    IsLongest literals (literal ++ joined after) literal
  clear : ∀ before passed ahead after, pieces = before ++ plain (passed ++ ahead) :: after →
    ahead ≠ [] → NoneAt literals (ahead ++ joined after)
  ne_nil : ∀ stretch, plain stretch ∈ pieces → stretch ≠ []
  apart : ∀ before a b after, pieces ≠ before ++ plain a :: plain b :: after

theorem leftmost_nil : Leftmost literals [] where
  longest before literal after h := by simp at h
  clear before passed ahead after h := by simp at h
  ne_nil stretch h := absurd h List.not_mem_nil
  apart before a b after h := by simp at h

variable {rest : List Piece}

theorem Leftmost.tail {piece : Piece} (h : Leftmost literals (piece :: rest)) :
    Leftmost literals rest where
  longest before literal after heq := h.longest (piece :: before) literal after (by rw [heq]; rfl)
  clear before passed ahead after heq :=
    h.clear (piece :: before) passed ahead after (by rw [heq]; rfl)
  ne_nil stretch hmem := h.ne_nil stretch (List.mem_cons_of_mem piece hmem)
  apart before a b after heq := h.apart (piece :: before) a b after (by rw [heq]; rfl)

theorem leftmost_hit_iff : Leftmost literals (hit literal :: rest) ↔
    IsLongest literals (literal ++ joined rest) literal ∧ Leftmost literals rest := by
  constructor
  · intro h
    exact ⟨h.longest [] literal rest rfl, h.tail⟩
  · rintro ⟨hlongest, hrest⟩
    constructor
    · rintro (_ | ⟨p, before⟩) other after heq
      · cases heq
        exact hlongest
      · exact hrest.longest before other after (List.cons.inj heq).2
    · rintro (_ | ⟨p, before⟩) passed ahead after heq
      · cases heq
      · exact hrest.clear before passed ahead after (List.cons.inj heq).2
    · intro stretch hmem
      exact hrest.ne_nil stretch (List.mem_of_ne_of_mem (by simp) hmem)
    · rintro (_ | ⟨p, before⟩) a b after heq
      · cases heq
      · exact hrest.apart before a b after (List.cons.inj heq).2

theorem leftmost_plain_iff {stretch : List Char} : Leftmost literals (plain stretch :: rest) ↔
    stretch ≠ [] ∧
      (∀ passed ahead, stretch = passed ++ ahead → ahead ≠ [] →
        NoneAt literals (ahead ++ joined rest)) ∧
      (∀ b after, rest ≠ plain b :: after) ∧ Leftmost literals rest := by
  constructor
  · intro h
    refine ⟨h.ne_nil stretch List.mem_cons_self, ?_, ?_, h.tail⟩
    · rintro passed ahead rfl hahead
      exact h.clear [] passed ahead rest rfl hahead
    · rintro b after rfl
      exact h.apart [] stretch b after rfl
  · rintro ⟨hne, hnone, hfirst, hrest⟩
    constructor
    · rintro (_ | ⟨p, before⟩) other after heq
      · cases heq
      · exact hrest.longest before other after (List.cons.inj heq).2
    · rintro (_ | ⟨p, before⟩) passed ahead after heq hahead
      · cases heq
        exact hnone passed ahead rfl hahead
      · exact hrest.clear before passed ahead after (List.cons.inj heq).2 hahead
    · intro other hmem
      rcases List.mem_cons.mp hmem with heq | hmem
      · cases heq
        exact hne
      · exact hrest.ne_nil other hmem
    · rintro (_ | ⟨p, before⟩) a b after heq
      · exact hfirst b after (List.cons.inj heq).2
      · exact hrest.apart before a b after (List.cons.inj heq).2

/-- A character at which no literal stands goes before the pieces of what follows it. -/
theorem Leftmost.consPlain {c : Char} {pieces : List Piece} (h : Leftmost literals pieces)
    (hnone : NoneAt literals (c :: joined pieces)) : Leftmost literals (consPlain c pieces) := by
  unfold Piece.consPlain
  split
  · next stretch rest =>
    obtain ⟨-, hstretch, hfirst, hrest⟩ := leftmost_plain_iff.mp h
    refine leftmost_plain_iff.mpr ⟨List.cons_ne_nil c stretch, ?_, hfirst, hrest⟩
    rintro (_ | ⟨d, passed⟩) ahead heq hahead
    · rw [List.nil_append] at heq
      rw [← heq]
      exact hnone
    · exact hstretch passed ahead (List.cons.inj heq).2 hahead
  · next hfirst =>
    refine leftmost_plain_iff.mpr ⟨List.cons_ne_nil c [], ?_, hfirst, h⟩
    rintro (_ | ⟨d, passed⟩) ahead heq hahead
    · rw [List.nil_append] at heq
      rw [← heq]
      exact hnone
    · obtain ⟨-, rfl⟩ := List.append_eq_nil_iff.mp (List.cons.inj heq).2.symm
      exact absurd rfl hahead

/-- Pieces that begin with a plain one arise from putting its first character before others. -/
theorem Leftmost.exists_consPlain {stretch : List Char}
    (h : Leftmost literals (plain stretch :: rest)) :
    ∃ c pieces, plain stretch :: rest = Piece.consPlain c pieces ∧ Leftmost literals pieces ∧
      NoneAt literals (c :: joined pieces) := by
  obtain ⟨hne, hnone, hfirst, hrest⟩ := leftmost_plain_iff.mp h
  obtain ⟨c, more, rfl⟩ := List.exists_cons_of_ne_nil hne
  have hhere := hnone [] (c :: more) rfl hne
  cases more with
  | nil =>
    refine ⟨c, rest, ?_, hrest, hhere⟩
    unfold Piece.consPlain
    split
    · next b after => exact absurd rfl (hfirst b after)
    · rfl
  | cons d more =>
    refine ⟨c, plain (d :: more) :: rest, rfl, ?_, hhere⟩
    refine leftmost_plain_iff.mpr ⟨List.cons_ne_nil d more, ?_, hfirst, hrest⟩
    intro passed ahead heq hahead
    exact hnone (c :: passed) ahead (by rw [heq]; rfl) hahead

/-- The scan marks from the left, at each place the longest literal. -/
theorem leftmost_scan (literals : List (List Char)) (value : List Char) :
    Leftmost literals (scan literals value) := by
  fun_induction scan literals value with
  | case1 => exact leftmost_nil
  | case2 c cs literal found ih =>
    have hjoined := joined_scan literals (c :: cs)
    rw [scan, found] at hjoined
    refine leftmost_hit_iff.mpr ⟨?_, ih⟩
    have hlongest := longestAt?_eq_some_iff.mp found
    rw [← hjoined] at hlongest
    exact hlongest
  | case3 c cs hnone ih =>
    refine ih.consPlain ?_
    rw [joined_scan]
    exact longestAt?_eq_none_iff.mp hnone

/-- No other pieces of a text keep to the rule. -/
theorem Leftmost.eq_scan {pieces : List Piece} {value : List Char} (h : Leftmost literals pieces)
    (hjoined : joined pieces = value) : pieces = scan literals value := by
  fun_induction scan literals value generalizing pieces with
  | case1 =>
    cases pieces with
    | nil => rfl
    | cons p rest =>
      -- No piece is empty, so there is none.
      obtain ⟨hempty, -⟩ := List.append_eq_nil_iff.mp hjoined
      cases p with
      | plain stretch => exact absurd hempty (leftmost_plain_iff.mp h).1
      | hit literal => exact absurd hempty (leftmost_hit_iff.mp h).1.ne_nil
  | case2 c cs literal found ih =>
    have hhere := longestAt?_eq_some_iff.mp found
    cases pieces with
    | nil => cases hjoined
    | cons p rest =>
      cases p with
      | plain stretch =>
        obtain ⟨d, others, heq, -, hnone⟩ := h.exists_consPlain
        rw [heq, joined_consPlain] at hjoined
        rw [hjoined] at hnone
        exact absurd hnone hhere.not_noneAt
      | hit other =>
        obtain ⟨hother, hrest⟩ := leftmost_hit_iff.mp h
        have htext : other ++ joined rest = c :: cs := hjoined
        rw [htext] at hother
        obtain rfl := hhere.unique hother
        obtain ⟨d, more, rfl⟩ := List.exists_cons_of_ne_nil hother.ne_nil
        obtain ⟨-, rfl⟩ : d = c ∧ more ++ joined rest = cs := by simpa using htext
        have hsame := ih hrest (by simp)
        exact congrArg (hit (d :: more) :: ·) hsame
  | case3 c cs hnone ih =>
    have hhere := longestAt?_eq_none_iff.mp hnone
    cases pieces with
    | nil => cases hjoined
    | cons p rest =>
      cases p with
      | plain stretch =>
        obtain ⟨d, others, heq, hothers, -⟩ := h.exists_consPlain
        rw [heq, joined_consPlain] at hjoined
        obtain ⟨rfl, hrest⟩ := List.cons.inj hjoined
        rw [heq, ih hothers hrest]
      | hit other =>
        have hother := (leftmost_hit_iff.mp h).1
        have htext : other ++ joined rest = c :: cs := hjoined
        rw [htext] at hother
        exact absurd hhere hother.not_noneAt

/-- Of literals that overlap, the one that starts first is taken, and it hides the other one. -/
example : scan ["aba".toList, "ab".toList, "bcc".toList, []] "cabacc".toList =
    [.plain ['c'], .hit ['a', 'b', 'a'], .plain ['c', 'c']] := by cbv

end Piece

end Highlighting
