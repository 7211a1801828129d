import Highlighting.Diff.Unified

/-! Headers of hunks as they are written: two ranges between pairs of at signs, where a range that
is one line may leave out its count, and then anything. -/

namespace Highlighting

/-! ### Numbers -/

namespace Number

/-- The digits of a number, leading zeros allowed. -/
structure Shows (digits : List Char) (n : Nat) : Prop where
  nonempty : digits ≠ []
  digit : ∀ c ∈ digits, c.isDigit
  value : Nat.ofDigitChars 10 digits 0 = n

theorem shows_toDigits (n : Nat) : Shows (Nat.toDigits 10 n) n where
  nonempty := Nat.toDigits_ne_nil
  digit _ hc := Nat.isDigit_of_mem_toDigits (by decide) (by decide) hc
  value := Nat.ofDigitChars_toDigits (by decide) (by decide)

theorem Shows.zero_cons {digits : List Char} {n : Nat} (h : Shows digits n) :
    Shows ('0' :: digits) n where
  nonempty := List.cons_ne_nil _ _
  digit := List.forall_mem_cons.mpr ⟨rfl, h.digit⟩
  value := (Nat.ofDigitChars_cons ..).trans h.value

theorem le_of_isDigit {c : Char} (h : c.isDigit) : '0' ≤ c ∧ c ≤ '9' := by
  simpa [Char.isDigit, Char.le_def] using h

theorem digit?_of_isDigit {c : Char} (h : c.isDigit) :
    digit? 10 c = some (c.toNat - '0'.toNat) := by
  have hc := le_of_isDigit h
  have hlt : c.toNat - '0'.toNat < 10 := by
    have hle : c.toNat ≤ '9'.toNat := hc.2
    have hnine : '9'.toNat = '0'.toNat + 9 := rfl
    omega
  simp only [digit?, if_pos hc, Option.filter_some, decide_eq_true hlt, if_true]

theorem ofDigitsAfter?_eq {digits : List Char} (h : ∀ c ∈ digits, c.isDigit) (high : Nat) :
    ofDigitsAfter? 10 high digits = some (Nat.ofDigitChars 10 digits high) := by
  induction digits generalizing high with
  | nil => rfl
  | cons c digits ih =>
    obtain ⟨hc, hdigits⟩ := List.forall_mem_cons.mp h
    rw [ofDigitsAfter?, digit?_of_isDigit hc, Option.bind_some, ih hdigits, Nat.ofDigitChars_cons,
      Nat.mul_comm]

theorem bind_fit?_of_shows {digits : List Char} {n : UInt64} (h : Shows digits n.toNat) :
    (ofDigits? 10 digits).bind fit? = some n := by
  have hdigits : ofDigits? 10 digits = ofDigitsAfter? 10 0 digits := by
    cases digits with
    | nil => exact absurd rfl h.nonempty
    | cons => rfl
  rw [hdigits, ofDigitsAfter?_eq h.digit, h.value, Option.bind_some, fit?, if_pos n.toNat_lt_size,
    UInt64.ofNat_toNat]

theorem readUnsigned?_of_shows {digits : List Char} {n : UInt64} (h : Shows digits n.toNat) :
    readUnsigned? digits = some n := by
  unfold readUnsigned?
  split
  · have hplus := h.digit '+' List.mem_cons_self
    exact absurd hplus (by decide)
  · exact bind_fit?_of_shows h

end Number

/-! ### Ranges -/

namespace Hunk

/-- A range of lines as it is written. -/
inductive RangeText (start count : UInt64) : List Char → Prop
  | counted {first many : List Char} : Number.Shows first start.toNat →
      Number.Shows many count.toNat → RangeText start count (first ++ ',' :: many)
  | single {first : List Char} : Number.Shows first start.toNat → count = 1 →
      RangeText start count first

/-! ### Headers -/

/-- A line that is a header of the hunk: it shows the numbers of the hunk. -/
def HeaderText (h : Hunk) (line : List Char) : Prop :=
  ∃ old new suffix, RangeText h.oldStart h.oldLines old ∧ RangeText h.newStart h.newLines new ∧
    line = "@@ -".toList ++ (old ++ (" +".toList ++ (new ++ (" @@".toList ++ suffix))))

theorem isHeader_of_headerText {h : Hunk} {line : List Char} (hline : h.HeaderText line) :
    isHeader line := by
  obtain ⟨old, new, suffix, -, -, rfl⟩ := hline
  rfl

end Hunk

end Highlighting
