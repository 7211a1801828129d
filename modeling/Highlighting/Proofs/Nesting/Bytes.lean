import Highlighting.Text.Utf8

/-! Where a text can be cut. A boundary is a position between characters, and a slice between two
boundaries is a stretch of the text; other slices do not exist. -/

namespace Highlighting.Text

theorem isBoundary_iff {text : List Char} {n : Nat} :
    isBoundary text n = true ↔ ∃ a b, text = a ++ b ∧ byteLength a = n := by
  unfold isBoundary
  rw [beq_iff_eq]
  constructor
  · intro h
    exact ⟨_, _, (splitAtByte_append n text).symm, h⟩
  · rintro ⟨a, b, rfl, rfl⟩
    rw [splitAtByte_byteLength]

theorem eq_nil_of_byteLength_eq_zero {cs : List Char} (h : byteLength cs = 0) : cs = [] := by
  cases cs with
  | nil => rfl
  | cons c cs =>
    have hc := c.utf8Size_pos
    have hsum : c.utf8Size + byteLength cs = 0 := h
    omega

theorem byteLength_pos {cs : List Char} (h : cs ≠ []) : 0 < byteLength cs :=
  Nat.pos_of_ne_zero fun hzero => h (eq_nil_of_byteLength_eq_zero hzero)

/-- Of two beginnings of a text the one with fewer bytes is a beginning of the other. -/
theorem prefix_of_byteLength_le {a b text : List Char} (ha : a <+: text) (hb : b <+: text)
    (h : byteLength a ≤ byteLength b) : a <+: b := by
  rcases List.prefix_or_prefix_of_prefix ha hb with hab | ⟨e, rfl⟩
  · exact hab
  · have he : e = [] := eq_nil_of_byteLength_eq_zero (by rw [byteLength_append] at h; omega)
    simp [he]

/-- The stretch `part` stands in a text from byte `start` on. -/
def StandsAt (text : List Char) (start : Nat) (part : List Char) : Prop :=
  ∃ before after, text = before ++ part ++ after ∧ byteLength before = start

theorem standsAt_zero (text : List Char) : StandsAt text 0 text := ⟨[], [], by simp, rfl⟩

theorem standsAt_of_prefix {text front behind part : List Char} (htext : front ++ behind = text)
    (h : part <+: behind) : StandsAt text (byteLength front) part := by
  obtain ⟨after, rfl⟩ := h
  exact ⟨front, after, by rw [← htext, List.append_assoc], rfl⟩

/-- A stretch falls into two at a boundary between its ends. -/
theorem StandsAt.split {text part : List Char} {start n : Nat} (h : StandsAt text start part)
    (hn : isBoundary text n = true) (hstart : start ≤ n) (hstop : n ≤ start + byteLength part) :
    ∃ a b, splitAtByte (n - start) part = (a, b) ∧ part = a ++ b ∧ start + byteLength a = n ∧
      StandsAt text start a ∧ StandsAt text n b := by
  obtain ⟨before, after, rfl, rfl⟩ := h
  obtain ⟨p, q, htext, rfl⟩ := isBoundary_iff.mp hn
  have hp : p <+: before ++ part ++ after := ⟨q, htext.symm⟩
  have hbefore : before <+: before ++ part ++ after := ⟨part ++ after, by simp⟩
  have hpart : before ++ part <+: before ++ part ++ after := ⟨after, rfl⟩
  obtain ⟨a, rfl⟩ := prefix_of_byteLength_le hbefore hp hstart
  obtain ⟨b, hb⟩ := prefix_of_byteLength_le hp hpart (by rw [byteLength_append before part]; omega)
  obtain rfl : a ++ b = part := by simpa using hb
  have hlength : byteLength (before ++ a) - byteLength before = byteLength a := by
    rw [byteLength_append]; omega
  refine ⟨a, b, ?_, rfl, (byteLength_append before a).symm, ?_, ?_⟩
  · rw [hlength, splitAtByte_byteLength]
  · exact ⟨before, b ++ after, by simp, rfl⟩
  · exact ⟨before ++ a, after, by simp, rfl⟩

/-- The characters from byte `start` to before byte `stop`. -/
def slice (text : List Char) (start stop : Nat) : List Char :=
  (splitAtByte (stop - start) (splitAtByte start text).2).1

/-- The slice between two bytes. There is none unless both are boundaries of the text, in this
order. -/
def slice? (text : List Char) (start stop : Nat) : Option (List Char) :=
  if start ≤ stop ∧ isBoundary text start ∧ isBoundary text stop then some (slice text start stop)
  else none

theorem StandsAt.slice_eq {text part : List Char} {start : Nat} (h : StandsAt text start part) :
    slice text start (start + byteLength part) = part := by
  obtain ⟨before, after, rfl, rfl⟩ := h
  unfold slice
  rw [List.append_assoc, splitAtByte_byteLength, Nat.add_sub_cancel_left, splitAtByte_byteLength]

theorem le_byteLength_of_isBoundary {text : List Char} {n : Nat} (h : isBoundary text n = true) :
    n ≤ byteLength text := by
  obtain ⟨a, b, rfl, rfl⟩ := isBoundary_iff.mp h
  rw [byteLength_append]
  omega

theorem isBoundary_byteLength (text : List Char) : isBoundary text (byteLength text) = true :=
  isBoundary_iff.mpr ⟨text, [], by simp, rfl⟩

/-- Between two boundaries a slice stands where it says, with as many bytes. -/
theorem standsAt_slice {text : List Char} {start stop : Nat} (hstart : isBoundary text start = true)
    (hstop : isBoundary text stop = true) (h : start ≤ stop) :
    StandsAt text start (slice text start stop) ∧
      start + byteLength (slice text start stop) = stop := by
  obtain ⟨before, later, htext, rfl⟩ := isBoundary_iff.mp hstart
  obtain ⟨upto, after, rfl, rfl⟩ := isBoundary_iff.mp hstop
  obtain ⟨part, rfl⟩ := prefix_of_byteLength_le ⟨later, htext.symm⟩ ⟨after, rfl⟩ h
  have stands : StandsAt (before ++ part ++ after) (byteLength before) part :=
    ⟨before, after, rfl, rfl⟩
  rw [byteLength_append, stands.slice_eq]
  exact ⟨stands, rfl⟩

theorem slice?_eq_some {text : List Char} {start stop : Nat} (hstart : isBoundary text start = true)
    (hstop : isBoundary text stop = true) (h : start ≤ stop) :
    slice? text start stop = some (slice text start stop) := if_pos ⟨h, hstart, hstop⟩

end Highlighting.Text
