import Highlighting.Proofs.Diff.Accepting

/-! A unified diff is read back as the hunks it was written for. A line such as `--- a/x` is a
deleted line inside a hunk and a file header outside of one; which of the two it is hangs on the
numbers of lines that the hunk still lacks. -/

namespace Highlighting

/-! ### What a line does -/

theorem Hunk.isHeader_iff {line : List Char} : isHeader line ↔ ['@', '@'] <+: line := by
  unfold isHeader
  rw [Option.isSome_iff_exists]
  constructor
  · rintro ⟨rest, hrest⟩
    exact ⟨rest, (Text.after?_eq_some_iff.mp hrest).symm⟩
  · rintro ⟨rest, hrest⟩
    exact ⟨rest, Text.after?_eq_some_iff.mpr hrest.symm⟩

section Steps

variable {current : Option OpenHunk} {o : OpenHunk} {line : List Char}

theorem readHunks_header {h : Hunk} (hheader : Hunk.isHeader line)
    (hread : Hunk.ofHeader? line = some h) (number : Nat) (rest : List (List Char)) :
    readHunks current number (line :: rest) =
      (readHunks (some (.ofHunk h)) (number + 1) rest).map
        (current.toList.map OpenHunk.hunk ++ ·) := by
  rw [readHunks, if_pos hheader, hread]
  dsimp only
  cases readHunks (some (.ofHunk h)) (number + 1) rest <;> rfl

theorem readHunks_take (hheader : ¬ Hunk.isHeader line) (hlacks : o.lacksLines) (number : Nat)
    (rest : List (List Char)) : readHunks (some o) number (line :: rest) =
      readHunks (some (o.takeLine line)) (number + 1) rest := by
  rw [readHunks, if_neg hheader, Option.filter_some, if_pos hlacks]

theorem readHunks_skip (hheader : ¬ Hunk.isHeader line)
    (hfull : current.filter OpenHunk.lacksLines = none) (hspace : line.head? ≠ some ' ')
    (number : Nat) (rest : List (List Char)) :
    readHunks current number (line :: rest) = readHunks current (number + 1) rest := by
  rw [readHunks, if_neg hheader, hfull]
  exact if_neg hspace

theorem readHunks_malformed (hheader : Hunk.isHeader line) (hread : Hunk.ofHeader? line = none)
    (number : Nat) (rest : List (List Char)) :
    readHunks current number (line :: rest) =
      .error (.malformedHeader number (String.ofList line)) := by
  rw [readHunks, if_pos hheader, hread]

theorem readHunks_orphan (hheader : ¬ Hunk.isHeader line)
    (hfull : current.filter OpenHunk.lacksLines = none) (hspace : line.head? = some ' ')
    (number : Nat) (rest : List (List Char)) :
    readHunks current number (line :: rest) = .error (.orphanChange number) := by
  rw [readHunks, if_neg hheader, hfull]
  exact if_pos hspace

end Steps

namespace OpenHunk

theorem oldLeft_add (o : OpenHunk) (c : Change) :
    (o.add c).oldLeft = o.oldLeft - if c.kind != .insert then 1 else 0 := by
  by_cases hkind : c.kind = .insert <;> simp [add, hkind]

theorem newLeft_add (o : OpenHunk) (c : Change) :
    (o.add c).newLeft = o.newLeft - if c.kind != .delete then 1 else 0 := by
  by_cases hkind : c.kind = .delete <;> simp [add, hkind]

theorem hunk_foldl_add (cs : List Change) (o : OpenHunk) :
    (cs.foldl add o).hunk = { o.hunk with changes := o.hunk.changes ++ cs } := by
  induction cs generalizing o with
  | nil => simp
  | cons c cs ih => rw [List.foldl_cons, ih]; simp [add]

theorem oldLeft_foldl_add (cs : List Change) (o : OpenHunk) :
    (cs.foldl add o).oldLeft = o.oldLeft - cs.countP (·.kind != .insert) := by
  induction cs generalizing o with
  | nil => rfl
  | cons c cs ih => rw [List.foldl_cons, ih, oldLeft_add, List.countP_cons]; omega

theorem newLeft_foldl_add (cs : List Change) (o : OpenHunk) :
    (cs.foldl add o).newLeft = o.newLeft - cs.countP (·.kind != .delete) := by
  induction cs generalizing o with
  | nil => rfl
  | cons c cs ih => rw [List.foldl_cons, ih, newLeft_add, List.countP_cons]; omega

theorem lacksLines_iff {o : OpenHunk} : o.lacksLines ↔ 0 < o.oldLeft ∨ 0 < o.newLeft := by
  simp [lacksLines]

end OpenHunk

/-! ### The lines of a change -/

def ChangeKind.sign : ChangeKind → Char
  | insert => '+'
  | delete => '-'
  | normal => ' '

namespace Change

/-- A line for a change: its sign and its content. An empty normal line may lack the sign. -/
inductive LineText : Change → List Char → Prop
  | signed (c : Change) : LineText c (c.kind.sign :: c.content.toList)
  | blank : LineText ⟨.normal, ""⟩ []

theorem ofLine?_of_lineText {c : Change} {line : List Char} (h : LineText c line) :
    ofLine? line = some c := by
  cases h with
  | signed =>
    obtain ⟨kind, content⟩ := c
    cases kind <;> simp [ChangeKind.sign, ofLine?]
  | blank => rfl

theorem not_isHeader_of_lineText {c : Change} {line : List Char} (h : LineText c line) :
    ¬ Hunk.isHeader line := by
  cases h with
  | signed =>
    obtain ⟨kind, content⟩ := c
    cases kind <;> simp [Hunk.isHeader_iff, ChangeKind.sign]
  | blank => decide

/-- A remark on the line before it, such as that no line feed ends it. -/
def IsNote (line : List Char) : Prop := line.head? = some '\\'

instance : DecidablePred IsNote := fun line => inferInstanceAs (Decidable (line.head? = _))

theorem not_isHeader_of_isNote {line : List Char} (h : IsNote line) : ¬ Hunk.isHeader line := by
  obtain ⟨rest, rfl⟩ := List.head?_eq_some_iff.mp h
  simp [Hunk.isHeader_iff]

theorem ofLine?_of_isNote {line : List Char} (h : IsNote line) : ofLine? line = none := by
  obtain ⟨rest, rfl⟩ := List.head?_eq_some_iff.mp h
  rfl

/-- The lines for changes, with any number of notes after each of them. -/
inductive BodyText : List Change → List (List Char) → Prop
  | nil : BodyText [] []
  | cons {c : Change} {cs : List Change} {line : List Char} {notes rest : List (List Char)} :
      LineText c line → (∀ note ∈ notes, IsNote note) → BodyText cs rest →
        BodyText (c :: cs) (line :: (notes ++ rest))

theorem BodyText.cons_bare {c : Change} {cs : List Change} {line : List Char}
    {rest : List (List Char)} (hline : LineText c line) (hrest : BodyText cs rest) :
    BodyText (c :: cs) (line :: rest) := by
  have hnotes : ∀ note ∈ ([] : List (List Char)), IsNote note := by simp
  exact .cons hline hnotes hrest

end Change

open Change (BodyText LineText IsNote)

/-- A note is passed over inside of a hunk and behind it. -/
theorem readHunks_notes {notes : List (List Char)} (h : ∀ note ∈ notes, IsNote note)
    (o : OpenHunk) (number : Nat) (rest : List (List Char)) :
    readHunks (some o) number (notes ++ rest) =
      readHunks (some o) (number + notes.length) rest := by
  induction notes generalizing number with
  | nil => rfl
  | cons note notes ih =>
    obtain ⟨hnote, hnotes⟩ := List.forall_mem_cons.mp h
    have hheader := Change.not_isHeader_of_isNote hnote
    have hstep : readHunks (some o) number (note :: (notes ++ rest)) =
        readHunks (some o) (number + 1) (notes ++ rest) := by
      by_cases hlacks : o.lacksLines
      · rw [readHunks_take hheader hlacks, OpenHunk.takeLine, Change.ofLine?_of_isNote hnote]
      · refine readHunks_skip hheader ?_ ?_ number _
        · rw [Option.filter_some, if_neg hlacks]
        · rw [hnote]; decide
    rw [List.cons_append, hstep, ih hnotes, List.length_cons, Nat.add_assoc, Nat.add_comm 1]

/-- A hunk that lacks just the lines of a body takes all of it. -/
theorem readHunks_body {cs : List Change} {body : List (List Char)} (hbody : BodyText cs body)
    {o : OpenHunk} (hold : o.oldLeft = cs.countP (·.kind != .insert))
    (hnew : o.newLeft = cs.countP (·.kind != .delete)) (number : Nat) (rest : List (List Char)) :
    readHunks (some o) number (body ++ rest) =
      readHunks (some (cs.foldl .add o)) (number + body.length) rest := by
  induction hbody generalizing o number with
  | nil => rfl
  | @cons c cs line notes more hline hnotes _ ih =>
    have hlacks : o.lacksLines := by
      rw [OpenHunk.lacksLines_iff, hold, hnew, List.countP_cons, List.countP_cons]
      cases c.kind <;> simp
    have htake : o.takeLine line = o.add c := by
      rw [OpenHunk.takeLine, Change.ofLine?_of_lineText hline]
    have hold' : (o.add c).oldLeft = cs.countP (·.kind != .insert) := by
      rw [OpenHunk.oldLeft_add, hold, List.countP_cons, Nat.add_sub_cancel]
    have hnew' : (o.add c).newLeft = cs.countP (·.kind != .delete) := by
      rw [OpenHunk.newLeft_add, hnew, List.countP_cons, Nat.add_sub_cancel]
    rw [List.cons_append, readHunks_take (Change.not_isHeader_of_lineText hline) hlacks, htake,
      List.append_assoc, readHunks_notes hnotes, ih hold' hnew', List.foldl_cons]
    congr 1
    simp only [List.length_cons, List.length_append]
    omega

/-! ### Diffs -/

namespace Hunk

/-- A hunk has as many lines on each side as its header declares. -/
structure Complete (h : Hunk) : Prop where
  old : h.changes.countP (·.kind != .insert) = h.oldLines.toNat
  new : h.changes.countP (·.kind != .delete) = h.newLines.toNat

end Hunk

/-- A line that may stand outside of hunks, such as those that name the files. It may begin as a
change does that is not normal. -/
def IsAside (line : List Char) : Prop := ¬ ['@', '@'] <+: line ∧ line.head? ≠ some ' '

instance : DecidablePred IsAside := fun _ => inferInstanceAs (Decidable (_ ∧ _))

/-- The lines of a diff: of each hunk its header and its body, and other lines before, between and
behind them. -/
inductive DiffText : List Hunk → List (List Char) → Prop
  | nil {asides : List (List Char)} : (∀ line ∈ asides, IsAside line) → DiffText [] asides
  | cons {h : Hunk} {hunks : List Hunk} {asides body rest : List (List Char)} :
      (∀ line ∈ asides, IsAside line) → h.HeaderText h.header.toList → h.Complete →
        BodyText h.changes body → DiffText hunks rest →
        DiffText (h :: hunks) (asides ++ h.header.toList :: (body ++ rest))

variable {current : Option OpenHunk}

theorem readHunks_asides {asides : List (List Char)} (h : ∀ line ∈ asides, IsAside line)
    (hfull : current.filter OpenHunk.lacksLines = none) (number : Nat)
    (rest : List (List Char)) : readHunks current number (asides ++ rest) =
      readHunks current (number + asides.length) rest := by
  induction asides generalizing number with
  | nil => rfl
  | cons line asides ih =>
    obtain ⟨⟨hheader, hspace⟩, hasides⟩ := List.forall_mem_cons.mp h
    rw [List.cons_append, readHunks_skip (mt Hunk.isHeader_iff.mp hheader) hfull hspace, ih hasides,
      List.length_cons, Nat.add_assoc, Nat.add_comm 1]

/-- The lines of a diff are read as its hunks, after a hunk that has all its lines. -/
theorem readHunks_diffText {hunks : List Hunk} {lines : List (List Char)}
    (h : DiffText hunks lines) (hfull : current.filter OpenHunk.lacksLines = none) (number : Nat) :
    readHunks current number lines = .ok (current.toList.map OpenHunk.hunk ++ hunks) := by
  induction h generalizing current number with
  | @nil asides hasides =>
    have hread := readHunks_asides hasides hfull number []
    rw [List.append_nil] at hread
    rw [hread, readHunks, List.append_nil]
  | @cons h hunks asides body rest hasides hheader hcomplete hbody _ ih =>
    let empty : Hunk := { h with header := String.ofList h.header.toList, changes := [] }
    have hread : Hunk.ofHeader? h.header.toList = some empty :=
      Hunk.ofHeader?_of_headerText hheader
    have hbodyRead := readHunks_body hbody (o := .ofHunk empty) hcomplete.old.symm
      hcomplete.new.symm (number + asides.length + 1) rest
    have hwhole : (h.changes.foldl OpenHunk.add (.ofHunk empty)).hunk = h := by
      rw [OpenHunk.hunk_foldl_add]
      simp [OpenHunk.ofHunk, empty]
    have hfull' : (some (h.changes.foldl OpenHunk.add (.ofHunk empty))).filter
        OpenHunk.lacksLines = none := by
      rw [Option.filter_some, if_neg]
      rw [OpenHunk.lacksLines_iff, OpenHunk.oldLeft_foldl_add, OpenHunk.newLeft_foldl_add,
        hcomplete.old, hcomplete.new]
      simp [OpenHunk.ofHunk, empty]
    rw [readHunks_asides hasides hfull,
      readHunks_header (Hunk.isHeader_of_headerText hheader) hread, hbodyRead, ih hfull']
    simp [hwhole, Except.map]

/-! ### Texts -/

/-- No string of the hunk ends in a carriage return, which would be taken for a part of the end of
its line. -/
def Hunk.NoFinalReturn (h : Hunk) : Prop :=
  h.header.toList.getLast? ≠ some '\r' ∧ ∀ c ∈ h.changes, c.content.toList.getLast? ≠ some '\r'

instance : DecidablePred Hunk.NoFinalReturn := fun _ => inferInstanceAs (Decidable (_ ∧ _))

theorem Change.LineText.dropReturn_eq {c : Change} {line : List Char} (h : LineText c line)
    (hc : c.content.toList.getLast? ≠ some '\r') : Text.dropReturn line = line := by
  cases h with
  | blank => rfl
  | signed =>
    refine Text.dropReturn_eq_self ?_
    cases hcontent : c.content.toList with
    | nil => cases hkind : c.kind <;> simp [ChangeKind.sign]
    | cons d rest =>
      rw [List.getLast?_cons_cons, ← hcontent]
      exact hc

theorem Change.IsNote.dropReturn {line : List Char} (h : IsNote line) :
    IsNote (Text.dropReturn line) := Text.head?_dropReturn h (by decide)

theorem IsAside.dropReturn {line : List Char} (h : IsAside line) :
    IsAside (Text.dropReturn line) := by
  have hprefix := Text.dropReturn_prefix line
  refine ⟨fun hheader => h.1 (hheader.trans hprefix), fun hspace => h.2 ?_⟩
  obtain ⟨rest, hrest⟩ := List.head?_eq_some_iff.mp hspace
  obtain ⟨more, hmore⟩ := hprefix
  rw [← hmore, hrest]
  rfl

theorem Change.BodyText.map_dropReturn {cs : List Change} {body : List (List Char)}
    (h : BodyText cs body) (hcs : ∀ c ∈ cs, c.content.toList.getLast? ≠ some '\r') :
    BodyText cs (body.map Text.dropReturn) := by
  induction h with
  | nil => exact .nil
  | cons hline hnotes _ ih =>
    obtain ⟨hc, hcs⟩ := List.forall_mem_cons.mp hcs
    rw [List.map_cons, List.map_append, hline.dropReturn_eq hc]
    refine .cons hline ?_ (ih hcs)
    exact List.forall_mem_map.mpr fun note hnote => (hnotes note hnote).dropReturn

theorem DiffText.map_dropReturn {hunks : List Hunk} {lines : List (List Char)}
    (h : DiffText hunks lines) (hreturns : ∀ h ∈ hunks, h.NoFinalReturn) :
    DiffText hunks (lines.map Text.dropReturn) := by
  induction h with
  | nil hasides =>
    exact .nil (List.forall_mem_map.mpr fun line hline => (hasides line hline).dropReturn)
  | cons hasides hheader hcomplete hbody _ ih =>
    obtain ⟨⟨hfirst, hcontents⟩, hlater⟩ := List.forall_mem_cons.mp hreturns
    rw [List.map_append, List.map_cons, List.map_append, Text.dropReturn_eq_self hfirst]
    refine .cons ?_ hheader hcomplete (hbody.map_dropReturn hcontents) (ih hlater)
    exact List.forall_mem_map.mpr fun line hline => (hasides line hline).dropReturn

/-- Hunks are read back from any text that is written for them, whatever stands around them, be it
lines that begin as insertions and deletions do. -/
theorem parseDiff_diffText {hunks : List Hunk} {lines : List (List Char)}
    (written : DiffText hunks lines) (oneLine : ∀ line ∈ lines, '\n' ∉ line)
    (returns : ∀ h ∈ hunks, h.NoFinalReturn) :
    parseDiff (String.ofList (lines.flatMap (· ++ ['\n']))) = .ok hunks := by
  rw [parseDiff, String.toList_ofList, Text.lines_terminated oneLine]
  exact readHunks_diffText (written.map_dropReturn returns) rfl 1

/-- Lines that begin as file headers do are deleted and inserted in the first hunk. Its last line
stands without its sign, and a note follows the line before. The second hunk leaves out a count. -/
theorem parseDiff_diffText_lookalikes :
    let first : Hunk := ⟨"@@ -1,3 +01,3 @@ f()", 1, 3, 1, 3,
      [⟨.normal, "a"⟩, ⟨.delete, "-- a/x"⟩, ⟨.insert, "++ b/x"⟩, ⟨.normal, ""⟩]⟩
    let second : Hunk := ⟨"@@ -10 +10,0 @@", 10, 1, 10, 0, [⟨.delete, "@@ b"⟩]⟩
    let body := ([" a", "--- a/x", "+++ b/x", "\\ No newline", ""] : List String).map String.toList
    let lines := (["--- a/x", "+++ b/x"] : List String).map String.toList ++
      first.header.toList :: (body ++ ((["--- a/y", "+++ b/y"] : List String).map String.toList ++
        second.header.toList :: (["-@@ b".toList] ++ ["-- ".toList])))
    DiffText [first, second] lines ∧ (∀ line ∈ lines, '\n' ∉ line) ∧
      (∀ h ∈ [first, second], h.NoFinalReturn) ∧
        parseDiff (String.ofList (lines.flatMap (· ++ ['\n']))) = .ok [first, second] := by
  intro first second body lines
  have written : DiffText [first, second] lines := by
    have hfirst : first.HeaderText first.header.toList :=
      ⟨Nat.toDigits 10 1 ++ ',' :: Nat.toDigits 10 3,
        '0' :: Nat.toDigits 10 1 ++ ',' :: Nat.toDigits 10 3, " f()".toList,
        .counted (Number.shows_toDigits 1) (Number.shows_toDigits 3),
        .counted (Number.shows_toDigits 1).zero_cons (Number.shows_toDigits 3), by decide⟩
    have hsecond : second.HeaderText second.header.toList :=
      ⟨Nat.toDigits 10 10, Nat.toDigits 10 10 ++ ',' :: Nat.toDigits 10 0, [],
        .single (Number.shows_toDigits 10) rfl,
        .counted (Number.shows_toDigits 10) (Number.shows_toDigits 0), by decide⟩
    have hnotes : ∀ note ∈ ["\\ No newline".toList], IsNote note := by decide
    have hbody : BodyText first.changes body :=
      .cons_bare (.signed _) (.cons_bare (.signed _) (.cons (.signed _) hnotes
        (.cons_bare .blank .nil)))
    exact .cons (by decide) hfirst ⟨by decide, by decide⟩ hbody
      (.cons (by decide) hsecond ⟨by decide, by decide⟩
        (.cons_bare (.signed _) .nil) (.nil (by decide)))
  have oneLine : ∀ line ∈ lines, '\n' ∉ line := by decide
  have returns : ∀ h ∈ [first, second], h.NoFinalReturn := by decide
  exact ⟨written, oneLine, returns, parseDiff_diffText written oneLine returns⟩

end Highlighting
