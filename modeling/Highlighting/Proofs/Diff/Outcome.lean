import Mathlib.Data.List.Forall2
import Highlighting.Proofs.Diff.Offences

/-! What reading a unified diff comes to. While no line offends, the reader holds the hunk of the
last block, with the changes of as much of its body as has been read; the hunks of the blocks before
are closed. -/

namespace Highlighting

namespace OpenHunk

theorem foldl_takeLine (ls : List (List Char)) (o : OpenHunk) :
    ls.foldl takeLine o = (ls.filterMap Change.ofLine?).foldl add o := by
  rw [List.foldl_filterMap]
  congr 1
  funext o line
  unfold takeLine
  cases Change.ofLine? line <;> rfl

end OpenHunk

namespace Change

theorem kind_mem_old (c : Change) : decide (c.kind ∈ [.delete, .normal]) = (c.kind != .insert) := by
  cases c.kind <;> rfl

theorem kind_mem_new (c : Change) : decide (c.kind ∈ [.insert, .normal]) = (c.kind != .delete) := by
  cases c.kind <;> rfl

theorem eq_filterMap_of_forall₂ {cs : List Change} {ls : List (List Char)}
    (h : List.Forall₂ LineText cs (ls.filter (isLineFor [.insert, .delete, .normal]))) :
    cs = ls.filterMap ofLine? := by
  have hread := forall₂_lineText ls
  have hunique : Relator.LeftUnique LineText := by
    intro c line c' hc hc'
    have hsome := ofLine?_of_lineText hc
    rw [ofLine?_of_lineText hc'] at hsome
    exact (Option.some.inj hsome).symm
  exact List.left_unique_forall₂' hunique h hread

end Change

namespace DiffBlock

/-! ### The hunk of a block -/

/-- A block is read as a hunk: its first line as the header, and the lines of its body that stand
for changes as these changes in order. -/
structure IsReadAs (b : DiffBlock) (hunk : Hunk) : Prop where
  opened : { hunk with changes := [] }.OpenedBy b.header
  changes : List.Forall₂ Change.LineText hunk.changes
    ((b.body hunk).filter (Change.isLineFor [.insert, .delete, .normal]))

variable {b : DiffBlock} {h hunk : Hunk}

theorem isReadAs_iff (hopened : h.OpenedBy b.header) :
    b.IsReadAs hunk ↔ hunk = { h with changes := (b.body h).filterMap Change.ofLine? } := by
  constructor
  · rintro ⟨hopened', hchanges⟩
    obtain rfl := hopened.unique hopened'
    have hcs := Change.eq_filterMap_of_forall₂ hchanges
    exact congrArg (fun cs => { hunk with changes := cs }) hcs
  · rintro rfl
    obtain ⟨hheader, hnone, hform⟩ := hopened
    exact ⟨⟨hheader, rfl, hform⟩, Change.forall₂_lineText (b.body h)⟩

theorem IsReadAs.unique {hunk' : Hunk} (hread : b.IsReadAs hunk) (hread' : b.IsReadAs hunk') :
    hunk = hunk' := by
  have heq := (isReadAs_iff hread.opened).mp hread'
  rw [heq, ← (isReadAs_iff hread.opened).mp hread]

/-- The hunk that is open behind the lines of a block. -/
def taken (b : DiffBlock) (h : Hunk) : OpenHunk := (b.body h).foldl .takeLine (.ofHunk h)

theorem isReadAs_taken (hopened : h.OpenedBy b.header) : b.IsReadAs (b.taken h).hunk := by
  rw [isReadAs_iff hopened, taken, OpenHunk.foldl_takeLine, OpenHunk.hunk_foldl_add]
  simp [OpenHunk.ofHunk, hopened.2.1]

theorem lacksLines_taken_iff : (b.taken h).lacksLines ↔ ¬ h.Filled (b.body h) := by
  rw [OpenHunk.lacksLines_iff, taken, OpenHunk.foldl_takeLine, OpenHunk.oldLeft_foldl_add,
    OpenHunk.newLeft_foldl_add, Hunk.Filled, Change.countP_isLineFor (by decide),
    Change.countP_isLineFor (by decide)]
  simp only [Change.kind_mem_old, Change.kind_mem_new, OpenHunk.ofHunk]
  omega

theorem taken_extend_of_filled (hfilled : h.Filled (b.body h)) (line : List Char) :
    (b.extend line).taken h = b.taken h := by
  rw [taken, body_extend_of_filled hfilled, taken]

theorem taken_extend_of_not_filled (hfilled : ¬ h.Filled (b.body h)) (line : List Char) :
    (b.extend line).taken h = (b.taken h).takeLine line := by
  rw [taken, body_extend_of_not_filled hfilled, taken, ← body_eq_later hfilled, List.foldl_append]
  rfl

theorem taken_of_later_eq_nil (hlater : b.later = []) : b.taken h = .ofHunk h := by
  have hbody : b.body h = [] := List.prefix_nil.mp (hlater ▸ b.body_prefix h)
  rw [taken, hbody, List.foldl_nil]

/-! ### One line -/

/-- What the reader holds behind lines of which none offends: the hunks that it has closed, and the
open one. -/
inductive ReadTo (before : List (List Char)) : List Hunk → Option OpenHunk → Prop
  | preamble : cut before = [] → ReadTo before [] none
  | block {init : List DiffBlock} {b : DiffBlock} {h : Hunk} {closed : List Hunk} :
      cut before = init ++ [b] → List.Forall₂ IsReadAs init closed → h.OpenedBy b.header →
        ReadTo before closed (some (b.taken h))

variable {before : List (List Char)} {closed : List Hunk} {current : Option OpenHunk}
  {line : List Char}

/-- The hunks behind the last line, the open one among them, are those of the blocks. -/
theorem ReadTo.forall₂ (hread : ReadTo before closed current) :
    List.Forall₂ IsReadAs (cut before) (closed ++ current.toList.map OpenHunk.hunk) := by
  cases hread with
  | preamble hcut =>
    rw [hcut]
    exact .nil
  | block hcut hinit hopened =>
    rw [hcut]
    exact List.rel_append hinit (.cons (isReadAs_taken hopened) .nil)

/-- What one line comes to where none before it offends: it offends and is reported, or it is read
and the reader goes on behind it. -/
inductive Advance (before : List (List Char)) (closed : List Hunk) (current : Option OpenHunk)
    (line : List Char) (rest : List (List Char)) : Prop
  | fails {fault : DiffFault} : Offends before line fault →
      readHunks current (before.length + 1) (line :: rest) = .error fault →
        Advance before closed current line rest
  | reads {closed' : List Hunk} {current' : Option OpenHunk} :
      ReadTo (before ++ [line]) closed' current' → WellFormed (before ++ [line]) →
        (readHunks current (before.length + 1) (line :: rest)).map (closed ++ ·) =
            (readHunks current' (before.length + 1 + 1) rest).map (closed' ++ ·) →
          Advance before closed current line rest

/-- A line at which a block begins closes the hunk before it, unless it is no header. -/
theorem ReadTo.advance_of_opens (hread : ReadTo before closed current) (hwell : WellFormed before)
    (hopens : Opens line) (rest : List (List Char)) : Advance before closed current line rest := by
  have hheader : Hunk.isHeader line := Hunk.isHeader_iff.mpr hopens
  cases hline : Hunk.ofHeader? line with
  | none =>
    have hnone (h : Hunk) : ¬ h.OpenedBy line := by
      rw [← Hunk.ofHeader?_eq_some_iff, hline]
      simp
    exact .fails (.header hopens hnone) (readHunks_malformed hheader hline _ rest)
  | some h =>
    have hopened : h.OpenedBy line := Hunk.openedBy_of_ofHeader? hline
    have hnext : ReadTo (before ++ [line]) (closed ++ current.toList.map OpenHunk.hunk)
        (some (taken ⟨line, []⟩ h)) :=
      .block (cut_append_of_opens hopens before) hread.forall₂ hopened
    rw [taken_of_later_eq_nil rfl] at hnext
    refine .reads hnext ((wellFormed_append_of_opens hopens).mpr ⟨hwell, h, hopened⟩) ?_
    rw [readHunks_header hheader hline]
    cases readHunks (some (.ofHunk h)) (before.length + 1 + 1) rest with
    | error fault => rfl
    | ok later => simp [Except.map]

/-- Outside of all hunks a line is passed over, unless it begins with a space. -/
theorem advance_of_outside (hplain : ¬ Opens line) (houtside : Outside before)
    (hfull : current.filter OpenHunk.lacksLines = none)
    (hnext : line.head? ≠ some ' ' →
      ReadTo (before ++ [line]) closed current ∧ WellFormed (before ++ [line]))
    (rest : List (List Char)) : Advance before closed current line rest := by
  have hheader : ¬ Hunk.isHeader line := mt Hunk.isHeader_iff.mp hplain
  by_cases hspace : line.head? = some ' '
  · exact .fails (.orphan hspace houtside) (readHunks_orphan hheader hfull hspace _ rest)
  · obtain ⟨hread, hwell⟩ := hnext hspace
    refine .reads hread hwell ?_
    rw [readHunks_skip hheader hfull hspace]

/-- A line that does not offend is read, and one that does is reported. -/
theorem ReadTo.advance (hread : ReadTo before closed current) (hwell : WellFormed before)
    (line : List Char) (rest : List (List Char)) : Advance before closed current line rest := by
  by_cases hopens : Opens line
  · exact hread.advance_of_opens hwell hopens rest
  · cases hread with
    | preamble hcut =>
      refine advance_of_outside hopens (.preamble hcut) rfl (fun hspace => ?_) rest
      exact ⟨.preamble (cut_append_eq_nil hopens hcut),
        (wellFormed_append_of_cut_eq_nil hopens hcut).mpr ⟨hwell, hspace⟩⟩
    | @block init b h closed hcut hinit hopened =>
      have hnext : ReadTo (before ++ [line]) closed (some ((b.extend line).taken h)) :=
        .block (cut_append_of_not_opens hopens hcut) hinit hopened
      have hwell' := (wellFormed_append_of_not_opens hopens hcut).mpr
      by_cases hfilled : h.Filled (b.body h)
      · have hfull : (some (b.taken h)).filter OpenHunk.lacksLines = none := by
          rw [Option.filter_some, if_neg]
          rw [lacksLines_taken_iff]
          exact not_not_intro hfilled
        rw [taken_extend_of_filled hfilled] at hnext
        refine
          advance_of_outside hopens (.behind hcut hopened hfilled) hfull (fun hspace => ?_) rest
        exact ⟨hnext, hwell' ⟨hwell, fun _ _ _ => hspace⟩⟩
      · rw [taken_extend_of_not_filled hfilled] at hnext
        refine .reads hnext (hwell' ⟨hwell, ?_⟩) ?_
        · intro h' hopened' hfilled'
          obtain rfl := hopened'.unique hopened
          exact absurd hfilled' hfilled
        · rw [readHunks_take (mt Hunk.isHeader_iff.mp hopens) (lacksLines_taken_iff.mpr hfilled)]

/-! ### All lines -/

/-- What a diff comes to: the hunks of its blocks if no line offends, else the fault of the first
line that does. -/
inductive Outcome (ls : List (List Char)) : Except DiffFault (List Hunk) → Prop
  | read {hunks : List Hunk} : WellFormed ls → List.Forall₂ IsReadAs (cut ls) hunks →
      Outcome ls (.ok hunks)
  | fault {before : List (List Char)} {line : List Char} {after : List (List Char)}
      {fault : DiffFault} : ls = before ++ line :: after → WellFormed before →
        Offends before line fault → Outcome ls (.error fault)

theorem ReadTo.outcome (hread : ReadTo before closed current) (hwell : WellFormed before)
    (rest : List (List Char)) :
    Outcome (before ++ rest) ((readHunks current (before.length + 1) rest).map (closed ++ ·)) := by
  induction rest generalizing before closed current with
  | nil =>
    rw [List.append_nil]
    exact .read hwell hread.forall₂
  | cons line rest ih =>
    cases hread.advance hwell line rest with
    | fails hoffends hfault =>
      rw [hfault]
      exact .fault rfl hwell hoffends
    | reads hread' hwell' hstep =>
      have hrest := ih hread' hwell'
      rw [List.append_assoc, List.length_append, List.length_singleton] at hrest
      rw [hstep]
      exact hrest

theorem outcome_parseDiff (text : String) :
    Outcome (Text.lines text.toList) (parseDiff text) := by
  have hrun := (ReadTo.preamble rfl).outcome wellFormed_nil (Text.lines text.toList)
  have hnone : (parseDiff text).map ([] ++ ·) = parseDiff text := by
    cases parseDiff text <;> rfl
  rw [← hnone]
  exact hrun

variable {ls after : List (List Char)} {fault : DiffFault}

theorem WellFormed.not_offends (hwell : WellFormed ls) (heq : ls = before ++ line :: after) :
    ¬ Offends before line fault := by
  have hparts : ls = before ++ [line] ++ after := by simp [heq]
  rw [hparts] at hwell
  exact (wellFormed_append_singleton_iff.mp hwell.of_append).2 fault

/-- The lines before one that offends do not reach beyond another. -/
theorem eq_nil_of_offends {between more : List (List Char)} (hoffends : Offends before line fault)
    (hwell : WellFormed (before ++ between)) (heq : line :: after = between ++ more) :
    between = [] := by
  cases between with
  | nil => rfl
  | cons first between =>
    obtain ⟨rfl, -⟩ := List.cons.inj heq
    exact absurd hoffends (hwell.not_offends rfl)

theorem Outcome.unique {outcome outcome' : Except DiffFault (List Hunk)}
    (h : Outcome ls outcome) (h' : Outcome ls outcome') : outcome = outcome' := by
  cases h with
  | read hwell hhunks =>
    cases h' with
    | read hwell' hhunks' =>
      have hunique : Relator.RightUnique IsReadAs := fun _ _ _ hread hread' => hread.unique hread'
      rw [List.right_unique_forall₂' hunique hhunks hhunks']
    | fault heq _ hoffends => exact absurd hoffends (hwell.not_offends heq)
  | fault heq hwell hoffends =>
    cases h' with
    | read hwell' => exact absurd hoffends (hwell'.not_offends heq)
    | fault heq' hwell' hoffends' =>
      rcases List.append_eq_append_iff.mp (heq.symm.trans heq') with
        ⟨between, rfl, hlines⟩ | ⟨between, rfl, hlines⟩
      · obtain rfl := eq_nil_of_offends hoffends hwell' hlines
        obtain ⟨rfl, -⟩ := List.cons.inj hlines
        rw [List.append_nil] at hoffends'
        rw [hoffends.unique hoffends']
      · obtain rfl := eq_nil_of_offends hoffends' hwell hlines
        obtain ⟨rfl, -⟩ := List.cons.inj hlines
        rw [List.append_nil] at hoffends
        rw [hoffends.unique hoffends']

theorem parseDiff_eq_iff {text : String} {outcome : Except DiffFault (List Hunk)} :
    parseDiff text = outcome ↔ Outcome (Text.lines text.toList) outcome := by
  constructor
  · rintro rfl
    exact outcome_parseDiff text
  · exact fun h => (outcome_parseDiff text).unique h

/-- A diff is read if and only if each of its blocks begins with a header and no line that begins
with a space stands before the first block or behind the body of one. It is read as one hunk for
each block, in order, with the lines of the body that stand for changes. Any other diff fails with
the first line that offends: a line that should be a header, or one that begins with a space where
no hunk takes it. -/
theorem parseDiff_outcome (text : String) :
    let ls := Text.lines text.toList
    ((∃ hunks, parseDiff text = .ok hunks) ↔ WellFormed ls) ∧
      (∀ hunks, parseDiff text = .ok hunks ↔
        WellFormed ls ∧ List.Forall₂ IsReadAs (cut ls) hunks) ∧
      ∀ fault, parseDiff text = .error fault ↔ ∃ before line after,
        ls = before ++ line :: after ∧ WellFormed before ∧ Offends before line fault := by
  intro ls
  refine ⟨⟨?_, ?_⟩, ?_, ?_⟩
  · rintro ⟨hunks, hok⟩
    cases parseDiff_eq_iff.mp hok with
    | read hwell => exact hwell
  · intro hwell
    cases hparse : parseDiff text with
    | ok hunks => exact ⟨hunks, rfl⟩
    | error fault =>
      cases parseDiff_eq_iff.mp hparse with
      | fault heq _ hoffends => exact absurd hoffends (hwell.not_offends heq)
  · intro hunks
    rw [parseDiff_eq_iff]
    constructor
    · rintro ⟨hwell, hhunks⟩
      exact ⟨hwell, hhunks⟩
    · rintro ⟨hwell, hhunks⟩
      exact .read hwell hhunks
  · intro fault
    rw [parseDiff_eq_iff]
    constructor
    · rintro (_ | ⟨heq, hwell, hoffends⟩)
      exact ⟨_, _, _, heq, hwell, hoffends⟩
    · rintro ⟨before, line, after, heq, hwell, hoffends⟩
      exact .fault heq hwell hoffends

/-- A line that begins with a space behind the body of a block. -/
example : parseDiff "@@ -1 +1 @@\n-a\n+b\n c\n" = .error (.orphanChange 4) := by cbv

end DiffBlock

end Highlighting
