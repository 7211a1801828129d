import Mathlib
import Highlighting.Mark.Replacement
import Highlighting.Proofs.Marking.Earliest
import Highlighting.Proofs.Text.Finding

/-! A plain rendering applies its replacements in turn. What the turn of a replacement does is said
of the segments before and after it: segments that are replaced stay, and in plain text the literal
gives way to its node, from the left, everywhere or once. Whatever is rendered, the text stays, and
a literal that was replaced everywhere is left in no plain segment. -/

namespace Highlighting

namespace Piece

variable {literals : List (List Char)} {pieces : List Piece} {literal stretch : List Char}

theorem Leftmost.mem_of_hit (h : Leftmost literals pieces) (hmem : hit literal ∈ pieces) :
    literal ∈ literals := by
  obtain ⟨before, after, heq⟩ := List.append_of_mem hmem
  exact (h.longest before literal after heq).mem

theorem Leftmost.not_infix (h : Leftmost literals pieces) (hmem : plain stretch ∈ pieces)
    (hliteral : literal ∈ literals) (hne : literal ≠ []) : ¬ literal <:+: stretch := by
  rintro ⟨passed, ahead, rfl⟩
  obtain ⟨before, after, heq⟩ := List.append_of_mem hmem
  rw [List.append_assoc] at heq
  have hnone := h.clear before passed (literal ++ ahead) after heq (by simp [hne])
  refine hne (hnone literal hliteral ?_)
  rw [List.append_assoc]
  exact List.prefix_append literal _

theorem infix_joined {piece : Piece} (hmem : piece ∈ pieces) : piece.text <:+: joined pieces := by
  obtain ⟨before, after, rfl⟩ := List.append_of_mem hmem
  exact ⟨joined before, joined after, by simp [joined]⟩

end Piece

namespace Segment

/-- Plain text that is empty. -/
def isEmpty : Segment → Bool
  | plain text => text.isEmpty
  | replaced _ => false

/-- Plain text with a literal in it. -/
def Holds (literal : List Char) : Segment → Prop
  | plain text => literal <:+: text
  | replaced _ => False

variable {literal : List Char} {node : Node} {s t : List Segment}

/-! ### The turn of a replacement -/

def ofPiece (node : Node) : Piece → Segment
  | .plain text => plain text
  | .hit _ => replaced node

/-- A literal gives way to a node wherever it stands in plain text, taken from the left. -/
inductive Everywhere (literal : List Char) (node : Node) : List Segment → List Segment → Prop
  | nil : Everywhere literal node [] []
  | replaced {n : Node} {s t : List Segment} : Everywhere literal node s t →
      Everywhere literal node (replaced n :: s) (replaced n :: t)
  | plain {pieces : List Piece} {s t : List Segment} : Piece.Leftmost [literal] pieces →
      Everywhere literal node s t →
        Everywhere literal node (plain (Piece.joined pieces) :: s) (pieces.map (ofPiece node) ++ t)

/-- A literal gives way to a node where it stands first in plain text. -/
inductive Once (literal : List Char) (node : Node) : List Segment → List Segment → Prop
  | absent {s : List Segment} : (∀ segment ∈ s, ¬ segment.Holds literal) →
      Once literal node s (s.filter (! ·.isEmpty))
  | found {front back : List Segment} {before after : List Char} :
      (∀ segment ∈ front, ¬ segment.Holds literal) → Text.FoundBehind literal before →
        Once literal node (front ++ plain (before ++ (literal ++ after)) :: back)
          ((front ++ [plain before, replaced node, plain after]).filter (! ·.isEmpty) ++ back)

/-- What the turn of a replacement makes of segments. -/
def Turn (r : Replacement) (s t : List Segment) : Prop :=
  if r.literal = "" then t = s
  else if r.everywhere then Everywhere r.literal.toList r.node s t
  else Once r.literal.toList r.node s t

/-- What replacements make of segments, one after the other. -/
inductive Turns : List Replacement → List Segment → List Segment → Prop
  | nil {s : List Segment} : Turns [] s s
  | cons {r : Replacement} {rest : List Replacement} {s t u : List Segment} :
      Turn r s t → Turns rest t u → Turns (r :: rest) s u

/-! ### How a turn is made -/

def replaceEvery (literal : List Char) (node : Node) (segments : List Segment) : List Segment :=
  segments.flatMap fun
    | plain text => (Piece.scan [literal] text).map (ofPiece node)
    | replaced n => [replaced n]

/-- Replaces the first occurrence of a literal in the first plain segment that has one. -/
def replaceFirst (literal : List Char) (node : Node) : List Segment → List Segment
  | [] => []
  | replaced n :: rest => replaced n :: replaceFirst literal node rest
  | plain text :: rest =>
    match Text.splitFirst? literal text with
    | some (before, after) => ofText before ++ replaced node :: (ofText after ++ rest)
    | none => ofText text ++ replaceFirst literal node rest

theorem everywhere_iff : Everywhere literal node s t ↔ t = replaceEvery literal node s := by
  constructor
  · intro h
    induction h with
    | nil => rfl
    | replaced _ ih =>
      rw [ih]
      rfl
    | @plain pieces s t hleftmost _ ih =>
      have hscan : Piece.scan [literal] (Piece.joined pieces) = pieces :=
        (hleftmost.eq_scan rfl).symm
      simp only [replaceEvery, List.flatMap_cons, hscan, ih]
  · rintro rfl
    induction s with
    | nil => exact .nil
    | cons first s ih =>
      cases first with
      | replaced n => exact .replaced ih
      | plain text =>
        have hturn := Everywhere.plain (Piece.leftmost_scan [literal] text) ih
        rw [Piece.joined_scan] at hturn
        exact hturn

theorem ofText_eq (text : List Char) : ofText text = [plain text].filter (! ·.isEmpty) := by
  cases text <;> rfl

/-- Segments without the literal stay. -/
theorem replaceFirst_append {front : List Segment}
    (h : ∀ segment ∈ front, ¬ segment.Holds literal) (rest : List Segment) :
    replaceFirst literal node (front ++ rest) =
      front.filter (! ·.isEmpty) ++ replaceFirst literal node rest := by
  induction front with
  | nil => rfl
  | cons first front ih =>
    obtain ⟨hfirst, hfront⟩ := List.forall_mem_cons.mp h
    cases first with
    | replaced n => simp [replaceFirst, ih hfront, isEmpty]
    | plain text =>
      have hnone : Text.splitFirst? literal text = none := Text.splitFirst?_eq_none hfirst
      rw [List.cons_append, replaceFirst, hnone, ← List.singleton_append, List.filter_append]
      simp only
      rw [ofText_eq, ih hfront, List.append_assoc]

theorem replaceFirst_absent (h : ∀ segment ∈ s, ¬ segment.Holds literal) :
    replaceFirst literal node s = s.filter (! ·.isEmpty) := by
  have hall : replaceFirst literal node (s ++ []) = _ := replaceFirst_append h []
  rwa [List.append_nil, replaceFirst, List.append_nil] at hall

theorem replaceFirst_cons {before after : List Char} (hne : literal ≠ [])
    (h : Text.FoundBehind literal before) (rest : List Segment) :
    replaceFirst literal node (plain (before ++ (literal ++ after)) :: rest) =
      [plain before, replaced node, plain after].filter (! ·.isEmpty) ++ rest := by
  rw [replaceFirst, (Text.splitFirst?_eq_some_iff hne).mpr ⟨rfl, h⟩]
  simp only
  cases before <;> cases after <;> rfl

theorem once_iff (hne : literal ≠ []) :
    Once literal node s t ↔ t = replaceFirst literal node s := by
  constructor
  · intro h
    cases h with
    | absent habsent =>
      exact (replaceFirst_absent habsent).symm
    | found hfront hfound =>
      rw [replaceFirst_append hfront, replaceFirst_cons hne hfound, List.filter_append,
        List.append_assoc]
  · rintro rfl
    classical
    cases hfind : s.find? fun segment => decide (segment.Holds literal) with
    | none =>
      have habsent : ∀ segment ∈ s, ¬ segment.Holds literal := by
        simpa using List.find?_eq_none.mp hfind
      rw [replaceFirst_absent habsent]
      exact .absent habsent
    | some segment =>
      obtain ⟨hholds, front, back, rfl, hfront⟩ := List.find?_eq_some_iff_append.mp hfind
      have hfree : ∀ segment ∈ front, ¬ segment.Holds literal := by simpa using hfront
      have hholds : segment.Holds literal := of_decide_eq_true hholds
      cases segment with
      | replaced n => exact absurd hholds id
      | plain text =>
        obtain ⟨before, after, hsplit⟩ := Text.exists_of_infix hholds
        obtain ⟨rfl, hfound⟩ := (Text.splitFirst?_eq_some_iff hne).mp hsplit
        have hturn : Once literal node (front ++ plain (before ++ (literal ++ after)) :: back) _ :=
          .found hfree hfound
        rw [List.filter_append, List.append_assoc] at hturn
        rw [replaceFirst_append hfree, replaceFirst_cons hne hfound]
        exact hturn

section Loop

variable {r : Replacement} {needle : Needle}

theorem map_ofText (node : Node) (text : List Char) :
    (Piece.ofText text).map (ofPiece node) = ofText text := by
  cases text <;> rfl

theorem replaceIn_everywhere (h : r.everywhere = true) (once : Bool) (text : List Char) :
    (replaceIn r needle once text).1 = (Piece.scan [needle.1] text).map (ofPiece r.node) := by
  rw [← Piece.cut_singleton_eq_scan]
  fun_induction replaceIn r needle once text with
  | case1 once text before after hsplit hdone =>
    rw [h, Bool.not_true, Bool.and_false] at hdone
    cases hdone
  | case2 once text before after hsplit _ rest once' hrest ih =>
    rw [hrest] at ih
    rw [Piece.cut_of_splitFirst? hsplit, List.map_append, map_ofText, List.map_cons, ← ih]
    rfl
  | case3 once text hsplit => rw [Piece.cut_of_absent hsplit, map_ofText]

theorem replaceFrom_everywhere (h : r.everywhere = true) (once : Bool) (s : List Segment) :
    replaceFrom r needle once s = replaceEvery needle.1 r.node s := by
  induction s generalizing once with
  | nil => rfl
  | cons first s ih =>
    cases first with
    | replaced n => exact congrArg (replaced n :: ·) (ih once)
    | plain text =>
      rw [replaceFrom, h, Bool.not_true, Bool.and_false, if_neg Bool.false_ne_true]
      dsimp only
      rw [replaceIn_everywhere h, ih]
      rfl

/-- A literal that was replaced is not replaced again. -/
theorem replaceIn_true (h : r.everywhere = false) (text : List Char) :
    replaceIn r needle true text = (ofText text, true) := by
  rw [replaceIn]
  split
  · rw [h]
    rfl
  · rfl

theorem replaceIn_of_absent {text : List Char} (h : Text.splitFirst? needle.1 text = none)
    (once : Bool) : replaceIn r needle once text = (ofText text, once) := by
  rw [replaceIn]
  split
  · next hsome =>
    rw [h] at hsome
    cases hsome
  · rfl

theorem replaceIn_false_of_found (h : r.everywhere = false) {text before after : List Char}
    (hfound : Text.splitFirst? needle.1 text = some (before, after)) :
    replaceIn r needle false text = (ofText before ++ replaced r.node :: ofText after, true) := by
  rw [replaceIn]
  split
  · next hsome =>
    rw [hfound] at hsome
    cases hsome
    rw [replaceIn_true h]
    rfl
  · next hnone =>
    rw [hfound] at hnone
    cases hnone

theorem replaceFrom_true (h : r.everywhere = false) (s : List Segment) :
    replaceFrom r needle true s = s := by
  induction s with
  | nil => rfl
  | cons first s ih =>
    cases first with
    | replaced n => exact congrArg (replaced n :: ·) ih
    | plain text =>
      rw [replaceFrom, h, Bool.not_false, Bool.and_true, if_pos rfl, ih]

theorem replaceFrom_false (h : r.everywhere = false) (s : List Segment) :
    replaceFrom r needle false s = replaceFirst needle.1 r.node s := by
  induction s with
  | nil => rfl
  | cons first s ih =>
    cases first with
    | replaced n => exact congrArg (replaced n :: ·) ih
    | plain text =>
      rw [replaceFrom, Bool.false_and, if_neg Bool.false_ne_true, replaceFirst]
      cases hsplit : Text.splitFirst? needle.1 text with
      | none =>
        rw [replaceIn_of_absent hsplit]
        exact congrArg (ofText text ++ ·) ih
      | some found =>
        rw [replaceIn_false_of_found h hsplit]
        dsimp only
        rw [replaceFrom_true h, List.append_assoc, List.cons_append]

end Loop

theorem turn_iff {r : Replacement} : Turn r s t ↔ t = apply s r := by
  unfold Turn apply
  by_cases hempty : r.literal = ""
  · simp [hempty]
  · have hne : r.literal.toList ≠ [] := by simpa using hempty
    rw [if_neg hempty, dif_neg hne]
    split
    · next heverywhere =>
      rw [replaceFrom_everywhere heverywhere]
      exact everywhere_iff
    · next honce =>
      rw [replaceFrom_false (Bool.eq_false_iff.mpr honce)]
      exact once_iff hne

theorem turns_iff {replacements : List Replacement} :
    Turns replacements s t ↔ t = replacements.foldl apply s := by
  induction replacements generalizing s with
  | nil =>
    constructor
    · rintro ⟨⟩
      rfl
    · rintro rfl
      exact .nil
  | cons r rest ih =>
    constructor
    · rintro (_ | ⟨hturn, hrest⟩)
      rw [ih.mp hrest, turn_iff.mp hturn]
      rfl
    · rintro rfl
      exact .cons (turn_iff.mpr rfl) (ih.mpr rfl)

/-! ### What a turn keeps -/

/-- The text that a segment stands for. -/
def text : Segment → List Char
  | plain text => text
  | replaced node => node.content.toList

/-- The texts of segments, joined. -/
def joined (segments : List Segment) : List Char := segments.flatMap text

@[simp] theorem joined_append (s t : List Segment) : joined (s ++ t) = joined s ++ joined t :=
  List.flatMap_append

theorem joined_filter (s : List Segment) : joined (s.filter (! ·.isEmpty)) = joined s := by
  induction s with
  | nil => rfl
  | cons first s ih =>
    have hcons : joined (first :: s) = first.text ++ joined s := rfl
    rw [List.filter_cons, hcons]
    cases first with
    | replaced n => exact congrArg ((replaced n).text ++ ·) ih
    | plain text =>
      cases text with
      | nil => exact ih
      | cons c cs => exact congrArg ((c :: cs) ++ ·) ih

/-- A node that stands for a literal leaves the text as it is. -/
theorem Everywhere.joined_eq (h : Everywhere literal node s t)
    (hnode : node.content.toList = literal) : joined t = joined s := by
  induction h with
  | nil => rfl
  | @replaced n s t _ ih => exact congrArg ((Segment.replaced n).text ++ ·) ih
  | @plain pieces s t hleftmost _ ih =>
    have hpieces : joined (pieces.map (ofPiece node)) = Piece.joined pieces := by
      unfold joined Piece.joined
      rw [List.flatMap_map]
      refine List.flatMap_congr fun piece hpiece => ?_
      cases piece with
      | plain stretch => rfl
      | hit found =>
        obtain rfl := List.mem_singleton.mp (hleftmost.mem_of_hit hpiece)
        exact hnode
    rw [joined_append, hpieces, ih]
    rfl

theorem Once.joined_eq (h : Once literal node s t) (hnode : node.content.toList = literal) :
    joined t = joined s := by
  cases h with
  | absent => exact joined_filter s
  | @found front back before after _ _ =>
    rw [joined_append, joined_filter]
    simp [joined, text, hnode]

theorem Turn.joined_eq {r : Replacement} (h : Turn r s t) (hnode : r.node.content = r.literal) :
    joined t = joined s := by
  have hchars : r.node.content.toList = r.literal.toList := by rw [hnode]
  unfold Turn at h
  split at h
  · rw [h]
  · split at h
    · exact h.joined_eq hchars
    · exact h.joined_eq hchars

/-- After its turn a literal stands in no plain text. -/
theorem Everywhere.not_holds (h : Everywhere literal node s t) (hne : literal ≠ []) :
    ∀ segment ∈ t, ¬ segment.Holds literal := by
  induction h with
  | nil => simp
  | replaced _ ih => exact List.forall_mem_cons.mpr ⟨id, ih⟩
  | @plain pieces s t hleftmost _ ih =>
    rw [List.forall_mem_append, List.forall_mem_map]
    refine ⟨fun piece hpiece => ?_, ih⟩
    cases piece with
    | plain stretch => exact hleftmost.not_infix hpiece (List.mem_singleton_self literal) hne
    | hit found => exact id

/-- Text that is left plain is a stretch of what was plain, and not an empty one. -/
theorem Everywhere.exists_of_mem (h : Everywhere literal node s t) {stretch : List Char}
    (hmem : .plain stretch ∈ t) : stretch ≠ [] ∧ ∃ text, .plain text ∈ s ∧ stretch <:+: text := by
  induction h with
  | nil => cases hmem
  | replaced _ ih =>
    obtain ⟨hne, text, htext, hinfix⟩ := ih (List.mem_of_ne_of_mem (by simp) hmem)
    exact ⟨hne, text, List.mem_cons_of_mem _ htext, hinfix⟩
  | @plain pieces s t hleftmost _ ih =>
    rcases List.mem_append.mp hmem with hpieces | hrest
    · obtain ⟨piece, hpiece, heq⟩ := List.mem_map.mp hpieces
      cases piece with
      | hit found => cases heq
      | plain other =>
        cases heq
        exact ⟨hleftmost.ne_nil stretch hpiece, _, List.mem_cons_self, Piece.infix_joined hpiece⟩
    · obtain ⟨hne, text, htext, hinfix⟩ := ih hrest
      exact ⟨hne, text, List.mem_cons_of_mem _ htext, hinfix⟩

theorem Once.exists_of_mem (h : Once literal node s t) {stretch : List Char}
    (hmem : plain stretch ∈ t) :
    ∃ text, plain text ∈ s ∧ stretch <:+: text ∧ (stretch = [] → text = []) := by
  cases h with
  | absent => exact ⟨stretch, (List.mem_filter.mp hmem).1, List.infix_rfl, id⟩
  | @found front back before after _ _ =>
    have hcut : plain (before ++ (literal ++ after)) ∈
        front ++ plain (before ++ (literal ++ after)) :: back := by simp
    rcases List.mem_append.mp hmem with hfront | hback
    · obtain ⟨hmem, hshown⟩ := List.mem_filter.mp hfront
      have hne : stretch ≠ [] := by
        rintro rfl
        cases hshown
      rcases List.mem_append.mp hmem with hfront | hhere
      · exact ⟨stretch, by simp [hfront], List.infix_rfl, id⟩
      · simp only [List.mem_cons, plain.injEq, reduceCtorEq, List.not_mem_nil, or_false,
          false_or] at hhere
        rcases hhere with rfl | rfl
        · exact ⟨_, hcut, (List.prefix_append _ _).isInfix, fun h => absurd h hne⟩
        · have hsuffix : stretch <:+ before ++ (literal ++ stretch) :=
            (List.suffix_append literal stretch).trans (List.suffix_append before _)
          exact ⟨_, hcut, hsuffix.isInfix, fun h => absurd h hne⟩
    · exact ⟨stretch, by simp [hback], List.infix_rfl, id⟩

theorem Turn.exists_of_mem {r : Replacement} (h : Turn r s t) {stretch : List Char}
    (hmem : plain stretch ∈ t) :
    ∃ text, plain text ∈ s ∧ stretch <:+: text ∧ (stretch = [] → text = []) := by
  unfold Turn at h
  split at h
  · exact ⟨stretch, h ▸ hmem, List.infix_rfl, id⟩
  · split at h
    · obtain ⟨hne, text, htext, hinfix⟩ := h.exists_of_mem hmem
      exact ⟨text, htext, hinfix, fun hempty => absurd hempty hne⟩
    · exact h.exists_of_mem hmem

/-! ### What all turns together keep -/

variable {replacements : List Replacement}

theorem Turns.joined_eq (h : Turns replacements s t)
    (hnodes : ∀ r ∈ replacements, r.node.content = r.literal) : joined t = joined s := by
  induction h with
  | nil => rfl
  | cons hturn _ ih =>
    obtain ⟨hnode, hnodes⟩ := List.forall_mem_cons.mp hnodes
    rw [ih hnodes, hturn.joined_eq hnode]

theorem Turns.exists_of_mem (h : Turns replacements s t) {stretch : List Char}
    (hmem : plain stretch ∈ t) :
    ∃ text, plain text ∈ s ∧ stretch <:+: text ∧ (stretch = [] → text = []) := by
  induction h with
  | nil => exact ⟨stretch, hmem, List.infix_rfl, id⟩
  | cons hturn _ ih =>
    obtain ⟨between, hbetween, hinfix, hempty⟩ := ih hmem
    obtain ⟨text, htext, hinfix', hempty'⟩ := hturn.exists_of_mem hbetween
    exact ⟨text, htext, hinfix.trans hinfix', fun h => hempty' (hempty h)⟩

/-- A literal that was replaced everywhere stands in no plain text at the end. -/
theorem Turns.not_holds (h : Turns replacements s t) {r : Replacement} (hr : r ∈ replacements)
    (heverywhere : r.everywhere = true) (hne : r.literal ≠ "") :
    ∀ segment ∈ t, ¬ segment.Holds r.literal.toList := by
  induction h with
  | nil => cases hr
  | @cons first rest s t u hturn hturns ih =>
    rcases List.mem_cons.mp hr with rfl | hr
    · have hafter : ∀ segment ∈ t, ¬ segment.Holds r.literal.toList := by
        unfold Turn at hturn
        rw [if_neg hne, if_pos heverywhere] at hturn
        exact hturn.not_holds (by simpa using hne)
      rintro (stretch | n) hmem hholds
      · obtain ⟨text, htext, hinfix, -⟩ := hturns.exists_of_mem hmem
        exact hafter _ htext (List.IsInfix.trans hholds hinfix)
      · exact hholds
    · exact ih hr

theorem content_map_toNode (s : List Segment) :
    (Forest.content (s.map toNode)).toList = joined s := by
  induction s with
  | nil => rfl
  | cons first s ih =>
    have hfirst : first.toNode.content.toList = first.text := by
      cases first <;> simp [toNode, Node.content, text]
    simpa [Forest.content, joined, hfirst] using ih

end Segment

open Segment (Turns)

/-- A plain rendering is what the turns of its replacements leave, and nothing else. The text stays
where each node stands for its literal, no literal that is replaced everywhere is left in plain
text, and no plain text is empty unless all of it is. -/
theorem renderPlain_turns (text : String) {replacements : List Replacement}
    (h : ∀ r ∈ replacements, r.node.content = r.literal) :
    (renderPlain text replacements).content = text ∧
      ∃ segments : List Segment,
        (∀ other, Turns replacements [.plain text.toList] other ↔ other = segments) ∧
        renderPlain text replacements = segments.map Segment.toNode ∧
        (∀ r ∈ replacements, r.everywhere = true → r.literal ≠ "" →
          ∀ stretch, .plain stretch ∈ segments → ¬ r.literal.toList <:+: stretch) ∧
        (text ≠ "" → .plain [] ∉ segments) := by
  have hturns : Turns replacements [.plain text.toList]
      (replacements.foldl Segment.apply [.plain text.toList]) := Segment.turns_iff.mpr rfl
  refine ⟨?_, _, fun other => Segment.turns_iff, rfl, ?_, ?_⟩
  · rw [← String.toList_inj, renderPlain, Segment.content_map_toNode, hturns.joined_eq h]
    simp [Segment.joined, Segment.text]
  · intro r hr heverywhere hne stretch hmem
    exact hturns.not_holds hr heverywhere hne _ hmem
  · intro hne hmem
    obtain ⟨whole, hwhole, -, hempty⟩ := hturns.exists_of_mem hmem
    obtain rfl := Segment.plain.inj (List.mem_singleton.mp hwhole)
    exact hne (String.toList_eq_nil_iff.mp (hempty rfl))

/-- A literal is taken once, a longer one crosses where it would stand again, and a third one gets
what both of them leave. -/
theorem renderPlain_turns_crossing :
    let replacements : List Replacement := [⟨"", .text "", true⟩,
      ⟨"ab", .span ["first"] [.text "a", .text "b"], false⟩, .markAll "bab", .markAll "a"]
    (∀ r ∈ replacements, r.node.content = r.literal) ∧
      (renderPlain "cababab" replacements).content = "cababab" ∧
      ∃ segments : List Segment, Turns replacements [.plain "cababab".toList] segments ∧
        segments.map Segment.toNode = [.text "c", .span ["first"] [.text "a", .text "b"],
          .mark "a", .mark "bab"] := by
  intro replacements
  have h : ∀ r ∈ replacements, r.node.content = r.literal := by
    simp [replacements, Replacement.markAll, Node.mark, Node.span, Node.content, Forest.content]
  obtain ⟨hcontent, segments, hturns, hrender, -, -⟩ := renderPlain_turns "cababab" h
  refine ⟨h, hcontent, segments, (hturns segments).mpr rfl, ?_⟩
  rw [← hrender]
  cbv

end Highlighting
