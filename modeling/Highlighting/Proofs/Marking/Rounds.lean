import Highlighting.Proofs.Marking.Replacing
import Highlighting.Proofs.Nesting.Placed

/-! Marking literals one after the other, each in what is not marked yet. This is what a plain
rendering does where every replacement marks its literal. What a round keeps is stated once, and
from it follows what is true of the pieces in the end: they join to the text, each mark holds one
of the literals, and what is left plain holds none. -/

namespace Highlighting

namespace Piece

/-! ### Rounds -/

/-- Marks a literal in what is not marked yet. -/
def markIn (literal : List Char) (pieces : List Piece) : List Piece :=
  pieces.flatMap fun
    | plain text => scan [literal] text
    | hit text => [hit text]

/-- Marks literals one after the other. -/
def rounds (literals : List (List Char)) (pieces : List Piece) : List Piece :=
  literals.foldl (fun pieces literal => markIn literal pieces) pieces

/-- The segment that a piece is in a plain rendering. -/
def toSegment : Piece → Segment
  | plain text => .plain text
  | hit text => .replaced (.mark (String.ofList text))

variable {literal text : List Char} {literals done : List (List Char)} {pieces : List Piece}

theorem markIn_append (literal : List Char) (a b : List Piece) :
    markIn literal (a ++ b) = markIn literal a ++ markIn literal b := List.flatMap_append

theorem joined_markIn (literal : List Char) (pieces : List Piece) :
    joined (markIn literal pieces) = joined pieces := by
  induction pieces with
  | nil => rfl
  | cons piece rest ih =>
    have hcons : markIn literal (piece :: rest) = markIn literal [piece] ++ markIn literal rest :=
      markIn_append literal [piece] rest
    have hpiece : joined (markIn literal [piece]) = piece.text := by
      cases piece with
      | plain text => simp [markIn, joined_scan, Piece.text]
      | hit text => simp [markIn, joined, Piece.text]
    rw [hcons, joined_append, hpiece, ih]
    rfl

theorem mem_of_hit_markIn {found : List Char} (h : hit found ∈ markIn literal pieces) :
    found = literal ∨ hit found ∈ pieces := by
  obtain ⟨piece, hpiece, hmem⟩ := List.mem_flatMap.mp h
  cases piece with
  | plain text =>
    exact .inl (List.mem_singleton.mp ((leftmost_scan [literal] text).mem_of_hit hmem))
  | hit text =>
    rw [List.mem_singleton.mp hmem]
    exact .inr hpiece

/-- A round replaces a literal everywhere by a mark that holds it. -/
theorem everywhere_markIn (literal : List Char) (pieces : List Piece) :
    Segment.Everywhere literal (.mark (String.ofList literal)) (pieces.map toSegment)
      ((markIn literal pieces).map toSegment) := by
  rw [Segment.everywhere_iff, markIn, Segment.replaceEvery, List.flatMap_map, List.map_flatMap]
  refine List.flatMap_congr fun piece _ => ?_
  cases piece with
  | hit text => rfl
  | plain text =>
    refine List.map_congr_left fun part hpart => ?_
    cases part with
    | plain stretch => rfl
    | hit found =>
      obtain rfl := List.mem_singleton.mp ((leftmost_scan [literal] text).mem_of_hit hpart)
      rfl

/-! ### Neighbours -/

/-- Two pieces may stand side by side unless both are plain. -/
def MayMeet : Piece → Piece → Prop
  | plain _, plain _ => False
  | _, _ => True

theorem Leftmost.isChain (h : Leftmost literals pieces) : pieces.IsChain MayMeet := by
  rw [List.isChain_iff_forall_rel_of_append_cons_cons]
  intro a b before after heq
  cases a with
  | hit _ => trivial
  | plain s =>
    cases b with
    | hit _ => trivial
    | plain t => exact absurd heq (h.apart before s t after)

theorem isChain_markIn (h : pieces.IsChain MayMeet) : (markIn literal pieces).IsChain MayMeet := by
  induction pieces with
  | nil => exact .nil
  | cons piece rest ih =>
    have hrest := ih h.tail
    cases piece with
    | hit text =>
      refine List.isChain_cons.mpr ⟨fun next _ => ?_, hrest⟩
      trivial
    | plain text =>
      refine List.isChain_append.mpr ⟨(leftmost_scan [literal] text).isChain, hrest, ?_⟩
      intro last _ next hnext
      -- Behind plain text stands a mark, and it stays.
      cases rest with
      | nil => simp at hnext
      | cons second more =>
        cases second with
        | plain other => exact absurd (List.isChain_cons_cons.mp h).1 id
        | hit other =>
          obtain rfl : hit other = next := by simpa [markIn] using hnext
          cases last <;> trivial

/-! ### What rounds leave -/

/-- Pieces of a text in which literals have been marked one after the other. -/
structure Settled (literals : List (List Char)) (text : List Char) (pieces : List Piece) :
    Prop where
  joined_eq : joined pieces = text
  mem : ∀ found, hit found ∈ pieces → found ∈ literals
  not_infix : ∀ stretch, plain stretch ∈ pieces → ∀ literal ∈ literals, ¬ literal <:+: stretch
  ne_nil : text ≠ [] → plain [] ∉ pieces
  isChain : pieces.IsChain MayMeet

theorem settled_nil (text : List Char) : Settled [] text [plain text] where
  joined_eq := by simp [joined, Piece.text]
  mem found h := by simp at h
  not_infix _ _ _ h := absurd h List.not_mem_nil
  ne_nil hne h := hne (plain.inj (List.mem_singleton.mp h)).symm
  isChain := .singleton _

theorem Settled.markIn (h : Settled done text pieces) (hne : literal ≠ []) :
    Settled (done ++ [literal]) text (markIn literal pieces) := by
  have hturn := everywhere_markIn literal pieces
  have hplain {stretch : List Char} (hmem : plain stretch ∈ Piece.markIn literal pieces) :
      Segment.plain stretch ∈ (Piece.markIn literal pieces).map toSegment :=
    List.mem_map_of_mem hmem
  refine ⟨?_, fun found hmem => ?_, fun stretch hmem => ?_, fun _ hmem => ?_, ?_⟩
  · rw [joined_markIn, h.joined_eq]
  · rcases mem_of_hit_markIn hmem with rfl | hmem
    · simp
    · exact List.mem_append_left _ (h.mem found hmem)
  · rw [List.forall_mem_append, List.forall_mem_singleton]
    refine ⟨fun other hother hwithin => ?_, hturn.not_holds hne _ (hplain hmem)⟩
    obtain ⟨-, whole, hwhole, hstretch⟩ := hturn.exists_of_mem (hplain hmem)
    obtain ⟨piece, hpiece, heq⟩ := List.mem_map.mp hwhole
    cases piece with
    | hit _ => cases heq
    | plain _ =>
      cases heq
      exact h.not_infix whole hpiece other hother (hwithin.trans hstretch)
  · exact (hturn.exists_of_mem (hplain hmem)).1 rfl
  · exact isChain_markIn h.isChain

theorem Settled.rounds (h : Settled done text pieces) (hne : [] ∉ literals) :
    Settled (done ++ literals) text (rounds literals pieces) := by
  induction literals generalizing done pieces with
  | nil => simpa [Piece.rounds] using h
  | cons literal rest ih =>
    obtain ⟨hliteral, hrest⟩ := not_or.mp (mt List.mem_cons.mpr hne)
    have hnext := ih (h.markIn (Ne.symm hliteral)) hrest
    rwa [List.append_assoc, List.singleton_append] at hnext

theorem settled_rounds (hne : [] ∉ literals) (text : List Char) :
    Settled literals text (rounds literals [plain text]) :=
  (settled_nil text).rounds hne

/-- A mark stays where it is. -/
theorem exists_hit_rounds (literals : List (List Char)) (before after : List Piece)
    (found : List Char) : ∃ before' after',
      rounds literals (before ++ hit found :: after) = before' ++ hit found :: after' ∧
        joined before' = joined before := by
  induction literals generalizing before after with
  | nil => exact ⟨before, after, rfl, rfl⟩
  | cons literal rest ih =>
    have hmark : markIn literal (before ++ hit found :: after) =
        markIn literal before ++ hit found :: markIn literal after := markIn_append literal _ _
    obtain ⟨before', after', heq, hjoined⟩ := ih (markIn literal before) (markIn literal after)
    refine ⟨before', after', ?_, by rw [hjoined, joined_markIn]⟩
    rw [← heq, ← hmark]
    rfl

end Piece

/-! ### In a plain rendering -/

theorem Segment.apply_markAll {literal : String} (hne : literal ≠ "") (pieces : List Piece) :
    apply (pieces.map Piece.toSegment) (.markAll literal) =
      (Piece.markIn literal.toList pieces).map Piece.toSegment := by
  have heverywhere := Piece.everywhere_markIn literal.toList pieces
  rw [String.ofList_toList] at heverywhere
  have hturn : Turn (.markAll literal) (pieces.map Piece.toSegment)
      ((Piece.markIn literal.toList pieces).map Piece.toSegment) := by
    unfold Turn Replacement.markAll
    rw [if_neg hne, if_pos rfl]
    exact heverywhere
  exact (turn_iff.mp hturn).symm

theorem Segment.foldl_apply_markAll {literals : List String} (hne : "" ∉ literals)
    (pieces : List Piece) :
    (literals.map Replacement.markAll).foldl apply (pieces.map Piece.toSegment) =
      (Piece.rounds (literals.map String.toList) pieces).map Piece.toSegment := by
  induction literals generalizing pieces with
  | nil => rfl
  | cons literal rest ih =>
    obtain ⟨hliteral, hrest⟩ := not_or.mp (mt List.mem_cons.mpr hne)
    rw [List.map_cons, List.foldl_cons, apply_markAll (Ne.symm hliteral), ih hrest]
    rfl

/-- Where every replacement marks its literal, a plain rendering marks them in turn. -/
theorem renderPlain_markAll {literals : List String} (hne : "" ∉ literals) (text : String) :
    renderPlain text (literals.map Replacement.markAll) =
      (Piece.rounds (literals.map String.toList) [.plain text.toList]).map Piece.toNode := by
  have hfold := Segment.foldl_apply_markAll hne [.plain text.toList]
  rw [List.map_singleton] at hfold
  rw [renderPlain]
  have hstart : [Segment.plain text.toList] = [Piece.toSegment (.plain text.toList)] := rfl
  rw [hstart, hfold, List.map_map]
  refine List.map_congr_left fun piece _ => ?_
  cases piece <;> rfl

/-! ### Where marks stand -/

def Placed.isMark (p : Placed) : Bool :=
  p.tag == Node.markTag && p.properties.data.contains Node.markedKey

/-- The marks of a forest in order, with the bytes that they cover. -/
def Forest.marks (f : Forest) : List Placed := (Forest.placed none 0 f).filter Placed.isMark

/-- A stretch at byte `i` and one at byte `j` have a character in common. -/
def Overlap (a b : List Char) (i j : Nat) : Prop :=
  i < j + Text.byteLength b ∧ j < i + Text.byteLength a

instance (a b : List Char) (i j : Nat) : Decidable (Overlap a b i j) :=
  inferInstanceAs (Decidable (_ ∧ _))

namespace Piece

/-- Where a piece is marked, the forest has a mark over its bytes. -/
theorem exists_mark (before after : List Piece) (found : List Char) :
    ∃ mark ∈ Forest.marks ((before ++ hit found :: after).map toNode),
      mark.start = Text.byteLength (joined before) ∧
        mark.stop = Text.byteLength (joined before) + Text.byteLength found ∧
          mark.content = String.ofList found := by
  let start := Text.byteLength (joined before)
  let mark : Placed := ⟨start, start + Text.byteLength found, Node.markTag,
    ⟨[], .single Node.markedKey (.bool true)⟩, String.ofList found, none⟩
  have hmark : (Node.mark (String.ofList found)).placed none start = [mark] := by
    simp [Node.mark, Node.placed, Forest.placed, Forest.content, Node.content, mark]
  refine ⟨mark, List.mem_filter.mpr ⟨?_, rfl⟩, rfl, rfl, rfl⟩
  rw [List.map_append, Forest.placed_append, content_map_toNode, List.map_cons, Nat.zero_add]
  refine List.mem_append_right _ (List.mem_append_left _ ?_)
  change mark ∈ (Node.mark (String.ofList found)).placed none start
  rw [hmark]
  exact List.mem_singleton_self mark

/-- Where a literal stands that is left in no plain piece, there is a mark. -/
theorem exists_overlap {pieces : List Piece} (hchain : pieces.IsChain MayMeet)
    {front literal behind : List Char} (hne : literal ≠ [])
    (hplain : ∀ stretch, plain stretch ∈ pieces → ¬ literal <:+: stretch)
    (hjoined : joined pieces = front ++ (literal ++ behind)) :
    ∃ before found after, pieces = before ++ hit found :: after ∧
      Overlap literal found (Text.byteLength front) (Text.byteLength (joined before)) := by
  induction pieces generalizing front with
  | nil =>
    obtain ⟨-, hrest⟩ := List.append_eq_nil_iff.mp hjoined.symm
    exact absurd (List.append_eq_nil_iff.mp hrest).1 hne
  | cons piece rest ih =>
    have hwhole : piece.text ++ joined rest = front ++ (literal ++ behind) := hjoined
    have hpiece : piece.text <+: front ++ (literal ++ behind) := ⟨joined rest, hwhole⟩
    have hpos := Text.byteLength_pos hne
    by_cases hle : Text.byteLength piece.text ≤ Text.byteLength front
    · -- The literal stands behind this piece.
      obtain ⟨front', rfl⟩ := Text.prefix_of_byteLength_le hpiece (List.prefix_append _ _) hle
      rw [List.append_assoc, List.append_cancel_left_eq] at hwhole
      obtain ⟨before, found, after, rfl, hoverlap⟩ := ih hchain.tail
        (fun stretch hmem => hplain stretch (List.mem_cons_of_mem piece hmem)) hwhole
      refine ⟨piece :: before, found, after, rfl, ?_⟩
      have hbefore : joined (piece :: before) = piece.text ++ joined before := rfl
      rw [hbefore, Text.byteLength_append, Text.byteLength_append]
      unfold Overlap at hoverlap ⊢
      omega
    · cases piece with
      | hit found =>
        refine ⟨[], found, rest, rfl, ?_⟩
        have hfound : Text.byteLength front < Text.byteLength found := Nat.lt_of_not_le hle
        have hnil : Text.byteLength (joined []) = 0 := rfl
        unfold Overlap
        omega
      | plain stretch =>
        -- Plain text cannot hold all of the literal, so the next piece begins within it.
        have hshort : Text.byteLength stretch < Text.byteLength (front ++ literal) := by
          refine Nat.lt_of_not_le fun hlong => hplain stretch List.mem_cons_self ?_
          have hall : front ++ literal <+: front ++ (literal ++ behind) :=
            (List.prefix_append_right_inj front).mpr (List.prefix_append literal behind)
          have hinside := Text.prefix_of_byteLength_le hall hpiece hlong
          exact (List.suffix_append front literal).isInfix.trans hinside.isInfix
        rw [Text.byteLength_append] at hshort
        cases rest with
        | nil =>
          have hlength := congrArg Text.byteLength hwhole
          simp only [Text.byteLength_append, joined, Piece.text, List.flatMap_nil,
            Text.byteLength] at hlength
          omega
        | cons next more =>
          cases next with
          | plain other => exact absurd (List.isChain_cons_cons.mp hchain).1 id
          | hit found =>
            refine ⟨[plain stretch], found, more, rfl, ?_⟩
            have hstretch : joined [plain stretch] = stretch := by simp [joined, Piece.text]
            have hlater : Text.byteLength front < Text.byteLength stretch := Nat.lt_of_not_le hle
            rw [hstretch]
            unfold Overlap
            omega

end Piece

end Highlighting
