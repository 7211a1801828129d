import Mathlib
import Highlighting.Grammar.Captured
import Highlighting.Proofs.Nesting.Cursor

/-! The tree of a text under captures. Its elements are the spans that the greedy rule keeps of the
ordered spans, each in the innermost one around it. -/

namespace Highlighting

/-- An element of a tree that shows one of the kept spans. -/
structure Shown (text : List Char) (kept : List Span) (s : Span) (p : Placed) : Prop where
  start : p.start = s.start
  stop : p.stop = s.stop
  tag : p.tag = "span"
  properties : p.properties = ⟨s.classes, ∅⟩
  content : Text.slice? text s.start s.stop = some p.content.toList
  parent : ∃ around, Span.Innermost kept s around ∧ p.parent = around.map Span.range

namespace Span

theorem within_ofCaptures (theme : Theme) (text : List Char) (captures : List Capture) :
    Within text 0 (Text.byteLength text) (ofCaptures theme text captures) := by
  intro s hs
  obtain ⟨-, hstart, hstop⟩ := bounds_of_mem_ofCaptures hs
  exact ⟨Nat.zero_le _, Text.le_byteLength_of_isBoundary hstop, hstart, hstop⟩

theorem shown_place {text : List Char} {spans : List Span} (ordered : Ordered spans)
    (within : Within text 0 (Text.byteLength text) spans) {s : Span} {around : Option Span}
    (h : (s, around) ∈ family none spans) : Shown text (greedy spans) s (place text s around) := by
  have hs : s ∈ spans := mem_of_mem_preorder (mem_preorder_of_mem_family h)
  obtain ⟨-, -, hstart, hstop⟩ := within s hs
  have hslice := Text.slice?_eq_some hstart hstop (ordered.proper s hs).le
  refine ⟨rfl, rfl, rfl, rfl, ?_, around, innermost_of_mem_family_none ordered h, rfl⟩
  rw [hslice]
  simp [place]

/-- Nesting shows the kept spans, in their order. -/
theorem forall₂_shown {text : List Char} {spans : List Span} (ordered : Ordered spans)
    (within : Within text 0 (Text.byteLength text) spans) :
    List.Forall₂ (Shown text (greedy spans)) (greedy spans)
      ((nest 0 text spans).placed none 0) := by
  have hplaced : (nest 0 text spans).placed none 0 =
      (family none spans).map fun x => place text x.1 x.2 :=
    placed_nest none (Text.standsAt_zero text) (by simpa using within) ordered
  have hkept : (family none spans).map Prod.fst = greedy spans := by
    rw [greedy_eq_preorder ordered, map_fst_family]
  rw [hplaced, List.forall₂_map_right_iff]
  nth_rewrite 2 [← hkept]
  rw [List.forall₂_map_left_iff, List.forall₂_same]
  rintro ⟨s, around⟩ h
  exact shown_place ordered within h

end Span

namespace CaptureEngine

/-- The tree of a text in a registered grammar. The captures that give a span are ordered, and of
one range the first is taken; the elements of the tree, each before those inside it, are the spans
that the greedy rule keeps of them. Each has the classes of its span, the text of its range and, if
a kept span is around it, the innermost of these as its parent. No leaf is empty, the leaves join to
the text, and the tree is built with cuts between boundaries only. -/
theorem highlight_greedy (e : CaptureEngine) (text grammar : String)
    (registered : grammar ∈ e.grammars) (parsed : grammar ≠ plainText) :
    let captures := e.source.captures grammar text
    let spans := Span.ofCaptures e.theme text.toList captures
    spans.Pairwise Span.Precedes ∧
      (∀ s, s ∈ spans ↔ ∃ c classes,
        captures.find? (fun c =>
          decide (c.Highlights text.toList ∧ c.start = s.start ∧ c.stop = s.stop)) = some c ∧
        tokenClasses? c.name = some classes ∧ s = ⟨c.start, c.stop, e.theme.apply classes⟩) ∧
      ∃ tree, e.highlight text grammar = .ok tree ∧
        List.Forall₂ (Shown text.toList (Span.greedy spans)) (Span.greedy spans)
          (tree.placed none 0) ∧
        (tree.placed none 0).map Placed.face = (tree.walk 0).filterMap (fun (_, n) => n.face?) ∧
        (∀ depth value, (depth, .text value) ∈ tree.walk 0 → value ≠ "") ∧
        tree.content = text ∧
        Cursor.build? text.toList spans = some tree := by
  intro captures spans
  have ordered : Span.Ordered spans := Span.ordered_ofCaptures e.theme text.toList captures
  have within := Span.within_ofCaptures e.theme text.toList captures
  have htree : e.highlight text grammar = .ok (Span.nest 0 text.toList spans) := by
    unfold highlight
    rw [if_neg parsed, if_pos registered]
    rfl
  refine ⟨ordered.sorted, fun s => Span.mem_ofCaptures_iff, _, htree, ?_, ?_, ?_, ?_, ?_⟩
  · exact Span.forall₂_shown ordered within
  · exact Forest.map_face_placed none 0 0 _
  · exact fun depth value h => Span.ne_empty_of_mem_walk_nest h
  · rw [Span.content_nest, String.ofList_toList]
  · exact Cursor.build?_eq_nest ordered within

/-- Captures of which one crosses another, one repeats a range, one cuts a character, one is empty
and one has no classes. -/
def tangledSource : CaptureSource where
  captures _ _ := [⟨"tag", 4, 6⟩, ⟨"tag", 1, 3⟩, ⟨"text", 1, 3⟩, ⟨"tag", 0, 5⟩, ⟨"tag", 2, 3⟩,
    ⟨"tag", 4, 4⟩, ⟨"_tag", 3, 5⟩]
  queryError? _ := none

theorem highlight_greedy_tangled :
    let e : CaptureEngine := ⟨tangledSource, ["c"], ⟨.single "tag" "label"⟩⟩
    let kept : List Span := [⟨0, 5, ["token", "label"]⟩, ⟨1, 3, ["token", "label"]⟩]
    "c" ∈ e.grammars ∧ "c" ≠ plainText ∧ ∃ tree, e.highlight "aébcd" "c" = .ok tree ∧
      List.Forall₂ (Shown "aébcd".toList kept) kept (tree.placed none 0) ∧
      tree.content = "aébcd" := by
  intro e kept
  have hkept : Span.greedy (Span.ofCaptures e.theme "aébcd".toList
      (e.source.captures "c" "aébcd")) = kept := by
    cbv
  have registered : "c" ∈ e.grammars := by decide
  have parsed : "c" ≠ plainText := by decide
  obtain ⟨-, -, tree, htree, shown, -, -, content, -⟩ :=
    highlight_greedy e "aébcd" "c" registered parsed
  rw [hkept] at shown
  exact ⟨registered, parsed, tree, htree, shown, content⟩

end CaptureEngine

end Highlighting
