import Highlighting.Grammar.Capture
import Highlighting.Grammar.Theme
import Highlighting.Node.Basic
import Highlighting.Text.Utf8

/-! From captures to nested spans. Captures may cross; of two that cross, the one that starts
first is kept, and of those that start together the longest is the outermost. -/

namespace Highlighting

/-- A name that a grammar gives to the bytes from `start` to before `stop`. -/
structure Capture where
  name : String
  start : Nat
  stop : Nat
  deriving DecidableEq, Repr

/-- The classes of the bytes from `start` to before `stop`. -/
structure Span where
  start : Nat
  stop : Nat
  classes : List String
  deriving DecidableEq, Repr

namespace Span

/-- The span of a capture; none if its name gives no classes, it is empty, or it cuts a
character. -/
def ofCapture? (theme : Theme) (text : List Char) (c : Capture) : Option Span := do
  let classes ← tokenClasses? c.name
  if c.start < c.stop ∧ Text.isBoundary text c.start ∧ Text.isBoundary text c.stop then
    some ⟨c.start, c.stop, theme.apply classes⟩
  else none

/-- Earlier starts come first, of equal starts the longer span. -/
def before (a b : Span) : Bool :=
  decide (a.start < b.start ∨ (a.start = b.start ∧ b.stop ≤ a.stop))

/-- The first of neighbours with the same range. -/
def dropRepeated : List Span → List Span
  | [] => []
  | [a] => [a]
  | a :: b :: rest =>
    if a.start = b.start ∧ a.stop = b.stop then dropRepeated (a :: rest)
    else a :: dropRepeated (b :: rest)
termination_by spans => spans.length

/-- The spans of captures in order, one for each range: that of the first capture which gives
classes. -/
def ofCaptures (theme : Theme) (text : List Char) (captures : List Capture) : List Span :=
  dropRepeated ((captures.filterMap (ofCapture? theme text)).mergeSort before)

/-- The spans that start inside the first of the list and do not cross its end. -/
def inside (s : Span) (rest : List Span) : List Span :=
  (rest.takeWhile fun t => t.start < s.stop).filter fun t => t.stop ≤ s.stop

def behind (s : Span) (rest : List Span) : List Span :=
  rest.dropWhile fun t => t.start < s.stop

theorem length_inside_le (s : Span) (rest : List Span) :
    (s.inside rest).length ≤ rest.length :=
  Nat.le_trans (List.length_filter_le ..) (List.takeWhile_sublist _).length_le

theorem length_behind_le (s : Span) (rest : List Span) :
    (s.behind rest).length ≤ rest.length :=
  (List.dropWhile_sublist _).length_le

/-- The forest of a text that starts at byte `start`, under spans in order. A span that crosses the
end of one around it is dropped. -/
def nest (start : Nat) (text : List Char) : List Span → Forest
  | [] => Forest.leaf text
  | s :: rest =>
    let (between, text) := Text.splitAtByte (s.start - start) text
    let (covered, text) := Text.splitAtByte (s.stop - s.start) text
    Forest.leaf between ++
      .span s.classes (nest s.start covered (s.inside rest)) :: nest s.stop text (s.behind rest)
termination_by spans => spans.length
decreasing_by
  · exact Nat.lt_succ_of_le (length_inside_le s rest)
  · exact Nat.lt_succ_of_le (length_behind_le s rest)

/-- Cutting a text under spans keeps it, wherever the spans lie. -/
theorem content_nest (start : Nat) (text : List Char) (spans : List Span) :
    (nest start text spans).content = String.ofList text := by
  fun_induction nest start text spans with
  | case1 start text => exact Forest.content_leaf text
  | case2 start text s rest between later hbetween covered tail hcovered ihinside ihbehind =>
    have hlater : covered ++ tail = later := by
      simpa [hcovered] using Text.splitAtByte_append (s.stop - s.start) later
    have htext : between ++ later = text := by
      simpa [hbetween] using Text.splitAtByte_append (s.start - start) text
    rw [← htext, ← hlater]
    simp [Forest.content, Node.content, Node.span, ihinside, ihbehind]

end Span

def highlightCaptures (theme : Theme) (text : String) (captures : List Capture) : Forest :=
  Span.nest 0 text.toList (Span.ofCaptures theme text.toList captures)

end Highlighting
