import Highlighting.Proofs.Nesting.Bytes
import Highlighting.Proofs.Nesting.Family

/-! The elements of a forest with the bytes they cover. Nesting gives one element for each span
that it meets, over the bytes of that span. -/

namespace Highlighting

/-- An element of a forest, the bytes of the whole text that it covers, and those that the element
around it covers. -/
structure Placed where
  start : Nat
  stop : Nat
  tag : String
  properties : Properties
  content : String
  parent : Option (Nat × Nat)

mutual

/-- The elements of a node that starts at byte `start`, each before those below it. -/
def Node.placed (parent : Option (Nat × Nat)) (start : Nat) : Node → List Placed
  | .text _ => []
  | .element tag properties children =>
    let content := Forest.content children
    let stop := start + Text.byteLength content.toList
    ⟨start, stop, tag, properties, content, parent⟩ ::
      Forest.placed (some (start, stop)) start children

/-- The elements of a forest that starts at byte `start`. -/
def Forest.placed (parent : Option (Nat × Nat)) (start : Nat) : Forest → List Placed
  | [] => []
  | n :: rest =>
    n.placed parent start ++
      Forest.placed parent (start + Text.byteLength n.content.toList) rest

end

namespace Forest

variable (parent : Option (Nat × Nat)) (start : Nat)

theorem placed_append (f g : Forest) : placed parent start (f ++ g) =
    placed parent start f ++ placed parent (start + Text.byteLength f.content.toList) g := by
  induction f generalizing start with
  | nil => simp [placed, content, Text.byteLength]
  | cons n f ih => simp [placed, content, ih, Nat.add_assoc]

theorem placed_leaf (text : List Char) : placed parent start (leaf text) = [] := by
  unfold leaf plain
  split <;> simp [placed, Node.placed]

end Forest

/-! ### The order of a walk -/

/-- What an element shows of itself: its tag, its properties and its text. -/
def Node.face? : Node → Option (String × Properties × String)
  | .text _ => none
  | .element tag properties children => some (tag, properties, Forest.content children)

def Placed.face (p : Placed) : String × Properties × String := (p.tag, p.properties, p.content)

mutual

theorem Node.map_face_placed (parent : Option (Nat × Nat)) (start depth : Nat) : ∀ n : Node,
    (n.placed parent start).map Placed.face = (n.walk depth).filterMap fun (_, n) => n.face?
  | .text _ => rfl
  | .element tag properties children => by
    unfold Node.placed Node.walk
    rw [List.map_cons, List.filterMap_cons]
    simp only [Node.face?]
    rw [Forest.map_face_placed _ start (depth + 1) children]
    rfl

/-- A walk meets the elements in the order in which they are placed. -/
theorem Forest.map_face_placed (parent : Option (Nat × Nat)) (start depth : Nat) : ∀ f : Forest,
    (Forest.placed parent start f).map Placed.face =
      (Forest.walk depth f).filterMap fun (_, n) => n.face?
  | [] => rfl
  | n :: rest => by
    unfold Forest.placed Forest.walk
    rw [List.map_append, List.filterMap_append, Node.map_face_placed parent start depth n,
      Forest.map_face_placed parent _ depth rest]

end

/-! ### Nested spans -/

namespace Span

/-- The bytes that a span covers. -/
def range (s : Span) : Nat × Nat := (s.start, s.stop)

/-- The element of a span inside another. -/
def place (text : List Char) (s : Span) (around : Option Span) : Placed :=
  { start := s.start
    stop := s.stop
    tag := "span"
    properties := ⟨s.classes, ∅⟩
    content := String.ofList (Text.slice text s.start s.stop)
    parent := around.map range }

/-- Spans between boundaries of a text and within the bytes from `start` to `stop`. -/
def Within (text : List Char) (start stop : Nat) (spans : List Span) : Prop :=
  ∀ s ∈ spans, start ≤ s.start ∧ s.stop ≤ stop ∧ Text.isBoundary text s.start ∧
    Text.isBoundary text s.stop

theorem Within.inside {text : List Char} {start stop : Nat} {s : Span} {rest : List Span}
    (h : Within text start stop (s :: rest)) (ordered : Ordered (s :: rest)) :
    Within text s.start s.stop (s.inside rest) := by
  intro t ht
  obtain ⟨-, -, hstart, hstop⟩ := h t (List.mem_cons_of_mem s ((inside_sublist s rest).subset ht))
  exact ⟨(encloses_of_mem_inside ordered ht).1.1, (encloses_of_mem_inside ordered ht).1.2,
    hstart, hstop⟩

theorem Within.behind {text : List Char} {start stop : Nat} {s : Span} {rest : List Span}
    (h : Within text start stop (s :: rest)) (ordered : Ordered (s :: rest)) :
    Within text s.stop stop (s.behind rest) := by
  intro t ht
  obtain ⟨-, hle, hbounds⟩ := h t (List.mem_cons_of_mem s ((behind_sublist s rest).subset ht))
  exact ⟨stop_le_of_mem_behind ordered.tail ht, hle, hbounds⟩

/-- The first of some spans cuts a stretch into what is before it, what it covers, and the rest. -/
theorem Within.cut {text part : List Char} {start : Nat} {s : Span} {rest : List Span}
    (stands : Text.StandsAt text start part)
    (within : Within text start (start + Text.byteLength part) (s :: rest))
    (proper : s.start < s.stop) :
    ∃ between covered tail,
      Text.splitAtByte (s.start - start) part = (between, covered ++ tail) ∧
      Text.splitAtByte (s.stop - s.start) (covered ++ tail) = (covered, tail) ∧
      start + Text.byteLength between = s.start ∧
      s.start + Text.byteLength covered = s.stop ∧
      s.stop + Text.byteLength tail = start + Text.byteLength part ∧
      Text.StandsAt text start between ∧ Text.StandsAt text s.start covered ∧
      Text.StandsAt text s.stop tail := by
  obtain ⟨hstart, hstop, bstart, bstop⟩ := within s List.mem_cons_self
  obtain ⟨between, later, hbetween, hpart, lbetween, sbetween, slater⟩ :=
    stands.split bstart hstart (by omega)
  have llater : s.start + Text.byteLength later = start + Text.byteLength part := by
    rw [hpart, Text.byteLength_append]
    omega
  obtain ⟨covered, tail, hcovered, hlater, lcovered, scovered, stail⟩ :=
    slater.split bstop proper.le (by omega)
  subst hlater
  rw [Text.byteLength_append] at llater
  exact ⟨between, covered, tail, hbetween, hcovered, lbetween, lcovered, by omega, sbetween,
    scovered, stail⟩

/-- Nesting gives the elements of the spans that it meets, in the same order. -/
theorem placed_nest {text part : List Char} {start : Nat} {spans : List Span}
    (around : Option Span) (stands : Text.StandsAt text start part)
    (within : Within text start (start + Text.byteLength part) spans) (ordered : Ordered spans) :
    (nest start part spans).placed (around.map range) start =
      (family around spans).map fun x => place text x.1 x.2 := by
  fun_induction nest start part spans generalizing around with
  | case1 start part => rw [Forest.placed_leaf, family, List.map_nil]
  | case2 start part s rest between later hbetween covered tail hcovered ihinside ihbehind =>
    obtain ⟨x, y, z, hx, hy, lbetween, lcovered, ltail, -, scovered, stail⟩ :=
      Within.cut stands within (ordered.proper s List.mem_cons_self)
    obtain ⟨rfl, rfl⟩ := Prod.mk.inj (hbetween.symm.trans hx)
    obtain ⟨rfl, rfl⟩ := Prod.mk.inj (hcovered.symm.trans hy)
    have winside := within.inside ordered
    have wbehind := within.behind ordered
    rw [← lcovered] at winside
    rw [← ltail] at wbehind
    have hinside := ihinside (some s) scovered winside ordered.inside
    have hbehind := ihbehind around stail wbehind ordered.behind
    have hslice : Text.slice text s.start s.stop = covered := by
      rw [← lcovered]
      exact scovered.slice_eq
    have hcontent : (Forest.content (nest s.start covered (s.inside rest))).toList = covered := by
      rw [content_nest, String.toList_ofList]
    have hplace : place text s around = ⟨s.start, s.stop, "span", ⟨s.classes, ∅⟩,
        Forest.content (nest s.start covered (s.inside rest)), around.map range⟩ := by
      simp [place, hslice, content_nest]
    rw [Forest.placed_append, Forest.placed_leaf, Forest.content_leaf, String.toList_ofList,
      lbetween, family]
    simp only [List.nil_append, Node.span, Forest.placed, Node.placed, Node.content, hcontent,
      lcovered, List.map_cons, List.map_append, hplace, List.cons_append]
    rw [hbehind, ← hinside]
    rfl

/-! ### Leaves -/

theorem walk_append (depth : Nat) (f g : Forest) :
    Forest.walk depth (f ++ g) = Forest.walk depth f ++ Forest.walk depth g := by
  induction f with
  | nil => rfl
  | cons n f ih => simp [Forest.walk, ih]

/-- No leaf below nested spans is empty. -/
theorem ne_empty_of_mem_walk_nest {start : Nat} {part : List Char} {spans : List Span}
    {depth place : Nat} {value : String}
    (h : (place, .text value) ∈ (nest start part spans).walk depth) : value ≠ "" := by
  have leaf : ∀ {depth : Nat} {part : List Char},
      (place, Node.text value) ∈ (Forest.leaf part).walk depth → value ≠ "" := by
    intro depth part h
    unfold Forest.leaf Forest.plain at h
    split at h
    · simp [Forest.walk] at h
    · next hne =>
      simp only [Forest.walk, Node.walk, List.append_nil, List.mem_singleton, Prod.mk.injEq,
        Node.text.injEq] at h
      rintro rfl
      simp [← h.2] at hne
  fun_induction nest start part spans generalizing depth with
  | case1 start part => exact leaf h
  | case2 start part s rest between later _ covered tail _ ihinside ihbehind =>
    rw [walk_append] at h
    rcases List.mem_append.mp h with h | h
    · exact leaf h
    · simp only [Node.span, Forest.walk, Node.walk, List.cons_append, List.mem_cons,
        List.mem_append, Prod.mk.injEq, reduceCtorEq, and_false, false_or] at h
      rcases h with h | h
      · exact ihinside h
      · exact ihbehind h

end Span

end Highlighting
