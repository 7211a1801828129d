import Highlighting.Json.Basic

/-! Highlighted text: a forest of elements with texts as leaves. -/

namespace Highlighting

/-- The classes of an element in order, and its further properties. -/
structure Properties where
  classes : List String
  data : Dict Json
  deriving Inhabited

inductive Node where
  | text (value : String)
  | element (tag : String) (properties : Properties) (children : List Node)
  deriving Inhabited

abbrev Forest := List Node

namespace Node

def markedKey : String := "data-marked"

def lineNumberKey : String := "data-line-number"

def markTag : String := "mark"

def lineClass : String := "line"

def span (classes : List String) (children : Forest) : Node :=
  element "span" ⟨classes, ∅⟩ children

def mark (value : String) : Node :=
  element markTag ⟨[], .single markedKey (.bool true)⟩ [text value]

def line (number : Nat) (children : Forest) : Node :=
  element "span" ⟨[lineClass], .single lineNumberKey (.int number)⟩ children

def isText : Node → Bool
  | text _ => true
  | element .. => false

def isMark : Node → Bool
  | text _ => false
  | element tag properties _ => tag == markTag && properties.data.contains markedKey

def lineNumber? : Node → Option UInt64
  | text _ => none
  | element _ properties _ => (properties.data.get? lineNumberKey).bind Json.asUnsigned?

end Node

mutual

def Node.content : Node → String
  | .text value => value
  | .element _ _ children => Forest.content children

def Forest.content : Forest → String
  | [] => ""
  | n :: rest => n.content ++ Forest.content rest

end

mutual

/-- A node and all below it, each before its children, with the depth where it stands. -/
def Node.walk (depth : Nat) : Node → List (Nat × Node)
  | .text value => [(depth, .text value)]
  | .element tag properties children =>
    (depth, .element tag properties children) :: Forest.walk (depth + 1) children

def Forest.walk (depth : Nat) : Forest → List (Nat × Node)
  | [] => []
  | n :: rest => n.walk depth ++ Forest.walk depth rest

end

mutual

def Node.leafCount : Node → Nat
  | .text _ => 1
  | .element _ _ children => Forest.leafCount children

def Forest.leafCount : Forest → Nat
  | [] => 0
  | n :: rest => n.leafCount + Forest.leafCount rest

end

mutual

/-- What a node counts against a node limit: its texts and its marks. -/
def Node.cost : Node → Nat
  | .text _ => 1
  | .element tag properties children =>
    (if (Node.element tag properties children).isMark then 1 else 0) + Forest.cost children

def Forest.cost : Forest → Nat
  | [] => 0
  | n :: rest => n.cost + Forest.cost rest

end

namespace Forest

@[simp] theorem content_append (f g : Forest) : content (f ++ g) = content f ++ content g := by
  induction f with
  | nil => simp [content]
  | cons n f ih => simp [content, ih, String.append_assoc]

@[simp] theorem leafCount_append (f g : Forest) :
    leafCount (f ++ g) = leafCount f + leafCount g := by
  induction f with
  | nil => simp [leafCount]
  | cons n f ih => simp [leafCount, ih, Nat.add_assoc]

@[simp] theorem cost_append (f g : Forest) : cost (f ++ g) = cost f + cost g := by
  induction f with
  | nil => simp [cost]
  | cons n f ih => simp [cost, ih, Nat.add_assoc]

/-- The forest of a text that is not highlighted. -/
def plain (text : String) : Forest :=
  if text.isEmpty then [] else [.text text]

@[simp] theorem content_plain (text : String) : content (plain text) = text := by
  unfold plain
  split
  · next h => simpa [content] using h.symm
  · simp [content, Node.content]

/-- A text as a leaf, unless it is empty. -/
def leaf (text : List Char) : Forest := plain (String.ofList text)

@[simp] theorem content_leaf (text : List Char) : content (leaf text) = String.ofList text :=
  content_plain _

end Forest

end Highlighting
