import Highlighting.Node.Basic

/-! Flat text: one piece for each text of a forest, under the classes of all elements around it. -/

namespace Highlighting

inductive FlatNode where
  | bare (text : String)
  | span (classes : List String) (text : String)
  deriving DecidableEq, Repr, Inhabited

namespace FlatNode

def text : FlatNode → String
  | bare text => text
  | span _ text => text

def classes : FlatNode → List String
  | bare _ => []
  | span classes _ => classes

def isBare : FlatNode → Bool
  | bare _ => true
  | span .. => false

def withText (text : String) : FlatNode → FlatNode
  | bare _ => bare text
  | span classes _ => span classes text

def toNode : FlatNode → Node
  | bare text => .text text
  | span classes text => .span classes [.text text]

/-- A text under a class list; it is bare under none. -/
def ofClasses (classes : List String) (text : String) : FlatNode :=
  if classes.isEmpty then bare text else span classes text

end FlatNode

/-- More pieces than a limit admits. -/
structure LimitExceeded where
  limit : Nat
  count : Nat
  deriving DecidableEq, Repr

def LimitExceeded.message (e : LimitExceeded) : String :=
  "node limit of " ++ toString e.limit ++ " reached. Flattened " ++ toString e.count
    ++ " nodes so far."

/-- The classes of an element inside a context: those of the context, then its own that are new. -/
def mergeClasses (context classes : List String) : List String :=
  classes.foldl (fun merged c => if c ∈ merged then merged else merged ++ [c]) context

/-- Adds a piece, unless the pieces then exceed the limit. -/
def emit (limit : Option Nat) (out : Array FlatNode) (piece : FlatNode) :
    Except LimitExceeded (Array FlatNode) :=
  let out := out.push piece
  match limit with
  | some limit => if limit < out.size then .error ⟨limit, out.size⟩ else .ok out
  | none => .ok out

mutual

/-- Adds the pieces of a node in a context of classes. It stops at the first piece too many. -/
def Node.flattenInto (limit : Option Nat) (context : List String) (out : Array FlatNode) :
    Node → Except LimitExceeded (Array FlatNode)
  | .text value => emit limit out (.ofClasses context value)
  | .element _ properties children =>
    Forest.flattenInto limit (mergeClasses context properties.classes) out children

def Forest.flattenInto (limit : Option Nat) (context : List String) (out : Array FlatNode) :
    Forest → Except LimitExceeded (Array FlatNode)
  | [] => .ok out
  | n :: rest => do Forest.flattenInto limit context (← n.flattenInto limit context out) rest

end

/-- The pieces of a forest in order, at most `limit` of them. -/
def Forest.flatten (f : Forest) (limit : Option Nat) : Except LimitExceeded (List FlatNode) :=
  Array.toList <$> Forest.flattenInto limit [] #[] f

end Highlighting
