/-! Characters of a YAML text, and how the characters of a scalar are put together. A scalar may run
over several lines; what stands between two of its visible characters is a gap, and a gap is folded:
one line end counts as a space, and the ends of empty lines after it count as themselves. -/

namespace Highlighting.Yaml

/-- Only printable characters, tabs and line ends may stand in a text. -/
def isAllowed (c : Char) : Bool :=
  c = '\t' || c = '\n' || c = '\r' || c = '\x85'
    || (0x20 ≤ c.toNat && c.toNat ≤ 0x7e)
    || (0xa0 ≤ c.toNat && c.toNat ≤ 0xfffd)
    || 0x10000 ≤ c.toNat

def isBlank (c : Char) : Bool := c = ' ' || c = '\t'

/-- The byte order mark, which means nothing at the start of a line. -/
def orderMark : Char := '\ufeff'

/-- The ends of lines after `endLines`. -/
def isBreak (c : Char) : Bool := c = '\n' || c = '\u2028' || c = '\u2029'

def isSpace (c : Char) : Bool := isBlank c || isBreak c

/-- Writes a carriage return, with or without a line feed, and a next line as a line feed. -/
def endLines : List Char → List Char
  | [] => []
  | '\r' :: '\n' :: cs => '\n' :: endLines cs
  | '\r' :: cs => '\n' :: endLines cs
  | '\x85' :: cs => '\n' :: endLines cs
  | c :: cs => c :: endLines cs

/-- The next character separates words, or there is none. -/
def atSpace (rest : List Char) : Bool := rest.head?.all isSpace

/-- What stands between two visible characters of a scalar. -/
inductive Gap where
  /-- Blanks of one line, in reverse. -/
  | blanks (read : List Char)
  /-- The end of a line and those of the empty lines after it, in reverse. The first is missing
  where it was escaped. -/
  | breaks (first : Option Char) (further : List Char)

namespace Gap

def empty : Gap := .blanks []

/-- The gap holds the end of a line. -/
def isBroken : Gap → Bool
  | .blanks _ => false
  | .breaks .. => true

def isEmpty : Gap → Bool
  | .blanks read => read.isEmpty
  | .breaks .. => false

/-- Blanks next to a line end do not count. -/
def add (g : Gap) (c : Char) : Gap :=
  match g with
  | .blanks read => if isBreak c then .breaks (some c) [] else .blanks (c :: read)
  | .breaks first further => if isBreak c then .breaks first (c :: further) else g

/-- What the gap counts as. -/
def fold : Gap → List Char
  | .blanks read => read.reverse
  | .breaks (some '\n') [] => [' ']
  | .breaks (some '\n') further => further.reverse
  | .breaks first further => first.toList ++ further.reverse

end Gap

/-- A scalar as far as it has been read: its characters in reverse, and the gap after them. -/
structure Draft where
  read : List Char
  gap : Gap

namespace Draft

def empty : Draft := ⟨[], .empty⟩

/-- Takes the gap into the scalar. -/
def settle (d : Draft) : Draft := ⟨d.gap.fold.reverse ++ d.read, .empty⟩

def add (d : Draft) (c : Char) : Draft := ⟨c :: d.settle.read, .empty⟩

def space (d : Draft) (c : Char) : Draft := { d with gap := d.gap.add c }

/-- The scalar without the gap after it. -/
def text (d : Draft) : String := String.ofList d.read.reverse

end Draft

/-- The character that a backslash and a letter denote between double quotes. -/
def escaped? : Char → Option Char
  | '0' => some '\x00'
  | 'a' => some '\x07'
  | 'b' => some '\x08'
  | 't' => some '\t'
  | '\t' => some '\t'
  | 'n' => some '\n'
  | 'v' => some '\x0b'
  | 'f' => some '\x0c'
  | 'r' => some '\r'
  | 'e' => some '\x1b'
  | ' ' => some ' '
  | '"' => some '"'
  | '/' => some '/'
  | '\\' => some '\\'
  | 'N' => some '\x85'
  | '_' => some '\xa0'
  | 'L' => some '\u2028'
  | 'P' => some '\u2029'
  | _ => none

/-- The number of hexadecimal digits that follow a backslash and a letter. -/
def escapedDigits? : Char → Option Nat
  | 'x' => some 2
  | 'u' => some 4
  | 'U' => some 8
  | _ => none

def ofCode? (n : Nat) : Option Char := if n.isValidChar then some (Char.ofNat n) else none

end Highlighting.Yaml
