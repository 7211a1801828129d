import Highlighting.Diff.Hunk
import Highlighting.Number.Unsigned
import Highlighting.Text.Blank
import Highlighting.Text.Lines
import Highlighting.Text.Search

/-! Reading the hunks of a unified diff. A hunk starts at its header and takes lines until both of
its sides have as many as the header declares; lines between hunks belong to file headers. -/

namespace Highlighting

/-- What is wrong with a diff, and in which line. -/
inductive DiffFault where
  | malformedHeader (line : Nat) (header : String)
  | orphanChange (line : Nat)
  deriving DecidableEq, Repr

def DiffFault.message : DiffFault → String
  | malformedHeader line header =>
    "line " ++ toString line ++ ": malformed hunk header: " ++ header
  | orphanChange line =>
    "line " ++ toString line ++ ": unexpected change line outside of a hunk"

namespace Hunk

/-- Reads `start,count`; without a count it is one line. -/
def readRange? (range : List Char) : Option (UInt64 × UInt64) :=
  match Text.splitFirst? [','] range with
  | some (start, count) => do
    pure (← Number.readUnsigned? start, ← Number.readUnsigned? count)
  | none => do pure (← Number.readUnsigned? range, 1)

def isHeader (line : List Char) : Bool := (Text.after? ['@', '@'] line).isSome

/-- Reads a header such as `@@ -12,3 +12,4 @@`, which anything may follow. -/
def ofHeader? (line : List Char) : Option Hunk := do
  let inner ← Text.after? ['@', '@', ' '] line
  let (ranges, _) ← Text.splitFirst? [' ', '@', '@'] inner
  match Text.words ranges with
  | ('-' :: old) :: ('+' :: new) :: _ =>
    let (oldStart, oldLines) ← readRange? old
    let (newStart, newLines) ← readRange? new
    pure ⟨String.ofList line, oldStart, oldLines, newStart, newLines, []⟩
  | _ => none

end Hunk

/-- The change that a line of a hunk stands for. A line that is empty stands for an empty normal
one; other lines stand for none. -/
def Change.ofLine? : List Char → Option Change
  | '+' :: content => some ⟨.insert, String.ofList content⟩
  | '-' :: content => some ⟨.delete, String.ofList content⟩
  | ' ' :: content => some ⟨.normal, String.ofList content⟩
  | [] => some ⟨.normal, ""⟩
  | _ => none

/-- A hunk that is being read, and how many lines each side still lacks. -/
structure OpenHunk where
  hunk : Hunk
  oldLeft : Nat
  newLeft : Nat

namespace OpenHunk

def ofHunk (h : Hunk) : OpenHunk := ⟨h, h.oldLines.toNat, h.newLines.toNat⟩

def lacksLines (o : OpenHunk) : Bool := 0 < o.oldLeft || 0 < o.newLeft

/-- Adds a change at the end of the hunk. A side that has all its lines lacks none after more. -/
def add (o : OpenHunk) (c : Change) : OpenHunk :=
  { hunk := { o.hunk with changes := o.hunk.changes ++ [c] }
    oldLeft := if c.kind = .insert then o.oldLeft else o.oldLeft - 1
    newLeft := if c.kind = .delete then o.newLeft else o.newLeft - 1 }

def takeLine (o : OpenHunk) (line : List Char) : OpenHunk :=
  match Change.ofLine? line with
  | some c => o.add c
  | none => o

end OpenHunk

/-- The hunks of the lines from number `number` on, where `current` is the hunk before them. -/
def readHunks (current : Option OpenHunk) (number : Nat) :
    List (List Char) → Except DiffFault (List Hunk)
  | [] => .ok (current.toList.map OpenHunk.hunk)
  | line :: rest =>
    if Hunk.isHeader line then
      match Hunk.ofHeader? line with
      | none => .error (.malformedHeader number (String.ofList line))
      | some h => do
        let later ← readHunks (some (.ofHunk h)) (number + 1) rest
        pure (current.toList.map OpenHunk.hunk ++ later)
    else match current.filter OpenHunk.lacksLines with
      | some o => readHunks (some (o.takeLine line)) (number + 1) rest
      | none =>
        if line.head? = some ' ' then .error (.orphanChange number)
        else readHunks current (number + 1) rest

/-- The hunks of a unified diff, which may span several files. -/
def parseDiff (text : String) : Except DiffFault (List Hunk) :=
  readHunks none 1 (Text.lines text.toList)

end Highlighting
