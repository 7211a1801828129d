import Highlighting.Grammar.Words
import Highlighting.Main
import Highlighting.Proofs.Content.Pieces
import Highlighting.Proofs.Content.Leaves
import Highlighting.Proofs.Content.Lines
import Highlighting.Proofs.Content.Marks
import Highlighting.Proofs.Content.Answers
import Highlighting.Proofs.Nesting.Bytes
import Highlighting.Proofs.Nesting.Family
import Highlighting.Proofs.Nesting.Placed
import Highlighting.Proofs.Nesting.Cursor
import Highlighting.Proofs.Nesting.Tree
import Highlighting.Proofs.Loading.Walk
import Highlighting.Proofs.Loading.Coverage
import Highlighting.Proofs.Loading.Isolation
import Highlighting.Proofs.Loading.Order
import Highlighting.Proofs.Delimiters.Gaps
import Highlighting.Proofs.Delimiters.Survivors
import Highlighting.Proofs.Text.Cutting
import Highlighting.Proofs.Text.Keeping
import Highlighting.Proofs.Lines.Kept
import Highlighting.Proofs.Lines.Partition
import Highlighting.Proofs.Marking.Leftmost
import Highlighting.Proofs.Diff.Header
import Highlighting.Proofs.Diff.Reading
import Highlighting.Proofs.Diff.Sides
import Highlighting.Proofs.Diff.Budget
import Highlighting.Proofs.Wire.Canonical
import Highlighting.Proofs.Wire.Nodes
import Highlighting.Proofs.Wire.Messages
import Highlighting.Proofs.Worker.Registry
import Highlighting.Proofs.Worker.Themes
import Highlighting.Proofs.Worker.History
import Highlighting.Proofs.Worker.Queues
import Highlighting.Proofs.Worker.Session
import Highlighting.Proofs.Worker.Waiting
import Highlighting.Proofs.Worker.Exchange
import Highlighting.Proofs.Worker.Blocking
import Highlighting.Proofs.Worker.View
import Highlighting.Proofs.Diff.Accepting
import Highlighting.Proofs.Diff.Blocks
import Highlighting.Proofs.Diff.Offences
import Highlighting.Proofs.Diff.Outcome
import Highlighting.Proofs.Diff.Overrun
import Highlighting.Proofs.Lines.Cells
import Highlighting.Proofs.Lines.Agreement
import Highlighting.Proofs.Lines.CellLines
import Highlighting.Proofs.Loading.Precedence
import Highlighting.Proofs.Worker.Limits
import Highlighting.Proofs.Diff.Whitespace
import Highlighting.Proofs.Diff.SharedLimit
import Highlighting.Proofs.Diff.Revealed
import Highlighting.Proofs.Sorting
import Highlighting.Proofs.Text.Finding
import Highlighting.Proofs.Delimiters.Enclosing
import Highlighting.Proofs.Delimiters.Fallback
import Highlighting.Proofs.Marking.Replacing
import Highlighting.Proofs.Marking.Rounds
import Highlighting.Proofs.Marking.Collisions
import Highlighting.Proofs.Content.Flattening
import Highlighting.Proofs.Nesting.Renaming
import Highlighting.Proofs.Nesting.Rearranging
import Highlighting.Proofs.Marking.Grouping
import Highlighting.Proofs.Naming.Ancestors
import Highlighting.Proofs.Command.Answer
import Highlighting.Proofs.Naming.Languages
