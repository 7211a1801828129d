import Highlighting.Mark.Delimited
import Highlighting.Worker.Client

/-! One view of highlighted text. It remembers its latest job, shows the tree it has until that job
is answered, and shows plain text where it has none. -/

namespace Highlighting

structure Slot where
  pending : Option JobId
  state : HighlightState
  fallback : Forest
  deriving Inhabited

namespace Slot

def new : Slot := ⟨none, .blank, []⟩

/-- A job was submitted; it takes the place of one that is pending. -/
def begin (slot : Slot) (id : JobId) : Slot :=
  { slot with
    pending := some id
    state := { slot.state with isLoading := true, error := none } }

variable {σ : Type}

/-- Submits a text with the rendering to show instead. The rendering stays also if the worker is
gone. -/
def submit (slot : Slot) (c : Client σ) (fallback : Forest) (job : HighlightJob) :
    Option JobId × Slot × Client σ :=
  let slot := { slot with fallback }
  match c.submitHighlight job with
  | (none, c) => (none, slot, c)
  | (some id, c) => (some id, slot.begin id, c)

def request (slot : Slot) (c : Client σ) (value language : String) (options : HighlightOptions) :
    Option JobId × Slot × Client σ :=
  slot.submit c (Forest.plain value) (options.job value language)

/-- Requests that a text with delimiters be highlighted without them. The matches show only in the
plain rendering. -/
def requestMarked (slot : Slot) (c : Client σ) (raw : String) (bounds : Bounds)
    (language : String) (options : HighlightOptions) : Option JobId × Slot × Client σ :=
  let stripped := bounds.strip raw
  slot.submit c stripped.fallback (options.job stripped.text language)

/-- Takes a response if it answers the latest job; else nothing changes. -/
def apply (slot : Slot) (r : Response) : Bool × Slot :=
  if slot.pending = some r.id then
    (true, { slot with pending := none, state := .ofResponse r })
  else (false, slot)

/-- The highlighted tree, or else the plain rendering. -/
def rendered (slot : Slot) : Forest := slot.state.tree.getD slot.fallback

end Slot

end Highlighting
