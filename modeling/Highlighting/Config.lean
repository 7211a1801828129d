import Highlighting.Grammar.Tables
import Highlighting.Grammar.Theme

/-! The configuration of a worker. -/

namespace Highlighting

/-- Limits, and what is laid over the built-in tables. -/
structure Config where
  nodeLimit : Option UInt64
  diffLimit : UInt64
  aliases : Dict String
  dependencies : Dict (List String)
  theme : Theme
  deriving DecidableEq

namespace Config

/-- The configuration of those who did not write one. -/
def standard : Config := ⟨some 10000, 600, ∅, ∅, .empty⟩

instance : Inhabited Config := ⟨standard⟩

def tables (c : Config) : Tables := Tables.builtin.merge ⟨c.aliases, c.dependencies⟩

end Config

end Highlighting
