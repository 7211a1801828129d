import Highlighting.Text.Path

/-! Where the configuration and the logs of a user are. -/

namespace Highlighting.Config

/-- The directory of this program inside a configuration directory. -/
def directoryName : String := "syntax-worker"

/-- The directory of this program: in the configuration directory that is set, else in that of the
home directory. -/
def directory? (configured home : Option String) : Option String :=
  let base := configured <|> home.map fun h => Text.joinPath h ".config"
  base.map fun b => Text.joinPath b directoryName

def file? (configured home : Option String) : Option String :=
  (directory? configured home).map fun d => Text.joinPath d "config.yaml"

def logs? (configured home : Option String) : Option String :=
  (directory? configured home).map fun d => Text.joinPath d "logs"

end Highlighting.Config
