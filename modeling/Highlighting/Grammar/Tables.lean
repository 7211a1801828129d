import Highlighting.Json.Basic
import Highlighting.Text.Path

/-! Which grammar a language name means, and which grammars a grammar builds on. -/

namespace Highlighting

/-- The language of text that needs no grammar. -/
def plainText : String := "text"

/-- Aliases of grammars, and the direct dependencies of each grammar. -/
structure Tables where
  aliases : Dict String
  dependencies : Dict (List String)
  deriving DecidableEq, Inhabited

namespace Tables

def empty : Tables := ⟨∅, ∅⟩

def builtinAliases : List (String × String) :=
  [("js", "javascript"), ("mjs", "javascript"), ("cjs", "javascript"), ("jsx", "javascript"),
   ("ts", "typescript"), ("mts", "typescript"), ("htm", "html"), ("xhtml", "html"),
   ("rs", "rust"), ("h", "c"), ("c++", "cpp"), ("cc", "cpp"), ("cxx", "cpp"), ("hpp", "cpp"),
   ("golang", "go"), ("py", "python"), ("sh", "bash"), ("shell", "bash"), ("zsh", "bash"),
   ("svg", "xml"), ("xsd", "xml"), ("dosini", "ini"), ("cfg", "ini"), ("rkt", "scheme"),
   ("racket", "scheme"), ("scm", "scheme"), ("txt", plainText), ("plaintext", plainText),
   ("none", plainText)]

def builtinDependencies : List (String × List String) :=
  [("typescript", ["javascript"]), ("tsx", ["typescript"]), ("cpp", ["c"])]

def builtin : Tables := ⟨.ofList builtinAliases, .ofList builtinDependencies⟩

/-- Lays the entries of `other` over these. -/
def merge (t other : Tables) : Tables :=
  ⟨t.aliases.merge other.aliases, t.dependencies.merge other.dependencies⟩

/-- The grammar that a language name means: what it is an alias of, else the name itself. -/
def resolve (t : Tables) (language : String) : String := (t.aliases.get? language).getD language

/-- The direct dependencies of a grammar, as they are listed. -/
def dependenciesOf (t : Tables) (grammar : String) : List String :=
  (t.dependencies.get? grammar).getD []

def edges (t : Tables) (grammar : String) : List String :=
  (t.dependenciesOf grammar).map t.resolve

/-- The grammar for a file, by the lower case of its extension; plain text without one. -/
def languageOfPath (t : Tables) (path : String) : String :=
  match Text.extension? path with
  | some extension => t.resolve (Text.lowercase extension)
  | none => plainText

def toJson (t : Tables) : Json :=
  .obj [("aliases", Json.ofDict .str t.aliases),
    ("dependencies", Json.ofDict Json.ofStrings t.dependencies)]

def ofJson? (j : Json) : Option Tables := do
  let fields ← j.record? ["aliases", "dependencies"]
  pure
    { aliases := ← Json.optional? fields "aliases" ∅ (Json.asDict? Json.asString?)
      dependencies := ← Json.optional? fields "dependencies" ∅ (Json.asDict? Json.asStrings?) }

end Tables

end Highlighting
