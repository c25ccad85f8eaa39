import Outline.Classify.Basic
import Outline.Diagnostic.Unresolved
import Outline.Line.Scan
import Outline.Node.Nest
import Outline.Program.Layout

/-!
# Documents

From a source to the program it means: the lines are scanned, nested and classified, the forest
becomes a program, and the program is laid out. `compile` gives the code or the first error;
`diagnose` gives the code with warnings, or the error as a diagnostic.
-/

set_option autoImplicit false

namespace Outline

/-- A document whose lines have roles, and the names it introduces. -/
structure Analysis where
  /-- The classified forest. -/
  forest : Forest Node
  /-- The names that the document introduces. -/
  symbols : SymbolTable
  deriving DecidableEq, Repr

/-- The code of a document, and what is to be said about it. -/
structure Compiled where
  /-- The code. -/
  code : Text
  /-- The warnings. -/
  warnings : Diagnostics
  deriving DecidableEq, Repr

/-- A source is scanned, nested and classified. -/
def analyze [Letters] (config : Config) (source : Text) : Except Error Analysis := do
  let lines ← Line.scan config source
  let forest ← Forest.ofLines lines
  let (forest, symbols) ← forest.classify
  return { forest, symbols }

/-- The code of a source. -/
def compile [Letters] (config : Config) (source : Text) : Except Error Text := do
  let analysis ← analyze config source
  let program ← Program.ofForest analysis.forest
  return program.code config

/-- The code of a source with its warnings, or the error that refuses it. -/
def compileWithWarnings [Letters] (config : Config) (file : Option String) (source : Text) :
    Except Error Compiled := do
  let analysis ← analyze config source
  let program ← Program.ofForest analysis.forest
  return {
    code := program.code config
    warnings := unresolvedModules file source program.memberRoots analysis.symbols }

/-- The code of a source with its warnings, or its error as a diagnostic. -/
def diagnose [Letters] (config : Config) (file : Option String) (source : Text) :
    Except Diagnostics Compiled :=
  match compileWithWarnings config file source with
  | .ok compiled => .ok compiled
  | .error error => .error [.ofError file error]

end Outline
