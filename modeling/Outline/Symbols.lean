import Outline.Node.Basic
import Outline.Text.NameSet

/-!
# Names in scope

A document has one flat scope, filled in document order: a name is visible to the lines after the
one that introduces it. The table tells functions, imports, variables and plain assignments apart,
because what a line means depends on which of them its key is.
-/

set_option autoImplicit false

namespace Outline

/-- The names that the target language provides without any import. -/
def builtins : List Text :=
  ["abs", "all", "any", "bool", "breakpoint", "chr", "dict", "divmod", "enumerate", "exit",
    "filter", "float", "format", "help", "input", "int", "isinstance", "iter", "len", "list",
    "map", "max", "min", "next", "open", "ord", "pow", "print", "quit", "range", "repr",
    "reversed", "round", "set", "sorted", "str", "sum", "tuple", "type", "zip"].map String.toList

/-- Whether the target language provides a name. -/
def isBuiltin (name : Text) : Bool := builtins.contains name

/-- What an import binds its name to. -/
inductive ImportKind where
  /-- A whole module. -/
  | module
  /-- A member of a module. -/
  | member
  deriving DecidableEq, Repr

namespace ImportPath

/-- What the import binds its name to. -/
def kind (path : ImportPath) : ImportKind := if path.member.isSome then .member else .module

end ImportPath

/-- The names introduced so far, the newest first. -/
structure SymbolTable where
  /-- Functions, each with the line of its definition. -/
  functions : List (Text × Nat) := []
  /-- Imported names. -/
  imports : List (Text × ImportKind) := []
  /-- Variables. -/
  variableNames : List Text := []
  /-- Names assigned by `name: value` lines, each with the first such line. -/
  assignments : List (Text × Nat) := []
  deriving DecidableEq, Repr

namespace SymbolTable

/-! ## Introducing names -/

/-- The table with one more function. -/
def defineFunction (table : SymbolTable) (name : Text) (line : Nat) : SymbolTable :=
  { table with functions := (name, line) :: table.functions }

/-- The table with one more import. -/
def defineImport (table : SymbolTable) (path : ImportPath) : SymbolTable :=
  { table with imports := (path.boundName, path.kind) :: table.imports }

/-- The table with one more variable. -/
def defineVariable (table : SymbolTable) (name : Text) : SymbolTable :=
  { table with variableNames := name :: table.variableNames }

/-- The table with more variables. -/
def defineVariables (table : SymbolTable) (names : List Text) : SymbolTable :=
  names.foldl defineVariable table

/-- The table with one more assignment; the first line that assigns a name is kept. -/
def defineAssignment (table : SymbolTable) (name : Text) (line : Nat) : SymbolTable :=
  { table.defineVariable name with
    assignments :=
      if (table.assignments.lookup name).isSome then table.assignments
      else (name, line) :: table.assignments }

/-! ## Asking about names -/

/-- The line of the first plain assignment to a name. -/
def assignmentLine? (table : SymbolTable) (name : Text) : Option Nat :=
  table.assignments.lookup name

/-- The line of the last definition of a function. -/
def functionLine? (table : SymbolTable) (name : Text) : Option Nat := table.functions.lookup name

/-- Whether a name was last imported as a module. -/
def isModule (table : SymbolTable) (name : Text) : Bool :=
  table.imports.lookup name == some .module

/-- Whether a name is a function, or was last imported as a member. -/
def isCallable (table : SymbolTable) (name : Text) : Bool :=
  (table.functionLine? name).isSome || table.imports.lookup name == some .member

/-- Whether a name is bound at all, or provided by the target language. -/
def isKnown (table : SymbolTable) (name : Text) : Bool :=
  (table.functionLine? name).isSome || (table.imports.lookup name).isSome ||
    table.variableNames.contains name || isBuiltin name

/-- The names of the functions, ascending. -/
def functionNames (table : SymbolTable) : List Text :=
  (NameSet.ofList (table.functions.map Prod.fst)).toList

/-! ## What a node introduces -/

/-- The identifier that an assigned place starts with. -/
def rootName (place : Text) : Text := Text.leadingWord (Text.trim place)

/-- The table after a node with a role. -/
def declare (table : SymbolTable) (node : Node) : Role → SymbolTable
  | .assignment _ =>
    if Text.isIdentifier node.keyText then table.defineAssignment node.keyText node.line
    else table.defineVariables ((node.keyText.splitOn ',').map rootName)
  | .forHeader targets _ => table.defineVariables targets
  | .rangeForHeader targets _ => table.defineVariables targets
  | .functionDef name param =>
    (table.defineVariables param.toList).defineFunction name node.line
  | .importEntry path => table.defineImport path
  | _ => table

end SymbolTable
end Outline
