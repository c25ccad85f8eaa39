import Outline.Diagnostic.Basic
import Outline.Program.Data
import Outline.Symbols

/-!
# Unresolved modules

A name whose member is taken should be bound by something. One that is not is probably a module that
was never imported; it is reported once, where it occurs first.
-/

set_option autoImplicit false

namespace Outline

/-- The column, in bytes from one, at which a source line takes a member of a name; one when it is
not found there. -/
def MemberRoot.column (name line : Text) : Nat :=
  let standsAlone (before _after : Text) : Bool :=
    match before with
    | [] => true
    | c :: _ => !Text.isWordChar c && c != '.'
  match Text.cutAtOccurrence? (name ++ ['.']) standsAlone line with
  | some (before, _) => Text.byteSize before + 1
  | none => 1

/-- The warning that a name is used like a module. -/
def MemberRoot.warning (file : Option String) (lines : List Text) (root : MemberRoot) :
    Diagnostic where
  code := "PYML-UNRESOLVED-MODULE"
  message :=
    s!"'{String.ofList root.name}' is used as a module but is never imported " ++
      "(add it under 'packages:')"
  severity := .warning
  span :=
    let column := match lines[root.line - 1]? with
      | some line => MemberRoot.column root.name line
      | none => 1
    .onLine file root.line column (Text.byteSize root.name)
  phase := "translate"
  subject := some root.name

/-- The roots that nothing binds, each at its first occurrence; the names in `seen` have
occurred. -/
def unresolvedFrom (table : SymbolTable) : (seen : List Text) → List MemberRoot → List MemberRoot
  | _, [] => []
  | seen, root :: roots =>
    if table.isKnown root.name || seen.contains root.name then unresolvedFrom table seen roots
    else root :: unresolvedFrom table (root.name :: seen) roots

/-- The warnings for the roots that nothing binds. -/
def unresolvedModules (file : Option String) (source : Text) (roots : List MemberRoot)
    (table : SymbolTable) : Diagnostics :=
  (unresolvedFrom table [] roots).map (MemberRoot.warning file (Text.lines source))

end Outline
