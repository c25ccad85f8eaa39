import Outline.Text.Basic

/-!
# Errors

An error says which part of the work refused the document, where, and why. Each part words its own
faults; here they are put under the heading of their kind.
-/

set_option autoImplicit false

namespace Outline

/-- Why a document, a configuration or a file was refused. -/
inductive Error where
  /-- The lines do not nest. -/
  | structural (line : Nat) (message : String)
  /-- A line has no role where it stands. -/
  | classification (line : Nat) (message : String)
  /-- A value has no expression. -/
  | expression (line : Nat) (message : String)
  /-- A name is called before it is defined or imported. -/
  | undefinedCallable (name : Text) (line : Nat)
  /-- An option has a value that cannot be honoured. -/
  | configuration (message : String)
  /-- A file could not be read or written. -/
  | io (message : String)
  deriving DecidableEq, Repr

namespace Error

/-- The kinds of errors that callers tell apart. -/
inductive Kind where
  | structural
  | classification
  | expression
  | configuration
  | io
  deriving DecidableEq, Repr

/-- The kind of an error. An undefined callable is an error of the expression kind. -/
def kind : Error → Kind
  | .structural .. => .structural
  | .classification .. => .classification
  | .expression .. => .expression
  | .undefinedCallable .. => .expression
  | .configuration .. => .configuration
  | .io .. => .io

/-- The word that names a kind in reports. -/
def Kind.name : Kind → String
  | .structural => "Structural"
  | .classification => "Classification"
  | .expression => "Translation"
  | .configuration => "Configuration"
  | .io => "Io"

/-- The source line an error points at, if it points at one. -/
def line? : Error → Option Nat
  | .structural line _ => some line
  | .classification line _ => some line
  | .expression line _ => some line
  | .undefinedCallable _ line => some line
  | .configuration _ => none
  | .io _ => none

/-- The full text of an error. -/
def text : Error → String
  | .structural line message => s!"Structural error at line {line}: {message}"
  | .classification line message => s!"Classification error at line {line}: {message}"
  | .expression line message => s!"Translation error at line {line}: {message}"
  | .undefinedCallable name line =>
    s!"Undefined callable '{String.ofList name}' at line {line}: " ++
      "functions must be defined before they are called"
  | .configuration message => s!"Configuration error: {message}"
  | .io message => s!"IO error: {message}"

end Error
end Outline
