import Outline.Error
import Outline.Json

/-!
# Diagnostics

A diagnostic is an error or a warning as tools want it: with a code, a place in the source and the
part of the work it comes from. Diagnostics are written as lines of text or as JSON.
-/

set_option autoImplicit false

namespace Outline

/-- A stretch of a source line. Columns count bytes from one. -/
structure Span where
  /-- The file, if the source comes from one. -/
  file : Option String
  /-- The line it starts on. -/
  line : Nat
  /-- The column it starts at. -/
  column : Nat
  /-- The line it ends on. -/
  endLine : Nat
  /-- The column of its last byte. -/
  endColumn : Nat
  deriving DecidableEq, Repr

/-- The stretch of a line with a start and a length; without a length it is one column. -/
def Span.onLine (file : Option String) (line column length : Nat) : Span :=
  ⟨file, line, column, line, column + (length - 1)⟩

/-- How much a diagnostic matters. -/
inductive Severity where
  | error
  | warning
  deriving DecidableEq, Repr

/-- The name of a severity. -/
def Severity.name : Severity → String
  | .error => "error"
  | .warning => "warning"

/-- An error or a warning with its place in the source. -/
structure Diagnostic where
  /-- The code that tells tools what it is about. -/
  code : String
  /-- The message for people. -/
  message : String
  /-- How much it matters. -/
  severity : Severity
  /-- Where it points. -/
  span : Span
  /-- The part of the work it comes from. -/
  phase : String
  /-- The name it is about, if it is about one. -/
  subject : Option Text := none
  deriving DecidableEq, Repr

namespace Diagnostic

/-- The diagnostic of an error. One without a line points at the first. -/
def ofError (file : Option String) (error : Error) : Diagnostic :=
  let make (code message : String) (line : Nat) (phase : String) : Diagnostic :=
    { code, message, severity := .error, span := .onLine file line 1 1, phase }
  match error with
  | .structural line message => make "PYML-STRUCTURAL-ERROR" message line "structure"
  | .classification line message => make "PYML-CLASSIFICATION-ERROR" message line "classify"
  | .expression line message => make "PYML-TRANSLATION-ERROR" message line "translate"
  | .undefinedCallable name line =>
    make "PYML-UNDEFINED-CALLABLE"
      s!"'{String.ofList name}' is called before it is defined or imported" line "classify"
  | .configuration message => make "PYML-CONFIGURATION-ERROR" message 1 "config"
  | .io _ => make "PYML-IO-ERROR" error.text 1 "io"

/-- A diagnostic as a line of text. -/
def line (d : Diagnostic) : String :=
  let file := d.span.file.getD "<input>"
  s!"[{d.code}] {file}:{d.span.line}:{d.span.column} {d.message}\n"

/-- A text as a JSON string. -/
def quoteString (s : String) : Text := Json.quote s.toList

/-- A span as JSON; without a file there is no such member. -/
def spanJson (span : Span) : Text :=
  Json.object (
    (span.file.toList.map fun file => ("file", quoteString file)) ++
    [("line", Text.ofNat span.line), ("column", Text.ofNat span.column),
      ("end_line", Text.ofNat span.endLine), ("end_column", Text.ofNat span.endColumn)])

/-- A diagnostic as JSON; one about no name has no such member. -/
def json (d : Diagnostic) : Text :=
  Json.object (
    [("code", quoteString d.code), ("message", quoteString d.message),
      ("severity", quoteString d.severity.name), ("span", spanJson d.span),
      ("phase", quoteString d.phase)] ++
    d.subject.toList.map fun name => ("meta", Json.object [("name", Json.quote name)]))

end Diagnostic

/-- Diagnostics, in the order in which they were found. -/
abbrev Diagnostics := List Diagnostic

namespace Diagnostics

/-- Whether an error is among them. -/
def hasErrors (ds : Diagnostics) : Bool := ds.any (·.severity == .error)

/-- The diagnostics as lines of text. -/
def text (ds : Diagnostics) : String := String.join (ds.map Diagnostic.line)

/-- The diagnostics as JSON. -/
def json (ds : Diagnostics) : String :=
  String.ofList (Json.object [("diagnostics", Json.array (ds.map Diagnostic.json))])

end Diagnostics
end Outline
