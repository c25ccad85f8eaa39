import Outline.Error
import Outline.Text.Quoted

/-!
# Configuration

A configuration says how the output is laid out and how the indentation of the source is measured.
It never changes what a document means.
-/

set_option autoImplicit false

namespace Outline

/-- How the output marks the body of a block. -/
inductive BlockStyle where
  /-- The header ends in a colon and the body is indented. -/
  | colonIndent
  /-- The body stands between braces. -/
  | brace
  deriving DecidableEq, Repr

/-- The options of one run. -/
structure Config where
  /-- How the output marks the body of a block. -/
  blockStyle : BlockStyle := .colonIndent
  /-- What the output writes for each level of nesting. -/
  indentationUnit : Text := [' ', ' ']
  /-- What the source writes for each level of nesting; found from the source when absent. -/
  sourceIndentationUnit : Option Text := none
  /-- Whether comments on lines of their own go to the output. -/
  keepComments : Bool := false
  deriving DecidableEq, Repr

namespace Config

/-- What can be wrong with a configuration. -/
inductive Fault where
  /-- A block style has no such name. -/
  | unknownStyle (name : Text)
  /-- The option holds a text that is no indentation unit. -/
  | badUnit (option : String) (unit : Text)
  /-- The configuration text is not of the accepted form. -/
  | unreadable
  deriving DecidableEq, Repr

/-- The wording of a fault. -/
def Fault.message : Fault → String
  | .unknownStyle name =>
    s!"unrecognized block style '{String.ofList name}' (expected 'colon-indent' or 'brace')"
  | .badUnit option unit =>
    let shown := String.ofList (Text.quoted unit)
    s!"{option} must be a non-empty run of spaces or of tabs, got {shown}"
  | .unreadable => "invalid configuration"

/-- The error that reports a fault. -/
def Fault.error (fault : Fault) : Error := .configuration fault.message

end Config

namespace BlockStyle

/-- The name of a block style. -/
def name : BlockStyle → String
  | .colonIndent => "colon-indent"
  | .brace => "brace"

/-- The block style of a name. -/
def ofName? (s : Text) : Option BlockStyle :=
  if s = "colon-indent".toList then some .colonIndent
  else if s = "brace".toList then some .brace
  else none

/-- The block style of a name, or the error that there is none. -/
def ofName (s : Text) : Except Error BlockStyle :=
  match ofName? s with
  | some style => .ok style
  | none => .error (Config.Fault.unknownStyle s).error

end BlockStyle

/-- Whether a text is an indentation unit: a non-empty run of spaces or of tabs. -/
def Text.isIndentUnit (s : Text) : Bool :=
  !s.isEmpty && (s.all (· == ' ') || s.all (· == '\t'))

namespace Config

/-- Whether an option holds an indentation unit. -/
def checkUnit (option : String) (unit : Text) : Except Error Unit :=
  if Text.isIndentUnit unit then .ok () else .error (Fault.badUnit option unit).error

/-- Whether the options can be honoured: both units must be indentation units. -/
def validate (config : Config) : Except Error Unit := do
  checkUnit "indentationUnit" config.indentationUnit
  match config.sourceIndentationUnit with
  | some unit => checkUnit "sourceIndentationUnit" unit
  | none => return ()

end Config
end Outline
