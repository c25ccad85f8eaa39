import Outline.Text.Basic

/-!
# Logical lines

A logical line is a line of the source that says something: blank lines are gone, and the
indentation has become a depth.
-/

set_option autoImplicit false

namespace Outline

/-- Whether a logical line carries code or a kept comment. -/
inductive LineKind where
  | code
  | comment
  deriving DecidableEq, Repr

/-- A line of the source that says something. -/
structure Line where
  /-- The number of indentation units before the line. -/
  depth : Nat
  /-- The text without indentation, trailing blanks and trailing comment; of a comment, the text
  after its mark. -/
  content : Text
  /-- The number of the line in the source, counted from one. -/
  number : Nat
  /-- Whether the line is code or a comment. -/
  kind : LineKind
  deriving DecidableEq, Repr

namespace Line

/-- A line of code. -/
def code (depth : Nat) (content : Text) (number : Nat) : Line := ⟨depth, content, number, .code⟩

/-- A kept comment. -/
def comment (depth : Nat) (content : Text) (number : Nat) : Line :=
  ⟨depth, content, number, .comment⟩

/-- Whether a line is a kept comment. -/
def isComment (line : Line) : Bool := line.kind == .comment

end Line
end Outline
