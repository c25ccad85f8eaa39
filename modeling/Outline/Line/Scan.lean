import Outline.Config.Basic
import Outline.Line.Basic
import Outline.Text.Quoting

/-!
# Scanning a source into logical lines

A source is cut into rows, each with its indentation and its trimmed body. The unit of indentation
is the one that the configuration gives, or else the shortest indentation of a code row. A row of
code becomes a logical line whose depth counts units; a comment row becomes one only on request,
and its depth is rounded down.
-/

set_option autoImplicit false

namespace Outline

/-- The mark that starts a comment. -/
def commentMark : Char := '#'

namespace Text

/-- The text up to a trailing comment, from a given place with respect to string literals. -/
def dropCommentFrom : Quoting → Text → Text
  | _, [] => []
  | quoting, c :: rest =>
    if quoting = .outside ∧ c = commentMark then []
    else c :: dropCommentFrom (quoting.step c) rest

/-- The text without a trailing comment; a comment mark inside a string literal is no comment. -/
def dropComment (s : Text) : Text := dropCommentFrom .outside s

end Text

/-! ## Rows -/

/-- A line of the source as written. -/
structure Row where
  /-- The number of the row, counted from one. -/
  number : Nat
  /-- The blanks before the body. -/
  indent : Text
  /-- The text without the blanks at either end. -/
  body : Text
  deriving DecidableEq, Repr

namespace Row

/-- The row that a line of the source makes. -/
def ofText (number : Nat) (s : Text) : Row := ⟨number, s.takeWhile Text.isBlank, Text.trim s⟩

/-- The comment that the row holds, without its mark, if it is a comment row. -/
def comment? (row : Row) : Option Text :=
  match row.body with
  | [] => none
  | c :: rest => if c = commentMark then some (Text.trim rest) else none

/-- Whether the row holds code: it is neither blank nor a comment. -/
def isCode (row : Row) : Bool := !row.body.isEmpty && row.comment?.isNone

end Row

/-- The rows of a source, a byte order mark at its start left out. -/
def Row.ofSource (source : Text) : List Row :=
  let source := match source with
    | '\ufeff' :: rest => rest
    | source => source
  (Text.lines source).zipIdx.map fun (s, index) => Row.ofText (index + 1) s

/-! ## Indentation -/

namespace Indent

/-- What can be wrong with an indentation. -/
inductive Fault where
  /-- Blanks of two kinds, or of another kind than the unit, are used. -/
  | mixed
  /-- The line is indented although no unit is known. -/
  | unexpected
  /-- The width is not a multiple of the width of the unit. -/
  | ragged (width unit : Nat)
  deriving DecidableEq, Repr

/-- The wording of a fault. -/
def Fault.message : Fault → String
  | .mixed => "indentation mixes tabs and spaces"
  | .unexpected => "unexpected indentation"
  | .ragged width unit =>
    s!"indentation of {width} is not a multiple of the {unit}-character indentation unit"

/-- The error that reports a fault on a line. -/
def Fault.error (fault : Fault) (line : Nat) : Error := .structural line fault.message

/-- Whether an indentation can stand beside the unit found so far: it is a run of one kind of
blank, and of the same kind as that unit. -/
def agrees (unit : Option Text) (indent : Text) : Bool :=
  Text.isIndentUnit indent &&
    match unit with
    | none => true
    | some unit => indent.head? == unit.head?

/-- The shorter of the unit found so far and an indentation. -/
def shorter (unit : Option Text) (indent : Text) : Text :=
  match unit with
  | none => indent
  | some unit => if indent.length < unit.length then indent else unit

/-- The shortest indentation of the code rows, after the unit found so far. All of them must be
runs of the same kind of blank. -/
def unitFrom : Option Text → List Row → Except Error (Option Text)
  | unit, [] => .ok unit
  | unit, row :: rows =>
    if !row.isCode || row.indent.isEmpty then unitFrom unit rows
    else if agrees unit row.indent then unitFrom (some (shorter unit row.indent)) rows
    else .error (Fault.mixed.error row.number)

/-- The unit of indentation of rows: the one that the configuration gives, or else the shortest
indentation of the code rows. -/
def unitOf (config : Config) (rows : List Row) : Except Error (Option Text) :=
  match config.sourceIndentationUnit with
  | some unit => .ok (some unit)
  | none => unitFrom none rows

/-- The number of units in an indentation. -/
def depth (unit : Option Text) (indent : Text) : Except Fault Nat :=
  if indent.isEmpty then .ok 0
  else
    match unit with
    | none => .error .unexpected
    | some unit =>
      if indent.any (· != unit.headD ' ') then .error .mixed
      else if indent.length % unit.length ≠ 0 then .error (.ragged indent.length unit.length)
      else .ok (indent.length / unit.length)

/-- The number of whole units in an indentation, any blank counted alike. -/
def depthRounded (unit : Option Text) (indent : Text) : Nat :=
  match unit with
  | none => 0
  | some unit => indent.length / unit.length

end Indent

/-! ## Lines -/

namespace Line

/-- The logical lines of a row: none for a blank row, none or one for a comment, one for code. -/
def ofRow (keepComments : Bool) (unit : Option Text) (row : Row) : Except Error (List Line) :=
  if row.body.isEmpty then .ok []
  else
    match row.comment? with
    | some text =>
      .ok (if keepComments then [.comment (Indent.depthRounded unit row.indent) text row.number]
        else [])
    | none =>
      match Indent.depth unit row.indent with
      | .error fault => .error (fault.error row.number)
      | .ok depth => .ok [.code depth (Text.trimEnd (Text.dropComment row.body)) row.number]

/-- The logical lines of rows, in order. -/
def ofRows (keepComments : Bool) (unit : Option Text) : List Row → Except Error (List Line)
  | [] => .ok []
  | row :: rows => do
    let line ← ofRow keepComments unit row
    let lines ← ofRows keepComments unit rows
    return line ++ lines

/-- The logical lines of a source. -/
def scan (config : Config) (source : Text) : Except Error (List Line) := do
  config.validate
  let unit ← Indent.unitOf config (Row.ofSource source)
  ofRows config.keepComments unit (Row.ofSource source)

end Line
end Outline
