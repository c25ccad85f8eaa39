import Outline.Config.Basic
import Outline.Program.Basic

/-!
# Layout of a program

A program is laid out as lines with a depth, which a block style marks and an indentation unit
indents. The colon style ends a header with a colon. The brace style ends it with an opening brace
and closes the block with a line of its own, onto which a header that continues the block moves.
-/

set_option autoImplicit false

namespace Outline

/-- A line of the output. -/
structure CodeLine where
  /-- The number of indentation units before the text. -/
  depth : Nat
  /-- The text. -/
  text : Text
  deriving DecidableEq, Repr

namespace BlockStyle

/-- A header with the mark that opens its block. -/
def opened (style : BlockStyle) (header : Text) : Text :=
  match style with
  | .colonIndent => header ++ [':']
  | .brace => header ++ [' ', '{']

/-- The line that closes a block, if the style has one. -/
def closing? : BlockStyle → Option Text
  | .colonIndent => none
  | .brace => some ['}']

end BlockStyle

/-- The lines written so far, the newest first. -/
structure Buffer where
  /-- The lines, the newest first. -/
  newestFirst : List CodeLine := []
  deriving DecidableEq, Repr

namespace Buffer

/-- The lines in order. -/
def toList (buffer : Buffer) : List CodeLine := buffer.newestFirst.reverse

/-- The number of lines. -/
def size (buffer : Buffer) : Nat := buffer.newestFirst.length

/-- Whether no line has been written. -/
def isEmpty (buffer : Buffer) : Bool := buffer.newestFirst.isEmpty

/-- The lines with one more at the end. -/
def push (buffer : Buffer) (depth : Nat) (text : Text) : Buffer :=
  ⟨⟨depth, text⟩ :: buffer.newestFirst⟩

/-- The lines without the last one, if that is the given line. -/
def popIfLast? (buffer : Buffer) (depth : Nat) (text : Text) : Option Buffer :=
  match buffer.newestFirst with
  | [] => none
  | last :: rest => if last = ⟨depth, text⟩ then some ⟨rest⟩ else none

/-- A line with its indentation and the line feed that ends it. -/
def renderLine (unit : Text) (line : CodeLine) : Text :=
  (List.replicate line.depth unit).flatten ++ line.text ++ ['\n']

/-- The text of the lines. -/
def render (unit : Text) (buffer : Buffer) : Text := buffer.toList.flatMap (renderLine unit)

/-- A line is pushed behind the others. -/
@[simp]
theorem toList_push (buffer : Buffer) (depth : Nat) (text : Text) :
    (buffer.push depth text).toList = buffer.toList ++ [⟨depth, text⟩] := by
  rw [toList, push, List.reverse_cons]
  rfl

/-! ## Blocks -/

/-- The header of a block is written. One that continues the block before it takes the place of the
line that closed that block, if this line comes right before, and keeps its mark. -/
def openBlock (style : BlockStyle) (depth : Nat) (statement : Statement) (buffer : Buffer) :
    Buffer :=
  let header := style.opened statement.text
  match statement.form, style.closing? with
  | .continuation, some closing =>
    match buffer.popIfLast? depth closing with
    | some buffer => buffer.push depth (closing ++ ' ' :: header)
    | none => buffer.push depth header
  | _, _ => buffer.push depth header

/-- A block is closed. -/
def closeBlock (style : BlockStyle) (depth : Nat) (buffer : Buffer) : Buffer :=
  match style.closing? with
  | some closing => buffer.push depth closing
  | none => buffer

/-- Statements are written, at a depth. -/
def layout (style : BlockStyle) : (depth : Nat) → Forest Statement → Buffer → Buffer
  | _, .nil, buffer => buffer
  | depth, .cons statement body rest, buffer =>
    match statement.form with
    | .plain => layout style depth rest (buffer.push depth statement.text)
    | .header | .continuation =>
      let inner := layout style (depth + 1) body (buffer.openBlock style depth statement)
      layout style depth rest (inner.closeBlock style depth)

end Buffer

namespace Program

/-- The lines of a program in a block style. -/
def lines (program : Program) (style : BlockStyle) : List CodeLine :=
  (Buffer.layout style 0 program.statements {}).toList

/-- The text of a program. -/
def code (program : Program) (config : Config) : Text :=
  (Buffer.layout config.blockStyle 0 program.statements {}).render config.indentationUnit

end Program
end Outline
