import Outline.Error
import Outline.Node.Basic

/-!
# Nesting lines by depth

Lines are nested in one pass, which keeps the chain of open nodes. A line of code closes the open
nodes that are at its own depth or deeper. It then becomes the last child of the innermost node that
is left, or the last root, and is open itself; so it may be at most one level deeper than the line
of code before it, and the first one is not indented. A comment waits for the next line of code and
nests like it.
-/

set_option autoImplicit false

namespace Outline

namespace Nest

/-- What can be wrong with the depth of a line. -/
inductive Fault where
  /-- The first line of code is indented. -/
  | topLevel
  /-- The line is more than one level below the line of code before it. -/
  | jump (levels above : Nat)
  deriving DecidableEq, Repr

/-- The wording of a fault. -/
def Fault.message : Fault → String
  | .topLevel => "unexpected indentation at top level"
  | .jump levels above => s!"indentation jumps {levels} levels below the line {above} block"

/-- The error that reports a fault on a line. -/
def Fault.error (fault : Fault) (line : Nat) : Error := .structural line fault.message

/-- What the pass knows after some lines. -/
structure State where
  /-- The open nodes, innermost first, each with the children it has so far. -/
  stack : List (Node × Forest Node) := []
  /-- The trees whose roots are closed. -/
  roots : Forest Node := .nil
  /-- The comments that wait for a line of code. -/
  pending : List Node := []
  deriving DecidableEq, Repr

namespace State

/-- A forest is put behind the children of the innermost open node, or behind the roots. -/
def attach (state : State) (forest : Forest Node) : State :=
  match state.stack with
  | [] => { state with roots := state.roots.append forest }
  | (node, children) :: outer => { state with stack := (node, children.append forest) :: outer }

/-- The innermost open node is closed: it is the last child of the one around it, or the last
root. -/
def close (state : State) : State :=
  match state.stack with
  | [] => state
  | (node, children) :: outer =>
    { state with stack := outer }.attach (.cons node children .nil)

/-- Attaching a forest opens no node and closes none. -/
@[simp]
theorem length_stack_attach (state : State) (forest : Forest Node) :
    (state.attach forest).stack.length = state.stack.length := by
  unfold attach
  split
  · rfl
  next open? => rw [open?, List.length_cons, List.length_cons]

/-- Closing leaves one open node less, so `closeTo` comes to an end. -/
@[simp]
theorem length_stack_close (state : State) :
    state.close.stack.length = state.stack.length - 1 := by
  unfold close
  split
  next none => rw [none, List.length_nil]
  next some => rw [length_stack_attach, some, List.length_cons, Nat.add_sub_cancel]

/-- The open nodes at a depth or deeper are closed. -/
def closeTo (depth : Nat) (state : State) : State :=
  if depth < state.stack.length then closeTo depth state.close else state
termination_by state.stack.length
decreasing_by
  rw [length_stack_close]
  omega

/-- The waiting comments and then a node are put in their place, and the node is open. -/
def enter (state : State) (node : Node) : State :=
  let placed := state.attach (.flat state.pending)
  { placed with stack := (node, .nil) :: placed.stack, pending := [] }

/-- What is wrong with a line that is too deep below the open nodes. -/
def fault (state : State) (line : Line) : Fault :=
  match state.stack with
  | [] => .topLevel
  | (parent, _) :: _ => .jump (line.depth + 1 - state.stack.length) parent.line

/-- The state after one more line. -/
def step (state : State) (line : Line) : Except Error State :=
  if line.isComment then .ok { state with pending := state.pending ++ [.ofLine line] }
  else
    let closed := state.closeTo line.depth
    if closed.stack.length < line.depth then .error ((closed.fault line).error line.number)
    else .ok (closed.enter (.ofLine line))

/-- The forest after the last line: every open node is closed, and the comments that still wait are
roots. -/
def finish (state : State) : Forest Node := (state.closeTo 0).roots.append (.flat state.pending)

end State

end Nest

/-- The forest of logical lines, if their depths nest. -/
def Forest.ofLines (lines : List Line) : Except Error (Forest Node) := do
  let state ← lines.foldlM Nest.State.step {}
  return state.finish

end Outline
