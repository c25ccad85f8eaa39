import Outline.Node.Basic

/-!
# Listing a forest

A listing shows a forest with a line for each node: the line number, the name of the role indented
by the depth of the node, and the source text.
-/

set_option autoImplicit false

namespace Outline

/-- The source text of a node as a listing shows it. -/
def Node.sourceText (node : Node) : Text :=
  match node.key, node.value with
  | some key, some value => key ++ ": ".toList ++ value
  | some key, none => key ++ [':']
  | none, some value => value
  | none, none => []

/-- The line of a listing for a node at a depth. -/
def Node.listed (depth : Nat) (node : Node) : Text :=
  ['['] ++ Text.padded 3 node.line ++ "] ".toList ++ List.replicate (2 * depth) ' ' ++
    node.role.name.toList ++ [' '] ++ node.sourceText ++ ['\n']

/-- The listing of a forest. -/
def Forest.listing (forest : Forest Node) : Text :=
  (forest.levels 0).flatMap fun (depth, node) => node.listed depth

end Outline
