import Outline.Classify.Statement

/-!
# Classification

Every node is given its role in one pass in document order. The role depends on the node, on what
its parent expects of its children, on the statement before it, and on the names introduced by the
nodes before it. A node introduces its names before its children are looked at, so that the body of
a function may call it.
-/

set_option autoImplicit false

namespace Outline

namespace Classify

/-- What a node expects of its children. -/
inductive Context where
  /-- Statements: the top level, or the body of a block. -/
  | block
  /-- Entries of `packages:`. -/
  | imports
  /-- Pairs of a mapping. -/
  | dict
  /-- Items of a list. -/
  | list
  deriving DecidableEq, Repr

/-- What a node with a role expects of its children. -/
def Context.below (role : Role) : Context :=
  if role = .importList then .imports
  else
    match role.aggregate? with
    | some .dict => .dict
    | some .list => .list
    | _ => .block

/-- Whether lines of code may stand below a node with a role. -/
def mayOwnBlock (role : Role) : Bool :=
  role.opensBlock || role == .importList || role.aggregate? == some .dict ||
    role.aggregate? == some .list

/-- The role of a node, given the shapes of the lines of code below it. -/
def decideRole [Letters] (table : SymbolTable) (context : Context) (previous : Option Role)
    (node : Node) (shapes : List Shape) : Except Error Role :=
  match node.shape, context with
  | .comment, _ => .ok .comment
  | _, .imports => report node.line (importEntry node)
  | _, .dict => report node.line (dictEntry node shapes)
  | _, .list => report node.line (listEntry node shapes)
  | .keyed, .block => keyedStatement table previous node shapes
  | .bare, .block => bareStatement table node
  | .item, .block => .error (Fault.strayItem.error node.line)

/-- The role of a node, if lines of code may stand below it or none do. -/
def role [Letters] (table : SymbolTable) (context : Context) (previous : Option Role) (node : Node)
    (shapes : List Shape) : Except Error Role := do
  let role ← decideRole table context previous node shapes
  if mayOwnBlock role || shapes.isEmpty then return role
  else .error ((Fault.ownsBlock role).error node.line)

/-- The forest with the role of each node, and the names known after it. -/
def siblings [Letters] (context : Context) :
    (previous : Option Role) → SymbolTable → Forest Node → Except Error (Forest Node × SymbolTable)
  | _, table, .nil => .ok (.nil, table)
  | previous, table, .cons node children rest => do
    let role ← role table context previous node (children.codeRoots.map Node.shape)
    let (children, table) ← siblings (.below role) none (table.declare node role) children
    let (rest, table) ← siblings context (if node.isCode then some role else previous) table rest
    return (.cons { node with role } children rest, table)

end Classify

/-- The forest with the role of each node, and the names that the document introduces. -/
def Forest.classify [Letters] (forest : Forest Node) : Except Error (Forest Node × SymbolTable) :=
  Classify.siblings .block none {} forest

end Outline
