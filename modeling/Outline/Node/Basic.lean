import Outline.Forest
import Outline.Line.Basic
import Outline.Text.Nesting

/-!
# Nodes

A node holds what one logical line says: its shape, the key and the value it is cut into, its line
number, and the role that it plays in the document. Roles are given later; a fresh node has none.
-/

set_option autoImplicit false

namespace Outline

/-- The form of the line a node was made from. -/
inductive Shape where
  /-- `key: value` or `key:`, cut at the first top-level colon. -/
  | keyed
  /-- A line without a top-level colon. -/
  | bare
  /-- A list item, led by a dash. -/
  | item
  /-- A kept comment. -/
  | comment
  deriving DecidableEq, Repr

/-- What a node that can carry data holds. -/
inductive Aggregate where
  /-- The value on its own line. -/
  | scalar
  /-- The `key: value` entries below it. -/
  | dict
  /-- The `- value` entries below it. -/
  | list
  deriving DecidableEq, Repr

/-- An entry of a list of imports. -/
structure ImportPath where
  /-- The module, a dotted path. -/
  source : Text
  /-- The member taken from the module, if one is named. -/
  member : Option Text
  /-- The name given to what is imported, if one is chosen. -/
  nickname : Option Text
  deriving DecidableEq, Repr

/-- The name that an import binds: its nickname, or else its member, or else its module. -/
def ImportPath.boundName (path : ImportPath) : Text :=
  (path.nickname.or path.member).getD path.source

/-- What a node means in the document. -/
inductive Role where
  /-- No role has been given yet. -/
  | unclassified
  /-- `place: value`, or `place:` with a nested mapping or list. -/
  | assignment (aggregate : Aggregate)
  /-- `name;` -/
  | bareCall (callee : Text)
  /-- `callable: arguments` -/
  | argCall (aggregate : Aggregate)
  | ifHeader (condition : Text)
  | elifHeader (condition : Text)
  | elseHeader
  | whileHeader (condition : Text)
  | forHeader (targets : List Text) (iterable : Text)
  /-- A loop over range sugar such as `range.1.10`. -/
  | rangeForHeader (targets : List Text) (range : Text)
  | functionDef (name : Text) (param : Option Text)
  | returnValue
  | print
  /-- `packages:` -/
  | importList
  /-- An entry of `packages:`. -/
  | importEntry (path : ImportPath)
  /-- An entry of a list. -/
  | listEntry (aggregate : Aggregate)
  /-- An entry of a mapping. -/
  | dictEntry (aggregate : Aggregate)
  /-- `break`, `continue` or `pass`. -/
  | flow
  /-- A kept comment. -/
  | comment
  deriving DecidableEq, Repr

namespace Role

/-- Whether the children of a node with this role are the body of a block. -/
def opensBlock : Role → Bool
  | .ifHeader _ | .elifHeader _ | .elseHeader | .whileHeader _ | .forHeader _ _
  | .rangeForHeader _ _ | .functionDef _ _ => true
  | _ => false

/-- What a node with this role holds, if it carries data. -/
def aggregate? : Role → Option Aggregate
  | .assignment a | .argCall a | .listEntry a | .dictEntry a => some a
  | _ => none

/-- The name of a role. -/
def name : Role → String
  | .unclassified => "Unclassified"
  | .assignment _ => "Assignment"
  | .bareCall _ => "BareCall"
  | .argCall _ => "ArgCall"
  | .ifHeader _ => "IfHeader"
  | .elifHeader _ => "ElifHeader"
  | .elseHeader => "ElseHeader"
  | .whileHeader _ => "WhileHeader"
  | .forHeader _ _ => "ForHeader"
  | .rangeForHeader _ _ => "RangeForHeader"
  | .functionDef _ _ => "FunctionDef"
  | .returnValue => "Return"
  | .print => "Print"
  | .importList => "ImportList"
  | .importEntry _ => "ImportEntry"
  | .listEntry _ => "ListEntry"
  | .dictEntry _ => "DictEntry"
  | .flow => "Flow"
  | .comment => "Comment"

end Role

/-- What one logical line says. -/
structure Node where
  /-- What the node means. -/
  role : Role
  /-- The form of the line. -/
  shape : Shape
  /-- The text before the colon, if the line has one. -/
  key : Option Text
  /-- The text after the colon, or the whole text of a line without one; never blank. -/
  value : Option Text
  /-- The number of the line. -/
  line : Nat
  deriving DecidableEq, Repr

namespace Node

/-- The key, empty when there is none. -/
def keyText (node : Node) : Text := node.key.getD []

/-- The value, empty when there is none. -/
def valueText (node : Node) : Text := node.value.getD []

/-- Whether the node was made from a line of code. -/
def isCode (node : Node) : Bool := node.shape != .comment

/-- Whether a text is enclosed in quotes of one kind. -/
def isEnclosed (s : Text) : Bool :=
  2 ≤ s.length && (s.head? == some '"' && s.getLast? == some '"' ||
    s.head? == some '\'' && s.getLast? == some '\'')

/-- The key and the value of a list item. Only an identifier or a quoted key makes a pair. -/
def splitItem (item : Text) : Option Text × Option Text :=
  match Text.cutAt? ':' item with
  | some (before, after) =>
    if Text.isIdentifier (Text.trim before) || isEnclosed (Text.trim before) then
      (some (Text.trim before), Text.nonBlank? after)
    else (none, Text.nonBlank? item)
  | none => (none, Text.nonBlank? item)

/-- The shape, the key and the value of a line of code. -/
def splitContent (content : Text) : Shape × Option Text × Option Text :=
  match content with
  | ['-'] => (.item, none, none)
  | '-' :: ' ' :: item => (.item, splitItem (Text.trim item))
  | _ =>
    match Text.cutAt? ':' content with
    | some (before, after) => (.keyed, some (Text.trim before), Text.nonBlank? after)
    | none => (.bare, none, Text.nonBlank? content)

/-- The node that a logical line makes. -/
def ofLine (line : Line) : Node :=
  match line.kind with
  | .comment => ⟨.unclassified, .comment, none, some line.content, line.number⟩
  | .code =>
    let (shape, key, value) := splitContent line.content
    ⟨.unclassified, shape, key, value, line.number⟩

end Node

namespace Forest

/-- The roots made from lines of code. -/
def codeRoots (forest : Forest Node) : List Node := forest.roots.filter Node.isCode

/-- Whether a root was made from a line of code. -/
def hasCode (forest : Forest Node) : Bool := forest.roots.any Node.isCode

end Forest
end Outline
