import Outline.Program.Data

/-!
# Programs

A program of the target language is a forest of statements: a statement is a line of its own, or the
header of a block whose body is below it. How blocks are marked is left open here; it is decided
when the program is laid out.
-/

set_option autoImplicit false

namespace Outline

/-- What a statement does to the layout. -/
inductive StatementForm where
  /-- It is a line of its own. -/
  | plain
  /-- It opens a block. -/
  | header
  /-- It opens a block that continues the block before it. -/
  | continuation
  deriving DecidableEq, Repr

/-- A statement of a program. -/
structure Statement where
  /-- The text, without what the layout adds. -/
  text : Text
  /-- What it does to the layout. -/
  form : StatementForm
  deriving DecidableEq, Repr

namespace Program

/-- What a node contributes to a program. -/
inductive Output where
  /-- A line of its own. -/
  | line (text : Text)
  /-- The header of a block made from its children. -/
  | block (header : Text) (form : StatementForm)
  /-- The statements of its children, and none of its own. -/
  | children
  deriving DecidableEq, Repr

/-! ## Single statements -/

/-- The statement that makes an import. -/
def importStatement (path : ImportPath) : Text :=
  let suffix := match path.nickname with
    | some name => " as ".toList ++ name
    | none => []
  match path.member with
  | some member => "from ".toList ++ path.source ++ " import ".toList ++ member ++ suffix
  | none => "import ".toList ++ path.source ++ suffix

/-- Whether a text starts with a string literal, perhaps after a mark. -/
def startsWithLiteral (s : Text) : Bool :=
  let mark := s.takeWhile "rbfuRBFU".toList.contains
  mark.length ≤ 2 && (s.drop mark.length).head?.any Text.isQuote

/-- Whether a printed value is a template without quotes: it starts neither with a string nor with a
bracket, has a placeholder, and opens no call or subscript before its first brace. -/
def isBareTemplate (s : Text) : Bool :=
  match s with
  | [] => false
  | first :: _ =>
    let before := s.takeWhile (· != '{')
    !Text.isOpening first && !startsWithLiteral s && before.length < s.length &&
      !(before.contains '(' || before.contains '[') &&
      match Template.split s with
      | .ok segments => Template.hasPlaceholders segments
      | .error _ => false

/-- The text of a call. -/
def call (callee arguments : Text) : Text := callee ++ '(' :: arguments ++ [')']

/-- What is printed: a template without quotes is quoted first. -/
def printed [Letters] (node : Node) : Except Error (Traced Text) :=
  match node.value with
  | none => .ok ([], [])
  | some raw =>
    value node.line (if isBareTemplate raw then Expression.quoteTemplate raw else raw)

/-- What a loop runs over: two targets over a name run over its items. -/
def iterated [Letters] (line : Nat) (targets : List Text) (iterable : Text) :
    Except Error (Traced Text) := do
  let (text, roots) ← value line iterable
  if targets.length = 2 && Text.isIdentifier iterable then
    return (text ++ ".items()".toList, roots)
  else return (text, roots)

/-- The header of a loop. -/
def forHeader (targets : List Text) (iterated : Text) : Text :=
  "for ".toList ++ commas targets ++ " in ".toList ++ iterated

/-- A word and the expression after it, as the header of a block. -/
def conditionHeader [Letters] (word : String) (form : StatementForm) (line : Nat)
    (condition : Text) : Except Error (Traced Output) := do
  let (text, roots) ← value line condition
  return (.block (word.toList ++ ' ' :: text) form, roots)

/-- The wording for a node whose role makes no statement. -/
def notStatement (role : Role) : String := s!"{role.name} cannot be emitted as a statement"

/-- What a node contributes, given the forest below it. -/
def output [Letters] (node : Node) (children : Forest Node) : Except Error (Traced Output) :=
  match node.role with
  | .comment => .ok (.line ("# ".toList ++ node.valueText), [])
  | .flow => .ok (.line node.valueText, [])
  | .assignment aggregate => do
    let (text, roots) ← nodeValue aggregate node children
    return (.line (node.keyText ++ " = ".toList ++ text), roots)
  | .argCall aggregate => do
    let (arguments, roots) ← callArguments aggregate node children
    return (.line (call node.keyText arguments), roots)
  | .bareCall callee => .ok (.line (call callee []), [])
  | .print => do
    let (text, roots) ← printed node
    return (.line (call "print".toList text), roots)
  | .returnValue =>
    match node.shape, node.value with
    | .keyed, some raw => do
      let (text, roots) ← value node.line raw
      return (.line ("return ".toList ++ text), roots)
    | _, _ => .ok (.line "return".toList, [])
  | .ifHeader condition => conditionHeader "if" .header node.line condition
  | .elifHeader condition => conditionHeader "elif" .continuation node.line condition
  | .elseHeader => .ok (.block "else".toList .continuation, [])
  | .whileHeader condition => conditionHeader "while" .header node.line condition
  | .forHeader targets iterable => do
    let (text, roots) ← iterated node.line targets iterable
    return (.block (forHeader targets text) .header, roots)
  | .rangeForHeader targets range => do
    let (text, roots) ← value node.line range
    return (.block (forHeader targets text) .header, roots)
  | .functionDef name param =>
    .ok (.block ("def ".toList ++ call name (param.getD [])) .header, [])
  | .importList => .ok (.children, [])
  | .importEntry path => .ok (.line (importStatement path), [])
  | .listEntry _ | .dictEntry _ | .unclassified =>
    .error (.expression node.line (notStatement node.role))

end Program

/-! ## Whole programs -/

/-- A program with the member roots met while it was made. -/
structure Program where
  /-- The statements. -/
  statements : Forest Statement
  /-- The names whose members are taken, in the order in which they are met. -/
  memberRoots : List MemberRoot
  deriving DecidableEq, Repr

namespace Program

/-- The statements of a forest of nodes. -/
def statementsOf [Letters] : Forest Node → Except Error (Traced (Forest Statement))
  | .nil => .ok (.nil, [])
  | .cons node children rest => do
    let (output, ownRoots) ← output node children
    match output with
    | .line text => do
      let (after, roots) ← statementsOf rest
      .ok (.cons ⟨text, .plain⟩ .nil after, ownRoots ++ roots)
    | .block header form => do
      let (body, bodyRoots) ← statementsOf children
      let (after, roots) ← statementsOf rest
      .ok (.cons ⟨header, form⟩ body after, ownRoots ++ bodyRoots ++ roots)
    | .children => do
      let (body, bodyRoots) ← statementsOf children
      let (after, roots) ← statementsOf rest
      .ok (body.append after, ownRoots ++ bodyRoots ++ roots)

/-- The program that a forest of nodes makes. -/
def ofForest [Letters] (forest : Forest Node) : Except Error Program := do
  let (statements, memberRoots) ← statementsOf forest
  return { statements, memberRoots }

end Program
end Outline
