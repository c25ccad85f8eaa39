import Outline.Classify.Data
import Outline.Header.Basic
import Outline.Header.Range
import Outline.Symbols
import Outline.Text.Place

/-!
# Roles of statements

The role of a line of a block is decided by its key or text, by the names known so far, by whether
it has lines below it, and, for an alternative, by the role of the statement before it.
-/

set_option autoImplicit false

namespace Outline.Classify

/-! ## Headers -/

/-- Whether a statement may be followed by an alternative. -/
def isCondition : Option Role → Bool
  | some (.ifHeader _) => true
  | some (.elifHeader _) => true
  | _ => false

/-- The role of a header, before its body is looked at. -/
def headerRole [Letters] (table : SymbolTable) (previous : Option Role) (line : Nat) :
    Header → Except Error Role
  | .ifThen condition => .ok (.ifHeader condition)
  | .elifThen condition =>
    if isCondition previous then .ok (.elifHeader condition)
    else .error ((Fault.noCondition "elif").error line)
  | .otherwise =>
    if isCondition previous then .ok .elseHeader
    else .error ((Fault.noCondition "else").error line)
  | .whileLoop condition => .ok (.whileHeader condition)
  | .forLoop targets iterable =>
    match Text.after? "range.".toList iterable with
    | some _ => do
      let _ ← RangeSugar.read line iterable
      return .rangeForHeader targets iterable
    | none => .ok (.forHeader targets iterable)
  | .function name param =>
    match table.assignmentLine? name with
    | some line => .error (.undefinedCallable name line)
    | none => .ok (.functionDef name (if param = ['_'] then none else some param))

/-- The role of a line whose key starts with a header keyword. It has no value and a body. -/
def headerStatement [Letters] (table : SymbolTable) (previous : Option Role) (keyword : Text)
    (node : Node) (hasBody : Bool) : Except Error Role :=
  if node.value.isSome then .error ((Fault.headerValue keyword).error node.line)
  else do
    let header ← Header.read node.line node.keyText
    let role ← headerRole table previous node.line header
    if hasBody then return role else .error (noBody keyword node.line)

/-! ## Pairs -/

/-- Whether a key names something to call: a function, an imported member, or a member of an
imported module. -/
def isCallableKey (table : SymbolTable) (key : Text) : Bool :=
  table.isCallable key ||
    match Text.cutAtFirstDot? key with
    | some (root, rest) => table.isModule root && Text.isDottedPath rest
    | none => false

/-- The role of a pair whose key is no header and no word of the language: a call of what the key
names, or else an assignment to it. -/
def plainStatement (table : SymbolTable) (node : Node) (shapes : List Shape) :
    Except Fault Role :=
  if isCallableKey table node.keyText then (callAggregate node shapes).map .argCall
  else if Text.isPlace node.keyText then
    (pairAggregate node.keyText node shapes).map .assignment
  else .error (.unrecognized (node.keyText ++ [':']))

/-- A fault becomes the error that reports it on a line. -/
def report {α : Type} (line : Nat) : Except Fault α → Except Error α
  | .ok a => .ok a
  | .error fault => .error (fault.error line)

/-- The role of a pair in a block. -/
def keyedStatement [Letters] (table : SymbolTable) (previous : Option Role) (node : Node)
    (shapes : List Shape) : Except Error Role :=
  match Header.keyword? node.keyText with
  | some keyword => headerStatement table previous keyword node (!shapes.isEmpty)
  | none =>
    if node.keyText = "print".toList then .ok .print
    else if node.keyText = "return".toList then .ok .returnValue
    else if node.keyText = "packages".toList then
      if node.value.isSome || shapes.isEmpty then .error (Fault.packagesForm.error node.line)
      else .ok .importList
    else if node.keyText.isEmpty then .error (Fault.missingName.error node.line)
    else report node.line (plainStatement table node shapes)

/-! ## Lines without a colon -/

/-- The text before a final semicolon. -/
def beforeSemicolon? (s : Text) : Option Text :=
  if s.getLast? = some ';' then some (Text.trim s.dropLast) else none

/-- Whether a called name is known: the root of a path, or a callable or builtin name. -/
def resolves (table : SymbolTable) (callee : Text) : Bool :=
  match Text.cutAtFirstDot? callee with
  | some (root, _) => table.isKnown root
  | none => table.isCallable callee || isBuiltin callee

/-- The words that are statements on their own. -/
def flowWords : List Text := ["break".toList, "continue".toList, "pass".toList]

/-- The role of a line without a colon. -/
def bareStatement (table : SymbolTable) (node : Node) : Except Error Role :=
  match beforeSemicolon? node.valueText with
  | some callee =>
    if !Text.isDottedPath callee then .error ((Fault.notCall node.valueText).error node.line)
    else if resolves table callee then .ok (.bareCall callee)
    else .error (.undefinedCallable callee node.line)
  | none =>
    if flowWords.contains node.valueText then .ok .flow
    else if node.valueText = "return".toList then .ok .returnValue
    else
      match Header.keyword? node.valueText with
      | some keyword => .error ((Fault.missingColon keyword).error node.line)
      | none => .error ((Fault.unrecognized node.valueText).error node.line)

/-! ## Imports -/

/-- The path and the nickname of an import. -/
def splitNickname (text : Text) : Text × Option Text :=
  match Text.cutAtKeyword? "as".toList text with
  | some (path, nickname) => (Text.trim path, some (Text.trim nickname))
  | none => (text, none)

/-- The import that a text names. -/
def importPath? (text : Text) : Option ImportPath :=
  let (path, nickname) := splitNickname text
  if Text.isDottedPath path && nickname.all Text.isIdentifier then
    match Text.cutAtLastDot? path with
    | some (source, member) => some ⟨source, some member, nickname⟩
    | none => some ⟨path, none, nickname⟩
  else none

/-- The role of an entry of `packages:`. -/
def importEntry (node : Node) : Except Fault Role :=
  match node.shape, node.key, node.value with
  | .item, none, some text =>
    match importPath? text with
    | some path => .ok (.importEntry path)
    | none => .error (.importPath text)
  | _, _, _ => .error .importForm

end Outline.Classify
