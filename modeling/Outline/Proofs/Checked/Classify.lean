import Outline.Classify.Basic
import Outline.Proofs.Checked.Text

/-!
# Classifying nodes by offsets

The roles of a forest with checked operations: the keyword of a header, the place that a key assigns
to and the nickname of an import are all cut out of their line at offsets. What looks at characters
only is taken as it is.
-/

set_option autoImplicit false

namespace Outline.Checked

open Text Classify

/-! ## Headers -/

/-- The header keyword that a text starts with, as a whole word. -/
def keyword? (s : Text) : Checked (Option Text) := do
  let word ← leadingWord s
  return if Header.keywords.contains word then some word else none

/-- The first word of a header is cut off on a character boundary. -/
theorem keyword?_eq (s : Text) : keyword? s = .ok (Header.keyword? s) := by
  rw [keyword?, leadingWord_eq]
  rfl

/-- The header that a text on a line is, or the error that it is none. -/
def readHeader [Letters] (line : Nat) (s : Text) : Run Error Header := do
  let keyword ← keyword? s
  match Header.read? s with
  | some header => return header
  | none =>
    let word := String.ofList (keyword.getD "control".toList)
    throw (.classification line s!"malformed '{word}' header `{String.ofList s}`")

/-- A header is read without a trap. -/
theorem readHeader_eq [Letters] (line : Nat) (s : Text) :
    readHeader line s = total (Header.read line s) := by
  rw [readHeader, lift_bind (keyword?_eq s), Header.read]
  cases Header.read? s <;> rfl

/-- The role of a line whose key starts with a header keyword. -/
def headerStatement [Letters] (table : SymbolTable) (previous : Option Role) (keyword : Text)
    (node : Node) (hasBody : Bool) : Run Error Role :=
  if node.value.isSome then throw ((Fault.headerValue keyword).error node.line)
  else do
    let header ← readHeader node.line node.keyText
    let role ← total (headerRole table previous node.line header)
    if hasBody then return role else throw (noBody keyword node.line)

theorem headerStatement_eq [Letters] (table : SymbolTable) (previous : Option Role) (keyword : Text)
    (node : Node) (hasBody : Bool) :
    headerStatement table previous keyword node hasBody =
      total (Classify.headerStatement table previous keyword node hasBody) := by
  rw [headerStatement, Classify.headerStatement]
  split
  · rfl
  · refine total_bind (readHeader_eq node.line node.keyText) fun header _ => ?_
    refine total_bind rfl fun role _ => ?_
    split <;> rfl

/-! ## Statements -/

/-- A fault becomes the error that reports it on a line. -/
def report {α : Type} (line : Nat) (step : Run Fault α) : Run Error α :=
  step.adapt fun fault => fault.error line

theorem report_eq {α : Type} {step : Run Fault α} {outcome : Except Fault α} (line : Nat)
    (same : step = total outcome) : report line step = total (Classify.report line outcome) := by
  rw [report, adapt_total _ same]
  cases outcome <;> rfl

/-- The role of a pair whose key is no header and no word of the language. -/
def plainStatement (table : SymbolTable) (node : Node) (shapes : List Shape) : Run Fault Role :=
  if isCallableKey table node.keyText then total ((callAggregate node shapes).map .argCall)
  else do
    let place ← isPlace node.keyText
    if place then total ((pairAggregate node.keyText node shapes).map .assignment)
    else throw (.unrecognized (node.keyText ++ [':']))

theorem plainStatement_eq (table : SymbolTable) (node : Node) (shapes : List Shape) :
    plainStatement table node shapes = total (Classify.plainStatement table node shapes) := by
  rw [plainStatement, Classify.plainStatement]
  split
  · rfl
  · rw [lift_bind (isPlace_eq node.keyText)]
    split <;> rfl

/-- The role of a pair in a block. -/
def keyedStatement [Letters] (table : SymbolTable) (previous : Option Role) (node : Node)
    (shapes : List Shape) : Run Error Role := do
  let keyword ← keyword? node.keyText
  match keyword with
  | some keyword => headerStatement table previous keyword node (!shapes.isEmpty)
  | none =>
    if node.keyText = "print".toList then return .print
    else if node.keyText = "return".toList then return .returnValue
    else if node.keyText = "packages".toList then
      if node.value.isSome || shapes.isEmpty then throw (Fault.packagesForm.error node.line)
      else return .importList
    else if node.keyText.isEmpty then throw (Fault.missingName.error node.line)
    else report node.line (plainStatement table node shapes)

/-- The role of a node with a key is found without a trap. -/
theorem keyedStatement_eq [Letters] (table : SymbolTable) (previous : Option Role) (node : Node)
    (shapes : List Shape) :
    keyedStatement table previous node shapes =
      total (Classify.keyedStatement table previous node shapes) := by
  rw [keyedStatement, lift_bind (keyword?_eq node.keyText), Classify.keyedStatement]
  cases Header.keyword? node.keyText with
  | some keyword => exact headerStatement_eq table previous keyword node _
  | none =>
    have plain := report_eq node.line (plainStatement_eq table node shapes)
    dsimp only
    rw [plain]
    repeat' split
    all_goals rfl

/-- The role of a line without a colon. -/
def bareStatement (table : SymbolTable) (node : Node) : Run Error Role :=
  match beforeSemicolon? node.valueText with
  | some callee =>
    if !isDottedPath callee then throw ((Fault.notCall node.valueText).error node.line)
    else if resolves table callee then return .bareCall callee
    else throw (.undefinedCallable callee node.line)
  | none =>
    if flowWords.contains node.valueText then return .flow
    else if node.valueText = "return".toList then return .returnValue
    else do
      let keyword ← keyword? node.valueText
      match keyword with
      | some keyword => throw ((Fault.missingColon keyword).error node.line)
      | none => throw ((Fault.unrecognized node.valueText).error node.line)

/-- The role of a node without a key is found without a trap. -/
theorem bareStatement_eq (table : SymbolTable) (node : Node) :
    bareStatement table node = total (Classify.bareStatement table node) := by
  rw [bareStatement, lift_bind (keyword?_eq node.valueText), Classify.bareStatement]
  cases beforeSemicolon? node.valueText with
  | some callee =>
    dsimp only
    repeat' split
    all_goals rfl
  | none =>
    cases Header.keyword? node.valueText <;> dsimp only
    all_goals repeat' split
    all_goals rfl

/-! ## Imports -/

/-- The path and the nickname of an import. -/
def splitNickname (text : Text) : Checked (Text × Option Text) := do
  match ← cutAtKeyword "as".toList (by decide) text with
  | some (path, nickname) => return (trim path, some (trim nickname))
  | none => return (text, none)

theorem splitNickname_eq (text : Text) :
    splitNickname text = .ok (Classify.splitNickname text) := by
  rw [splitNickname, cutAtKeyword_eq, ok_bind, Classify.splitNickname]
  cases cutAtKeyword? "as".toList text <;> rfl

/-- The import that a text names. -/
def importPath? (text : Text) : Checked (Option ImportPath) := do
  let (path, nickname) ← splitNickname text
  if isDottedPath path && nickname.all isIdentifier then
    match cutAtLastDot? path with
    | some (source, member) => return some ⟨source, some member, nickname⟩
    | none => return some ⟨path, none, nickname⟩
  else return none

/-- The path of an import is taken apart without a trap. -/
theorem importPath?_eq (text : Text) : importPath? text = .ok (Classify.importPath? text) := by
  rw [importPath?, splitNickname_eq, ok_bind, Classify.importPath?]
  dsimp only
  split
  · cases cutAtLastDot? (Classify.splitNickname text).1 <;> rfl
  · rfl

/-- The role of an entry of imports. -/
def importEntry (node : Node) : Run Fault Role :=
  match node.shape, node.key, node.value with
  | .item, none, some text => do
    let path ← importPath? text
    match path with
    | some path => return .importEntry path
    | none => throw (.importPath text)
  | _, _, _ => throw .importForm

theorem importEntry_eq (node : Node) :
    importEntry node = total (Classify.importEntry node) := by
  unfold importEntry Classify.importEntry
  cases node.shape <;> cases node.key <;> cases node.value <;> try rfl
  next text =>
    dsimp only
    rw [lift_bind (importPath?_eq text)]
    cases Classify.importPath? text <;> rfl

/-! ## Forests -/

/-- The role of a node, given the shapes of the lines of code below it. -/
def decideRole [Letters] (table : SymbolTable) (context : Context) (previous : Option Role)
    (node : Node) (shapes : List Shape) : Run Error Role :=
  match node.shape, context with
  | .comment, _ => return .comment
  | _, .imports => report node.line (importEntry node)
  | _, .dict => report node.line (total (dictEntry node shapes))
  | _, .list => report node.line (total (listEntry node shapes))
  | .keyed, .block => keyedStatement table previous node shapes
  | .bare, .block => bareStatement table node
  | .item, .block => throw (Fault.strayItem.error node.line)

theorem decideRole_eq [Letters] (table : SymbolTable) (context : Context) (previous : Option Role)
    (node : Node) (shapes : List Shape) :
    decideRole table context previous node shapes =
      total (Classify.decideRole table context previous node shapes) := by
  have entry := report_eq node.line (importEntry_eq node)
  have ofDict := report_eq node.line (rfl : total (dictEntry node shapes) = _)
  have ofList := report_eq node.line (rfl : total (listEntry node shapes) = _)
  unfold decideRole Classify.decideRole
  rw [entry, ofDict, ofList, keyedStatement_eq, bareStatement_eq]
  cases node.shape <;> cases context <;> rfl

/-- The role of a node, if lines of code may stand below it or none do. -/
def role [Letters] (table : SymbolTable) (context : Context) (previous : Option Role) (node : Node)
    (shapes : List Shape) : Run Error Role := do
  let role ← decideRole table context previous node shapes
  if mayOwnBlock role || shapes.isEmpty then return role
  else throw ((Fault.ownsBlock role).error node.line)

/-- The role of a node is found without a trap. -/
theorem role_eq [Letters] (table : SymbolTable) (context : Context) (previous : Option Role)
    (node : Node) (shapes : List Shape) :
    role table context previous node shapes =
      total (Classify.role table context previous node shapes) := by
  refine total_bind (decideRole_eq table context previous node shapes) fun role _ => ?_
  split <;> rfl

/-- The forest with the role of each node, and the names known after it. -/
def siblings [Letters] (context : Context) : (previous : Option Role) → SymbolTable → Forest Node →
    Run Error (Forest Node × SymbolTable)
  | _, table, .nil => return (.nil, table)
  | previous, table, .cons node children rest => do
    let role ← role table context previous node (children.codeRoots.map Node.shape)
    let (children, table) ← siblings (.below role) none (table.declare node role) children
    let (rest, table) ← siblings context (if node.isCode then some role else previous) table rest
    return (.cons { node with role } children rest, table)

/-- Siblings are classified without a trap. -/
theorem siblings_eq [Letters] (context : Context) (previous : Option Role) (table : SymbolTable)
    (forest : Forest Node) :
    siblings context previous table forest =
      total (Classify.siblings context previous table forest) := by
  induction forest generalizing context previous table with
  | nil => rfl
  | cons node children rest children_ih rest_ih =>
    rw [siblings, Classify.siblings]
    refine total_bind (role_eq table context previous node _) fun role _ => ?_
    refine total_bind (children_ih _ _ _) fun below _ => ?_
    exact total_bind (rest_ih _ _ _) fun after _ => rfl

/-- The forest with the role of each node, and the names that the document introduces. -/
def classify [Letters] (forest : Forest Node) : Run Error (Forest Node × SymbolTable) :=
  siblings .block none {} forest

theorem classify_eq [Letters] (forest : Forest Node) : classify forest = total forest.classify :=
  siblings_eq .block none {} forest

end Outline.Checked
