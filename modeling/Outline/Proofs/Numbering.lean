import Outline.Document

/-!
# Line numbers do not matter

Line numbers go through classification and emission only to be reported: in errors, in the table of
symbols and with member roots. `unnumbered` takes them out of an outcome. A forest without line
numbers has the outcome of the forest, without line numbers (`Forest.code_unnumbered`), so two
forests that differ in their line numbers only make the same code or the same error but for its
line.
-/

set_option autoImplicit false

namespace Outline

/-! ## Taking out line numbers -/

/-- An error with its line number taken out. -/
def Error.unnumbered : Error → Error
  | .structural _ message => .structural 0 message
  | .classification _ message => .classification 0 message
  | .expression _ message => .expression 0 message
  | .undefinedCallable name _ => .undefinedCallable name 0
  | .configuration message => .configuration message
  | .io message => .io message

/-- A node with its line number taken out. -/
def Node.unnumbered (node : Node) : Node := { node with line := 0 }

namespace Node

variable (node : Node)

@[simp]
theorem unnumbered_key : node.unnumbered.key = node.key := rfl

@[simp]
theorem unnumbered_value : node.unnumbered.value = node.value := rfl

@[simp]
theorem unnumbered_shape : node.unnumbered.shape = node.shape := rfl

@[simp]
theorem unnumbered_role : node.unnumbered.role = node.role := rfl

@[simp]
theorem unnumbered_line : node.unnumbered.line = 0 := rfl

@[simp]
theorem unnumbered_keyText : node.unnumbered.keyText = node.keyText := rfl

@[simp]
theorem unnumbered_valueText : node.unnumbered.valueText = node.valueText := rfl

@[simp]
theorem unnumbered_isCode : node.unnumbered.isCode = node.isCode := rfl

end Node

def MemberRoot.unnumbered (root : MemberRoot) : MemberRoot := { root with line := 0 }

/-- A table with the line numbers of its entries taken out. -/
def SymbolTable.unnumbered (table : SymbolTable) : SymbolTable :=
  { table with
    functions := table.functions.map fun entry => (entry.1, 0)
    assignments := table.assignments.map fun entry => (entry.1, 0) }

section

variable {α α' β β' : Type}

/-- An outcome without line numbers, given what its result is without them. -/
def unnumbered (f : α → β) : Except Error α → Except Error β
  | .ok a => .ok (f a)
  | .error error => .error error.unnumbered

/-- Steps that agree up to line numbers make chains that do. -/
theorem bind_unnumbered {f : α → α'} {g : β → β'} {first : Except Error α}
    {first' : Except Error α'} {next : α → Except Error β} {next' : α' → Except Error β'}
    (same : first' = unnumbered f first) (step : ∀ a, next' (f a) = unnumbered g (next a)) :
    first' >>= next' = unnumbered g (first >>= next) := by
  subst same
  cases first with
  | error error => rfl
  | ok a => exact step a

/-- A choice forgets line numbers if both of its branches do. The two conditions may be decided in
different ways. -/
theorem ite_unnumbered {p : Prop} {d d' : Decidable p} {f : α → β} {yes no : Except Error α}
    {yes' no' : Except Error β} (sameYes : yes' = unnumbered f yes)
    (sameNo : no' = unnumbered f no) :
    @ite _ p d' yes' no' = unnumbered f (@ite _ p d yes no) := by
  by_cases holds : p
  · rw [if_pos holds, if_pos holds, sameYes]
  · rw [if_neg holds, if_neg holds, sameNo]

theorem unnumbered_id (outcome : Except Error α) :
    unnumbered id outcome = outcome.mapError Error.unnumbered := by
  cases outcome <;> rfl

end

/-! ## Symbols -/

namespace SymbolTable

/-- A name is found in a table without line numbers exactly where it is found in the table. -/
theorem lookup_map_fst (entries : List (Text × Nat)) (name : Text) :
    (entries.map fun entry => (entry.1, 0)).lookup name =
      (entries.lookup name).map fun _ => 0 := by
  induction entries with
  | nil => rfl
  | cons entry entries ih =>
    obtain ⟨own, line⟩ := entry
    rw [List.map_cons, List.lookup_cons, List.lookup_cons]
    cases name == own with
    | true => rfl
    | false => exact ih

variable (table : SymbolTable)

theorem assignmentLine?_unnumbered (name : Text) :
    table.unnumbered.assignmentLine? name = (table.assignmentLine? name).map fun _ => 0 :=
  lookup_map_fst table.assignments name

theorem functionLine?_unnumbered (name : Text) :
    table.unnumbered.functionLine? name = (table.functionLine? name).map fun _ => 0 :=
  lookup_map_fst table.functions name

/-- Which names can be called does not depend on the lines they are declared on. -/
theorem isCallable_unnumbered (name : Text) :
    table.unnumbered.isCallable name = table.isCallable name := by
  rw [isCallable, isCallable, functionLine?_unnumbered, Option.isSome_map]
  rfl

/-- Which names are known does not depend on the lines they are declared on. -/
theorem isKnown_unnumbered (name : Text) : table.unnumbered.isKnown name = table.isKnown name := by
  rw [isKnown, isKnown, functionLine?_unnumbered, Option.isSome_map]
  rfl

theorem defineVariables_unnumbered (names : List Text) :
    table.unnumbered.defineVariables names = (table.defineVariables names).unnumbered := by
  induction names generalizing table with
  | nil => rfl
  | cons name names ih => exact ih (table.defineVariable name)

/-- An assignment is entered under its name, whatever line it stands on. -/
theorem defineAssignment_unnumbered (name : Text) (line : Nat) :
    table.unnumbered.defineAssignment name 0 = (table.defineAssignment name line).unnumbered := by
  have found := table.assignmentLine?_unnumbered name
  rw [assignmentLine?, assignmentLine?] at found
  rw [defineAssignment, defineAssignment, found, Option.isSome_map]
  cases (table.assignments.lookup name).isSome <;> rfl

/-- What a node declares does not depend on the line it stands on. -/
theorem declare_unnumbered (node : Node) (role : Role) :
    table.unnumbered.declare node.unnumbered role = (table.declare node role).unnumbered := by
  cases role with
  | assignment aggregate =>
    rw [declare, declare]
    rw [Node.unnumbered_keyText, Node.unnumbered_line]
    split
    · exact table.defineAssignment_unnumbered node.keyText node.line
    · exact table.defineVariables_unnumbered _
  | forHeader targets iterable => exact table.defineVariables_unnumbered targets
  | rangeForHeader targets range => exact table.defineVariables_unnumbered targets
  | functionDef name param =>
    rw [declare, declare, defineVariables_unnumbered]
    rfl
  | _ => rfl

end SymbolTable

/-! ## Roles -/

namespace Classify

variable (table : SymbolTable)

/-- A fault is reported on the line given, and its wording does not mention it. -/
theorem report_unnumbered {α : Type} (line : Nat) (outcome : Except Fault α) :
    report 0 outcome = unnumbered id (report line outcome) := by
  cases outcome <;> rfl

/-- The role that a header gives to its node does not depend on any line number. -/
theorem headerRole_unnumbered [Letters] (previous : Option Role) (line : Nat) (header : Header) :
    headerRole table.unnumbered previous 0 header =
      unnumbered id (headerRole table previous line header) := by
  cases header with
  | elifThen condition => exact ite_unnumbered rfl rfl
  | otherwise => exact ite_unnumbered rfl rfl
  | forLoop targets iterable =>
    rw [headerRole, headerRole]
    split
    · refine bind_unnumbered (f := id) ?_ fun _ => rfl
      rw [RangeSugar.read, RangeSugar.read]
      split <;> rfl
    · rfl
  | function name param =>
    rw [headerRole, headerRole, SymbolTable.assignmentLine?_unnumbered]
    cases table.assignmentLine? name <;> rfl
  | _ => rfl

/-- A node under a keyword is accepted and refused for the same reasons on every line. -/
theorem headerStatement_unnumbered [Letters] (previous : Option Role) (keyword : Text) (node : Node)
    (hasBody : Bool) :
    headerStatement table.unnumbered previous keyword node.unnumbered hasBody =
      unnumbered id (headerStatement table previous keyword node hasBody) := by
  rw [headerStatement, headerStatement]
  refine ite_unnumbered rfl (bind_unnumbered (f := id) ?_ fun header => ?_)
  · show Header.read 0 node.keyText = _
    rw [Header.read, Header.read]
    split <;> rfl
  · exact bind_unnumbered (headerRole_unnumbered table previous node.line header) fun role =>
      ite_unnumbered rfl rfl

theorem isCallableKey_unnumbered (key : Text) :
    isCallableKey table.unnumbered key = isCallableKey table key := by
  rw [isCallableKey, isCallableKey, SymbolTable.isCallable_unnumbered]
  rfl

/-- The role of a plain statement does not depend on its line. -/
theorem plainStatement_unnumbered (node : Node) (shapes : List Shape) :
    plainStatement table.unnumbered node.unnumbered shapes = plainStatement table node shapes := by
  rw [plainStatement, plainStatement, Node.unnumbered_keyText, isCallableKey_unnumbered]
  rfl

/-- A node with a key is accepted and refused for the same reasons on every line. -/
theorem keyedStatement_unnumbered [Letters] (previous : Option Role) (node : Node)
    (shapes : List Shape) : keyedStatement table.unnumbered previous node.unnumbered shapes =
      unnumbered id (keyedStatement table previous node shapes) := by
  rw [keyedStatement, keyedStatement, Node.unnumbered_keyText]
  cases Header.keyword? node.keyText with
  | some keyword => exact headerStatement_unnumbered table previous keyword node _
  | none =>
    refine ite_unnumbered rfl (ite_unnumbered rfl (ite_unnumbered ?_ (ite_unnumbered rfl ?_)))
    · exact ite_unnumbered rfl rfl
    · rw [plainStatement_unnumbered]
      exact report_unnumbered node.line _

theorem resolves_unnumbered (callee : Text) :
    resolves table.unnumbered callee = resolves table callee := by
  rw [resolves, resolves]
  split
  · exact table.isKnown_unnumbered _
  · rw [SymbolTable.isCallable_unnumbered]

/-- A node without a key is accepted and refused for the same reasons on every line. -/
theorem bareStatement_unnumbered (node : Node) :
    bareStatement table.unnumbered node.unnumbered = unnumbered id (bareStatement table node) := by
  rw [bareStatement, bareStatement, Node.unnumbered_valueText]
  cases beforeSemicolon? node.valueText with
  | some callee =>
    refine ite_unnumbered rfl ?_
    rw [resolves_unnumbered]
    exact ite_unnumbered rfl rfl
  | none =>
    refine ite_unnumbered rfl (ite_unnumbered rfl ?_)
    cases Header.keyword? node.valueText <;> rfl

/-- The role of a node depends on its line only for where an error is reported. -/
theorem role_unnumbered [Letters] (context : Context) (previous : Option Role) (node : Node)
    (shapes : List Shape) :
    role table.unnumbered context previous node.unnumbered shapes =
      unnumbered id (role table context previous node shapes) := by
  refine bind_unnumbered (f := id) ?_ fun role => ?_
  · unfold decideRole
    rw [Node.unnumbered_shape]
    split
    · rfl
    · exact report_unnumbered node.line _
    · exact report_unnumbered node.line _
    · exact report_unnumbered node.line _
    · exact keyedStatement_unnumbered table previous node shapes
    · exact bareStatement_unnumbered table node
    · rfl
  · exact ite_unnumbered rfl rfl

/-- The shapes of the children, by which a node is judged, have no line numbers. -/
theorem codeRoots_map_unnumbered (forest : Forest Node) :
    (forest.map Node.unnumbered).codeRoots.map Node.shape = forest.codeRoots.map Node.shape := by
  induction forest with
  | nil => rfl
  | cons node children rest _ ih =>
    rw [Forest.codeRoots, Forest.codeRoots] at ih
    rw [Forest.codeRoots, Forest.codeRoots, Forest.map, Forest.roots, Forest.roots,
      List.filter_cons, List.filter_cons]
    rw [Node.unnumbered_isCode]
    split
    · rw [List.map_cons, List.map_cons, ih]
      rfl
    · exact ih

/-- The forest and the table that classification gives, without line numbers. -/
def unnumberedResult (result : Forest Node × SymbolTable) : Forest Node × SymbolTable :=
  (result.1.map Node.unnumbered, result.2.unnumbered)

/-- Without line numbers, siblings are classified as with them, and the table they leave is the same
but for its line numbers. -/
theorem siblings_unnumbered [Letters] (context : Context) (previous : Option Role)
    (forest : Forest Node) :
    siblings context previous table.unnumbered (forest.map Node.unnumbered) =
      unnumbered unnumberedResult (siblings context previous table forest) := by
  induction forest generalizing context previous table with
  | nil => rfl
  | cons node children rest ihChildren ihRest =>
    rw [Forest.map, siblings, siblings, codeRoots_map_unnumbered]
    refine bind_unnumbered (role_unnumbered table context previous node _) fun role => ?_
    rw [id_eq, SymbolTable.declare_unnumbered]
    refine bind_unnumbered (ihChildren (table.declare node role) _ _) fun (children', inner) => ?_
    refine bind_unnumbered (ihRest inner _ _) fun (rest', outer) => ?_
    rfl

end Classify

/-! ## Programs -/

namespace Program

/-- A traced result without the line numbers of its member roots. -/
def untraced {α : Type} (result : Traced α) : Traced α :=
  (result.1, result.2.map MemberRoot.unnumbered)

/-- A value is read alike on every line; only errors and member roots say which it was. -/
theorem value_unnumbered [Letters] (line : Nat) (raw : Text) :
    value 0 raw = unnumbered untraced (value line raw) := by
  refine bind_unnumbered (f := id) ?_ fun e => ?_
  · rw [Expression.read, Expression.read]
    split <;> rfl
  · show Except.ok _ = Except.ok _
    rw [untraced, List.map_map]
    rfl

theorem dictKey_unnumbered [Letters] (line : Nat) (key : Text) :
    dictKey 0 key = unnumbered untraced (dictKey line key) :=
  ite_unnumbered rfl (value_unnumbered line key)

section

variable {pairs items pairs' items' : Unit → Except Error (Traced (List Text))}

/-- What a node holds is the same without line numbers, if that holds for its children as pairs and
as items. -/
theorem held_unnumbered [Letters] (aggregate : Aggregate) (node : Node)
    (samePairs : pairs' () = unnumbered untraced (pairs ()))
    (sameItems : items' () = unnumbered untraced (items ())) :
    held aggregate node.unnumbered pairs' items' =
      unnumbered untraced (held aggregate node pairs items) := by
  cases aggregate with
  | scalar => exact value_unnumbered node.line node.valueText
  | dict => exact bind_unnumbered samePairs fun _ => rfl
  | list => exact bind_unnumbered sameItems fun _ => rfl

/-- Member roots are gathered in the same order with and without their lines. -/
theorem untraced_append {α β γ : Type} (first : Traced α) (second : Traced β) (result : γ) :
    untraced (result, first.2 ++ second.2) =
      (result, (untraced first).2 ++ (untraced second).2) := by
  rw [untraced, List.map_append]
  rfl

/-- The pair that an item holds on its own line is the same on every line. -/
theorem inlinePair_unnumbered [Letters] (node : Node) :
    inlinePair node.unnumbered = unnumbered untraced (inlinePair node) := by
  rw [inlinePair, inlinePair, Node.unnumbered_key, Node.unnumbered_value]
  split
  next key raw _ _ =>
    refine bind_unnumbered (dictKey_unnumbered node.line key) fun keyed => ?_
    refine bind_unnumbered (value_unnumbered node.line raw) fun valued => ?_
    exact congrArg Except.ok (untraced_append keyed valued _).symm
  next raw _ _ => exact bind_unnumbered (value_unnumbered node.line raw) fun _ => rfl
  next => rfl

/-- An item of a list is the same without line numbers, if that holds for its children as pairs and
as items. -/
theorem listItem_unnumbered [Letters] (aggregate : Aggregate) (node : Node)
    (samePairs : pairs' () = unnumbered untraced (pairs ()))
    (sameItems : items' () = unnumbered untraced (items ())) :
    listItem aggregate node.unnumbered pairs' items' =
      unnumbered untraced (listItem aggregate node pairs items) := by
  unfold listItem
  rw [Node.unnumbered_key, Node.unnumbered_value]
  split
  next key _ _ =>
    refine bind_unnumbered (dictKey_unnumbered node.line key) fun keyed => ?_
    refine bind_unnumbered (held_unnumbered _ node samePairs sameItems) fun inside => ?_
    exact congrArg Except.ok (untraced_append keyed inside _).symm
  next => exact value_unnumbered node.line node.valueText
  next => exact bind_unnumbered sameItems fun _ => rfl
  next =>
    refine bind_unnumbered (inlinePair_unnumbered node) fun first => ?_
    refine bind_unnumbered samePairs fun rest => ?_
    exact congrArg Except.ok (untraced_append first rest _).symm

end

/-- Pairs and items are written alike without line numbers. Both hold at once, since each kind may
hold the other. -/
theorem data_unnumbered [Letters] (forest : Forest Node) :
    dictPairs (forest.map Node.unnumbered) = unnumbered untraced (dictPairs forest) ∧
      listItems (forest.map Node.unnumbered) = unnumbered untraced (listItems forest) := by
  induction forest with
  | nil => exact ⟨rfl, rfl⟩
  | cons node children rest ihChildren ihRest =>
    constructor
    · rw [Forest.map, dictPairs, dictPairs, Node.unnumbered_isCode, Node.unnumbered_role]
      split
      next aggregate _ _ =>
        refine bind_unnumbered (dictKey_unnumbered node.line node.keyText) fun keyed => ?_
        refine bind_unnumbered (held_unnumbered aggregate node ihChildren.1 ihChildren.2)
          fun inside => ?_
        refine bind_unnumbered ihRest.1 fun more => ?_
        show Except.ok _ = Except.ok _
        simp [untraced]
      next => exact ihRest.1
    · rw [Forest.map, listItems, listItems, Node.unnumbered_isCode, Node.unnumbered_role]
      split
      next aggregate _ _ =>
        refine bind_unnumbered (listItem_unnumbered aggregate node ihChildren.1 ihChildren.2)
          fun item => ?_
        refine bind_unnumbered ihRest.2 fun more => ?_
        exact congrArg Except.ok (untraced_append item more _).symm
      next => exact ihRest.2

theorem nodeValue_unnumbered [Letters] (aggregate : Aggregate) (node : Node)
    (children : Forest Node) : nodeValue aggregate node.unnumbered (children.map Node.unnumbered) =
      unnumbered untraced (nodeValue aggregate node children) :=
  held_unnumbered aggregate node (data_unnumbered children).1 (data_unnumbered children).2

/-- The named arguments of a call are written alike without line numbers. -/
theorem keywordArguments_unnumbered [Letters] (forest : Forest Node) :
    keywordArguments (forest.map Node.unnumbered) =
      unnumbered untraced (keywordArguments forest) := by
  induction forest with
  | nil => rfl
  | cons node children rest _ ih =>
    rw [Forest.map, keywordArguments, keywordArguments, Node.unnumbered_isCode,
      Node.unnumbered_role]
    split
    next aggregate _ _ =>
      refine ite_unnumbered ?_ rfl
      refine bind_unnumbered (nodeValue_unnumbered aggregate node children) fun inside => ?_
      refine bind_unnumbered ih fun more => ?_
      exact congrArg Except.ok (untraced_append inside more _).symm
    next => exact ih

/-- The arguments of a call are written alike without line numbers, whichever way they are given. -/
theorem callArguments_unnumbered [Letters] (aggregate : Aggregate) (node : Node)
    (children : Forest Node) :
    callArguments aggregate node.unnumbered (children.map Node.unnumbered) =
      unnumbered untraced (callArguments aggregate node children) := by
  cases aggregate with
  | scalar =>
    rw [callArguments, callArguments, Node.unnumbered_value]
    split
    next raw _ => exact value_unnumbered node.line raw
    next => rfl
  | list => exact bind_unnumbered (data_unnumbered children).2 fun _ => rfl
  | dict => exact bind_unnumbered (keywordArguments_unnumbered children) fun _ => rfl

theorem conditionHeader_unnumbered [Letters] (word : String) (form : StatementForm) (line : Nat)
    (condition : Text) :
    conditionHeader word form 0 condition =
      unnumbered untraced (conditionHeader word form line condition) :=
  bind_unnumbered (value_unnumbered line condition) fun _ => rfl

/-- A node is written alike without line numbers. -/
theorem output_unnumbered [Letters] (node : Node) (children : Forest Node) :
    output node.unnumbered (children.map Node.unnumbered) =
      unnumbered untraced (output node children) := by
  rw [output, output, Node.unnumbered_role]
  split
  next => rfl
  next => rfl
  next aggregate _ =>
    exact bind_unnumbered (nodeValue_unnumbered aggregate node children) fun _ => rfl
  next aggregate _ =>
    exact bind_unnumbered (callArguments_unnumbered aggregate node children) fun _ => rfl
  next => rfl
  next =>
    refine bind_unnumbered (f := untraced) ?_ fun _ => rfl
    rw [printed, printed, Node.unnumbered_value]
    split
    next => rfl
    next raw _ => exact value_unnumbered node.line _
  next =>
    rw [Node.unnumbered_shape, Node.unnumbered_value]
    split
    next raw _ _ => exact bind_unnumbered (value_unnumbered node.line raw) fun _ => rfl
    next => rfl
  next condition _ => exact conditionHeader_unnumbered "if" .header node.line condition
  next condition _ => exact conditionHeader_unnumbered "elif" .continuation node.line condition
  next => rfl
  next condition _ => exact conditionHeader_unnumbered "while" .header node.line condition
  next targets iterable _ =>
    refine bind_unnumbered (f := untraced) ?_ fun _ => rfl
    refine bind_unnumbered (value_unnumbered node.line iterable) fun (text, roots) => ?_
    exact ite_unnumbered rfl rfl
  next targets range _ => exact bind_unnumbered (value_unnumbered node.line range) fun _ => rfl
  next => rfl
  next => rfl
  next => rfl
  next => rfl
  next => rfl
  next => rfl

/-- The statements of a forest are the same without line numbers, and so are the errors but for
their lines. -/
theorem statementsOf_unnumbered [Letters] (forest : Forest Node) :
    statementsOf (forest.map Node.unnumbered) = unnumbered untraced (statementsOf forest) := by
  induction forest with
  | nil => rfl
  | cons node children rest ihChildren ihRest =>
    rw [Forest.map, statementsOf, statementsOf]
    refine bind_unnumbered (output_unnumbered node children) fun (out, own) => ?_
    cases out with
    | line text =>
      refine bind_unnumbered ihRest fun more => ?_
      exact congrArg Except.ok (untraced_append (text, own) more _).symm
    | block header form =>
      refine bind_unnumbered ihChildren fun body => ?_
      refine bind_unnumbered ihRest fun more => ?_
      show Except.ok _ = Except.ok _
      simp [untraced]
    | children =>
      refine bind_unnumbered ihChildren fun body => ?_
      refine bind_unnumbered ihRest fun more => ?_
      show Except.ok _ = Except.ok _
      simp [untraced]

end Program

/-! ## Forests -/

/-- The code of a forest of nodes. -/
def Forest.code [Letters] (config : Config) (forest : Forest Node) : Except Error Text := do
  let (forest, _) ← forest.classify
  let program ← Program.ofForest forest
  return program.code config

/-- A forest without line numbers makes the same code, or the same error without its line. -/
theorem Forest.code_unnumbered [Letters] (config : Config) (forest : Forest Node) :
    (forest.map Node.unnumbered).code config = unnumbered id (forest.code config) := by
  refine bind_unnumbered (Classify.siblings_unnumbered {} .block none forest)
    fun (roles, table) => ?_
  refine bind_unnumbered (f := fun program : Program =>
    ⟨program.statements, program.memberRoots.map MemberRoot.unnumbered⟩) ?_ fun _ => rfl
  exact bind_unnumbered (Program.statementsOf_unnumbered roles) fun _ => rfl

/-- A source that is scanned and nested makes the code of its forest. -/
theorem compile_eq_code [Letters] {config : Config} {source : Text} {lines : List Line}
    {forest : Forest Node} (scanned : Line.scan config source = .ok lines)
    (nested : Forest.ofLines lines = .ok forest) : compile config source = forest.code config := by
  have analyzed : analyze config source =
      (do let (forest, symbols) ← forest.classify; return { forest, symbols }) := by
    rw [analyze, scanned]
    show Forest.ofLines lines >>= _ = _
    rw [nested]
    rfl
  rw [compile, analyzed, Forest.code]
  cases forest.classify <;> rfl

end Outline
