import Outline.Header.Edition
import Outline.Proofs.Names
import Outline.Proofs.Nest

/-!
# Names are declared before they are used

A node is classified with the names that the nodes before it declare, in document order
(`Classified.decision_at`). What the table then says about a name is read off these nodes: a
function is one that some node defines, a plain assignment one that some node makes, and an import
is the last one that binds the name. So every call has its declaration before it, and no name is
both assigned and defined as a function (`Forest.classify_declaresFirst`).
-/

set_option autoImplicit false

namespace Outline

/-! ## What a node declares -/

namespace Node

/-- The function that a node defines, with its line. -/
def function? (node : Node) : Option (Text × Nat) :=
  match node.role with
  | .functionDef name _ => some (name, node.line)
  | _ => none

/-- The import that a node makes. -/
def import? (node : Node) : Option ImportPath :=
  match node.role with
  | .importEntry path => some path
  | _ => none

/-- The node defines a function of this name. -/
def Defines (node : Node) (name : Text) : Prop := ∃ param, node.role = .functionDef name param

/-- The node is an assignment to this name alone. -/
def Assigns (node : Node) (name : Text) : Prop :=
  (∃ aggregate, node.role = .assignment aggregate) ∧ Text.isIdentifier node.keyText = true ∧
    node.keyText = name

theorem function?_eq_some_iff {node : Node} {entry : Text × Nat} :
    node.function? = some entry ↔ node.Defines entry.1 ∧ node.line = entry.2 := by
  rw [function?, Defines]
  cases node.role with
  | functionDef name param => cases entry; simp
  | _ => simp

theorem import?_eq_some_iff {node : Node} {path : ImportPath} :
    node.import? = some path ↔ node.role = .importEntry path := by
  rw [import?]
  cases node.role with
  | importEntry => simp
  | _ => simp

end Node

/-- The last of some nodes that is an import of this name is an import of this path. -/
def LastImport (nodes : List Node) (name : Text) (path : ImportPath) : Prop :=
  ∃ before node after, nodes = before ++ node :: after ∧ node.role = .importEntry path ∧
    path.boundName = name ∧
    ∀ later ∈ after, ∀ other, later.role = .importEntry other → other.boundName ≠ name

/-- Nodes declare a name as something to call: one of them defines a function of this name, or the
last import of the name is of a member. -/
def Callable (nodes : List Node) (name : Text) : Prop :=
  (∃ node ∈ nodes, node.Defines name) ∨ ∃ path, LastImport nodes name path ∧ path.kind = .member

/-! ## What nodes declare one after the other -/

namespace SymbolTable

/-- The table after nodes with their roles, in order. -/
def declareAll (table : SymbolTable) (nodes : List Node) : SymbolTable :=
  nodes.foldl (fun table node => table.declare node node.role) table

theorem declareAll_append (table : SymbolTable) (front back : List Node) :
    table.declareAll (front ++ back) = (table.declareAll front).declareAll back :=
  List.foldl_append

theorem assignments_defineVariables (table : SymbolTable) (names : List Text) :
    (table.defineVariables names).assignments = table.assignments := by
  induction names generalizing table with
  | nil => rfl
  | cons name names ih => exact ih (table.defineVariable name)

theorem functions_declare (table : SymbolTable) (node : Node) :
    (table.declare node node.role).functions = node.function?.toList ++ table.functions := by
  rw [Node.function?, declare.eq_def]
  cases node.role with
  | assignment =>
    dsimp only
    split
    · rfl
    · exact (table.defineVariables_frame _).1
  | forHeader targets | rangeForHeader targets => exact (table.defineVariables_frame targets).1
  | functionDef name param =>
    exact congrArg ((name, node.line) :: ·) (table.defineVariables_frame param.toList).1
  | _ => rfl

theorem imports_declare (table : SymbolTable) (node : Node) :
    (table.declare node node.role).imports =
      (node.import?.map fun path => (path.boundName, path.kind)).toList ++ table.imports := by
  rw [Node.import?, declare.eq_def]
  cases node.role with
  | assignment =>
    dsimp only
    split
    · rfl
    · exact (table.defineVariables_frame _).2
  | forHeader targets | rangeForHeader targets => exact (table.defineVariables_frame targets).2
  | functionDef name param => exact (table.defineVariables_frame param.toList).2
  | _ => rfl

/-- The functions of a table are those that nodes define, newest first. -/
theorem functions_declareAll (table : SymbolTable) (nodes : List Node) :
    (table.declareAll nodes).functions =
      (nodes.filterMap Node.function?).reverse ++ table.functions := by
  induction nodes generalizing table with
  | nil => rfl
  | cons node nodes ih =>
    have step : (table.declareAll (node :: nodes)).functions = _ :=
      ih (table.declare node node.role)
    rw [step, functions_declare, List.filterMap_cons]
    cases node.function? <;> simp

/-- The imports of a table are those that nodes make, newest first. -/
theorem imports_declareAll (table : SymbolTable) (nodes : List Node) :
    (table.declareAll nodes).imports =
      (nodes.filterMap fun node =>
        node.import?.map fun path => (path.boundName, path.kind)).reverse ++ table.imports := by
  induction nodes generalizing table with
  | nil => rfl
  | cons node nodes ih =>
    have step : (table.declareAll (node :: nodes)).imports = _ := ih (table.declare node node.role)
    rw [step, imports_declare, List.filterMap_cons]
    cases node.import? <;> simp

theorem assignments_declare_of_ne {node : Node} (table : SymbolTable)
    (other : ∀ aggregate, node.role ≠ .assignment aggregate) :
    (table.declare node node.role).assignments = table.assignments := by
  rw [declare.eq_def]
  cases role : node.role with
  | assignment aggregate => exact absurd role (other aggregate)
  | forHeader targets | rangeForHeader targets => exact table.assignments_defineVariables targets
  | functionDef name param => exact table.assignments_defineVariables param.toList
  | _ => rfl

/-- A node adds its own plain assignment to those that are known, and no other. -/
theorem isSome_assignmentLine?_declare (table : SymbolTable) (node : Node) (name : Text) :
    ((table.declare node node.role).assignmentLine? name).isSome = true ↔
      node.Assigns name ∨ (table.assignmentLine? name).isSome = true := by
  have unchanged (none : ¬ node.Assigns name)
      (same : (table.declare node node.role).assignments = table.assignments) :
      ((table.declare node node.role).assignmentLine? name).isSome = true ↔
        node.Assigns name ∨ (table.assignmentLine? name).isSome = true := by
    rw [assignmentLine?, assignmentLine?, same]
    simp only [none, false_or]
  by_cases assignment : ∃ aggregate, node.role = .assignment aggregate
  · obtain ⟨aggregate, role⟩ := assignment
    rw [role] at unchanged ⊢
    rw [declare] at unchanged ⊢
    by_cases identifier : Text.isIdentifier node.keyText = true
    · rw [if_pos identifier, assignmentLine?, assignmentLine?, defineAssignment]
      by_cases same : node.keyText = name
      · have assigns : node.Assigns name := ⟨⟨aggregate, role⟩, identifier, same⟩
        by_cases known : (table.assignments.lookup node.keyText).isSome = true
        · rw [if_pos known, ← same]
          simp only [known, or_true]
        · rw [if_neg known, same, List.lookup_cons_self]
          simp only [assigns, true_or, Option.isSome_some]
      · have none : ¬ node.Assigns name := fun assigns => same assigns.2.2
        have differ : (name == node.keyText) = false := beq_false_of_ne (Ne.symm same)
        simp only [none, false_or]
        split
        · exact Iff.rfl
        · rw [List.lookup_cons, differ]
    · rw [if_neg identifier] at unchanged ⊢
      exact unchanged (fun assigns => identifier assigns.2.1) (assignments_defineVariables _ _)
  · have none : ¬ node.Assigns name := fun assigns => assignment assigns.1
    exact unchanged none (table.assignments_declare_of_ne (not_exists.mp assignment))

/-- A name is assigned if some node assigns it. -/
theorem isSome_assignmentLine?_declareAll (table : SymbolTable) (nodes : List Node) (name : Text) :
    ((table.declareAll nodes).assignmentLine? name).isSome = true ↔
      (∃ node ∈ nodes, node.Assigns name) ∨ (table.assignmentLine? name).isSome = true := by
  induction nodes generalizing table with
  | nil => simp [declareAll]
  | cons node nodes ih =>
    have step : ((table.declareAll (node :: nodes)).assignmentLine? name).isSome = true ↔ _ :=
      ih (table.declare node node.role)
    rw [step, isSome_assignmentLine?_declare, ← or_assoc]
    simp only [List.mem_cons, exists_eq_or_imp, or_comm]

/-! ## What a table says about a name -/

section

variable {nodes : List Node} {name : Text}

/-- A name is a function if some node defines it. -/
theorem isSome_functionLine?_iff :
    ((declareAll {} nodes).functionLine? name).isSome = true ↔
      ∃ node ∈ nodes, node.Defines name := by
  rw [functionLine?, functions_declareAll, List.append_nil, List.lookup_isSome_iff]
  constructor
  · rintro ⟨entry, mem, same⟩
    obtain ⟨node, inNodes, defined⟩ := List.mem_filterMap.mp (List.mem_reverse.mp mem)
    rw [eq_of_beq same]
    exact ⟨node, inNodes, (Node.function?_eq_some_iff.mp defined).1⟩
  · rintro ⟨node, inNodes, defines⟩
    have defined : node.function? = some (name, node.line) :=
      Node.function?_eq_some_iff.mpr ⟨defines, rfl⟩
    exact ⟨_, List.mem_reverse.mpr (List.mem_filterMap.mpr ⟨node, inNodes, defined⟩),
      beq_self_eq_true _⟩

/-- An import that the table knows is the last one of its name. -/
theorem lastImport_of_lookup {kind : ImportKind}
    (found : (declareAll {} nodes).imports.lookup name = some kind) :
    ∃ path, LastImport nodes name path ∧ path.kind = kind := by
  rw [imports_declareAll, List.append_nil] at found
  obtain ⟨newer, older, split, differ⟩ := List.lookup_eq_some_iff.mp found
  rw [List.reverse_eq_append_iff, List.reverse_cons, List.append_assoc,
    List.singleton_append] at split
  obtain ⟨front, back, rfl, _, made⟩ := List.filterMap_eq_append_iff.mp split
  obtain ⟨skipped, node, after, rfl, _, own, later⟩ := List.filterMap_eq_cons_iff.mp made
  obtain ⟨path, isImport, same⟩ := Option.map_eq_some_iff.mp own
  obtain ⟨rfl, rfl⟩ := Prod.mk.inj same
  refine ⟨path, ⟨front ++ skipped, node, after, by rw [List.append_assoc],
    Node.import?_eq_some_iff.mp isImport, rfl, ?_⟩, rfl⟩
  intro other inAfter otherPath role
  have entry : (otherPath.boundName, otherPath.kind) ∈ newer := by
    rw [← List.mem_reverse, ← later]
    refine List.mem_filterMap.mpr ⟨other, inAfter, ?_⟩
    rw [Node.import?_eq_some_iff.mpr role]
    rfl
  exact Ne.symm (bne_iff_ne.mp (differ _ entry))

/-- A name that can be called is a function defined before, or was last imported as a member. -/
theorem callable_of_isCallable (callable : (declareAll {} nodes).isCallable name = true) :
    Callable nodes name := by
  rw [isCallable, Bool.or_eq_true, beq_iff_eq] at callable
  exact callable.imp isSome_functionLine?_iff.mp lastImport_of_lookup

end

end SymbolTable

/-! ## The table at a node -/

namespace Classify

/-- Each node has its role by a decision made with the names that the nodes before it declare, and
all nodes together make the table at the end. -/
theorem Classified.decision_at [Letters] {context : Context} {previous : Option Role}
    {table table' : SymbolTable} {forest forest' : Forest Node}
    (classified : Classified context previous table forest forest' table') :
    table' = table.declareAll forest'.preorder ∧
      ∀ before node after, forest'.preorder = before ++ node :: after →
        ∃ context previous plain shapes,
          Decision (table.declareAll before) context previous plain shapes node.role ∧
            node = { plain with role := node.role } := by
  induction classified with
  | nil =>
    refine ⟨rfl, ?_⟩
    intro before node after split
    exact absurd split.symm (List.append_ne_nil_of_right_ne_nil _ (List.cons_ne_nil _ _))
  | @cons context previous table inner outer node role children children' rest rest' decided owns
      below after ihBelow ihAfter =>
    obtain ⟨innerTable, inBelow⟩ := ihBelow
    obtain ⟨outerTable, inAfter⟩ := ihAfter
    have own : table.declareAll ({ node with role } :: children'.preorder) = inner :=
      innerTable.symm
    constructor
    · rw [outerTable, ← own, ← SymbolTable.declareAll_append]
      rfl
    · intro before other later split
      rw [Forest.preorder, List.cons_eq_append_iff] at split
      rcases split with ⟨rfl, split⟩ | ⟨before, rfl, split⟩
      · obtain ⟨rfl, _⟩ := List.cons.inj split
        exact ⟨context, previous, node, _, decided, rfl⟩
      · rcases append_eq_append_cons split with ⟨more, inChildren, _⟩ | ⟨front, rfl, inRest⟩
        · exact inBelow before other more inChildren
        · rw [← List.cons_append, SymbolTable.declareAll_append, own]
          exact inAfter front other later inRest

/-- The nodes of a classified forest, each with the table of what comes before it. -/
theorem decision_of_classify [Letters] {forest forest' : Forest Node} {table : SymbolTable}
    (ok : forest.classify = .ok (forest', table)) {before after : List Node} {node : Node}
    (split : forest'.preorder = before ++ node :: after) :
    ∃ context previous plain shapes,
      Decision (SymbolTable.declareAll {} before) context previous plain shapes node.role ∧
        node = { plain with role := node.role } :=
  (classified_of_siblings ok).decision_at.2 before node after split

section

variable {nodes : List Node} {context : Context} {previous : Option Role} {plain : Node}
  {shapes : List Shape}

/-- A function is defined only when no node before assigns to its name. -/
theorem Decision.not_assigned [Letters] {name : Text} {param : Option Text}
    (decided : Decision (.declareAll {} nodes) context previous plain shapes
      (.functionDef name param)) : ¬ ∃ node ∈ nodes, node.Assigns name := by
  intro assigned
  cases decided with
  | header _ _ _ _ _ _ _ _ decided =>
    cases decided with
    | function _ _ fresh =>
      have known :=
        (SymbolTable.isSome_assignmentLine?_declareAll {} nodes name).mpr (.inl assigned)
      rw [fresh] at known
      cases known

/-- A name is assigned to only when no node before defines a function of that name. -/
theorem Decision.not_defined [Letters] {aggregate : Aggregate}
    (decided : Decision (.declareAll {} nodes) context previous plain shapes
      (.assignment aggregate)) : ¬ ∃ node ∈ nodes, node.Defines plain.keyText := by
  intro defined
  cases decided with
  | assignment _ _ _ _ _ notCallable =>
    have known := SymbolTable.isSome_functionLine?_iff.mpr defined
    rw [isCallableKey, SymbolTable.isCallable, known] at notCallable
    cases notCallable
  | header _ _ _ _ _ _ _ _ decided => cases decided

/-- A key that is called is declared: it is a function, an imported member, or a path into an
imported module. -/
theorem Decision.argCall_declared [Letters] {aggregate : Aggregate}
    (decided : Decision (.declareAll {} nodes) context previous plain shapes (.argCall aggregate)) :
    Callable nodes plain.keyText ∨
      ∃ root rest path, plain.keyText = root ++ '.' :: rest ∧ Text.isDottedPath rest = true ∧
        LastImport nodes root path ∧ path.kind = .module := by
  cases decided with
  | argCall _ _ _ _ _ callable =>
    rw [isCallableKey, Bool.or_eq_true] at callable
    refine callable.imp SymbolTable.callable_of_isCallable fun dotted => ?_
    split at dotted
    next root rest cut =>
      rw [Bool.and_eq_true, SymbolTable.isModule, beq_iff_eq] at dotted
      obtain ⟨path, last, kind⟩ := SymbolTable.lastImport_of_lookup dotted.1
      exact ⟨root, rest, path, Text.eq_append_of_cutAtFirstDot cut, dotted.2, last, kind⟩
    next => cases dotted
  | header _ _ _ _ _ _ _ _ decided => cases decided

/-- A name that is called without arguments is declared, or a builtin. -/
theorem Decision.bareCall_declared [Letters] {callee : Text}
    (decided : Decision (.declareAll {} nodes) context previous plain shapes (.bareCall callee))
    (noDot : '.' ∉ callee) : Callable nodes callee ∨ isBuiltin callee = true := by
  cases decided with
  | bareCall _ _ _ _ _ known =>
    rw [resolves] at known
    split at known
    next root rest cut =>
      rw [Text.eq_append_of_cutAtFirstDot cut] at noDot
      exact absurd (List.mem_append_right _ List.mem_cons_self) noDot
    next =>
      rw [Bool.or_eq_true] at known
      exact known.imp_left SymbolTable.callable_of_isCallable
  | header _ _ _ _ _ _ _ _ decided => cases decided

end

end Classify

open Classify

/-- What a forest with roles promises of the names it uses. -/
structure Forest.DeclaresFirst (forest : Forest Node) : Prop where
  /-- No name is both assigned to and defined as a function, in whichever order. -/
  apart : ∀ name, (∃ node ∈ forest.preorder, node.Assigns name) →
    ¬ ∃ node ∈ forest.preorder, node.Defines name
  /-- The key of a call is declared before it, or is a path whose root was last imported as a
  module. -/
  argCall : ∀ before node after aggregate, forest.preorder = before ++ node :: after →
    node.role = .argCall aggregate → Callable before node.keyText ∨
      ∃ root rest path, node.keyText = root ++ '.' :: rest ∧ Text.isDottedPath rest = true ∧
        LastImport before root path ∧ path.kind = .module
  /-- A name that is called without arguments is declared before, or a builtin. -/
  bareCall : ∀ before node after callee, forest.preorder = before ++ node :: after →
    node.role = .bareCall callee → '.' ∉ callee → Callable before callee ∨ isBuiltin callee = true

/-- Names are declared before they are used. -/
theorem Forest.classify_declaresFirst [Letters] {forest forest' : Forest Node} {table : SymbolTable}
    (ok : forest.classify = .ok (forest', table)) : forest'.DeclaresFirst where
  apart := by
    rintro name ⟨assigning, mem, assigns⟩ ⟨defining, mem', defines⟩
    obtain ⟨⟨aggregate, role⟩, _, rfl⟩ := id assigns
    obtain ⟨param, role'⟩ := id defines
    obtain ⟨before, after, split⟩ := List.append_of_mem mem
    -- The table refuses the later of the two, whichever it is.
    rw [split, List.mem_append, List.mem_cons] at mem'
    rcases mem' with earlier | rfl | later
    · obtain ⟨_, _, plain, _, decided, same⟩ := decision_of_classify ok split
      rw [role] at decided
      rw [same] at defines
      exact decided.not_defined ⟨defining, earlier, defines⟩
    · rw [role] at role'
      cases role'
    · obtain ⟨between, rest, inAfter⟩ := List.append_of_mem later
      rw [inAfter, ← List.cons_append, ← List.append_assoc] at split
      obtain ⟨_, _, _, _, decided, _⟩ := decision_of_classify ok split
      rw [role'] at decided
      exact decided.not_assigned
        ⟨assigning, List.mem_append_right _ List.mem_cons_self, assigns⟩
  argCall := by
    intro before node after aggregate split role
    obtain ⟨_, _, plain, _, decided, same⟩ := decision_of_classify ok split
    rw [role] at decided
    rw [same]
    exact decided.argCall_declared
  bareCall := by
    intro before node after callee split role noDot
    obtain ⟨_, _, _, _, decided, _⟩ := decision_of_classify ok split
    rw [role] at decided
    exact decided.bareCall_declared noDot

/-- A name imported as a module, then as a member under a nickname; a function that calls itself;
and calls of all kinds. -/
theorem Forest.classify_declaresFirst_calls :
    let forest := Forest.ofLevels (Nest.placed [.code 0 "packages:".toList 1,
      .code 1 "- math".toList 2, .code 1 "- time".toList 3, .code 1 "- os.wait as time".toList 4,
      .code 0 "function greet define who:".toList 5, .code 1 "greet: who".toList 6,
      .code 0 "math.log.info: 1".toList 7, .code 0 "time: 2".toList 8, .code 0 "greet;".toList 9,
      .code 0 "len;".toList 10, .code 0 "n: 3".toList 11])
    ∃ forest' table, forest.classify = .ok (forest', table) ∧
      forest'.preorder.map Node.role = [.importList, .importEntry ⟨"math".toList, none, none⟩,
        .importEntry ⟨"time".toList, none, none⟩,
        .importEntry ⟨"os".toList, some "wait".toList, some "time".toList⟩,
        .functionDef "greet".toList (some "who".toList), .argCall .scalar, .argCall .scalar,
        .argCall .scalar, .bareCall "greet".toList, .bareCall "len".toList,
        .assignment .scalar] ∧
      forest'.DeclaresFirst := by
  intro forest
  have given : (forest.classify.toOption.map fun result => result.1.preorder.map Node.role) =
      some [.importList, .importEntry ⟨"math".toList, none, none⟩,
        .importEntry ⟨"time".toList, none, none⟩,
        .importEntry ⟨"os".toList, some "wait".toList, some "time".toList⟩,
        .functionDef "greet".toList (some "who".toList), .argCall .scalar, .argCall .scalar,
        .argCall .scalar, .bareCall "greet".toList, .bareCall "len".toList,
        .assignment .scalar] := by
    decide +kernel
  obtain ⟨⟨forest', table⟩, found, roles⟩ := Option.map_eq_some_iff.mp given
  have ok := eq_ok_of_toOption found
  exact ⟨forest', table, ok, roles, Forest.classify_declaresFirst ok⟩

end Outline
