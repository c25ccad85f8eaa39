import Outline.Proofs.Known

/-!
# Classification with more modules

Modules that are imported before a document may change what its lines mean: a key that takes a
member of a module is a call, and else an assignment. They change nothing when the table that the
document makes without them knows none of their names (`Classify.siblings_withModules`). A key that
would become a call starts with the name of a module; without that module it is assigned to, which
makes its first name known.
-/

set_option autoImplicit false

namespace Outline

namespace SymbolTable

/-- The table with modules imported before everything else. -/
def withModules (modules : List Text) (table : SymbolTable) : SymbolTable :=
  { table with imports := table.imports ++ modules.map fun name => (name, ImportKind.module) }

section

variable {modules : List Text} {table : SymbolTable} {name : Text}

theorem lookup_modules :
    (modules.map fun name => (name, ImportKind.module)).lookup name =
      if name ∈ modules then some .module else none := by
  induction modules with
  | nil => rfl
  | cons first modules ih =>
    rw [List.map_cons, List.lookup_cons, ih]
    by_cases same : name = first
    · simp [same]
    · rw [beq_false_of_ne same]
      simp [same]

/-- An import of the table hides a module of the same name. -/
theorem lookup_withModules :
    (table.withModules modules).imports.lookup name =
      (table.imports.lookup name).or (if name ∈ modules then some .module else none) := by
  rw [withModules, List.lookup_append, lookup_modules]

/-- A module is nothing to call. -/
theorem isCallable_withModules :
    (table.withModules modules).isCallable name = table.isCallable name := by
  have member : ((table.withModules modules).imports.lookup name == some .member) =
      (table.imports.lookup name == some .member) := by
    rw [lookup_withModules]
    cases table.imports.lookup name with
    | some kind => rfl
    | none => split <;> rfl
  rw [isCallable, isCallable, member]
  rfl

/-- A name that is none of the modules is a module if it was one. -/
theorem isModule_withModules (apart : name ∉ modules) :
    (table.withModules modules).isModule name = table.isModule name := by
  rw [isModule, isModule, lookup_withModules, if_neg apart, Option.or_none]

/-- The modules are known, and so is what was known. -/
theorem isKnown_withModules :
    (table.withModules modules).isKnown name = true ↔
      table.isKnown name = true ∨ name ∈ modules := by
  have imported : ((table.withModules modules).imports.lookup name).isSome = true ↔
      (table.imports.lookup name).isSome = true ∨ name ∈ modules := by
    rw [lookup_withModules, Option.isSome_or, Bool.or_eq_true]
    refine or_congr_right ?_
    split
    next mem => simp [mem]
    next apart => simp [apart]
  have functions : (table.withModules modules).functionLine? name = table.functionLine? name := rfl
  have names : (table.withModules modules).variableNames = table.variableNames := rfl
  simp only [isKnown, Bool.or_eq_true, imported, functions, names]
  tauto

theorem defineVariables_withModules (names : List Text) :
    (table.withModules modules).defineVariables names =
      (table.defineVariables names).withModules modules := by
  induction names generalizing table with
  | nil => rfl
  | cons first names ih => exact @ih (table.defineVariable first)

/-- What a node declares stands before the modules. -/
theorem declare_withModules (node : Node) (role : Role) :
    (table.withModules modules).declare node role =
      (table.declare node role).withModules modules := by
  cases role with
  | assignment aggregate =>
    rw [declare, declare]
    split
    · rfl
    · exact defineVariables_withModules _
  | forHeader targets | rangeForHeader targets => exact defineVariables_withModules targets
  | functionDef function param =>
    rw [declare, declare, defineVariables_withModules]
    rfl
  | _ => rfl

/-! ## Names stay known -/

/-- A known name stays known. -/
theorem isKnown_declare (node : Node) (role : Role) (known : table.isKnown name = true) :
    (table.declare node role).isKnown name = true := by
  have asGiven : table.declare node role =
      table.declare { node with role } ({ node with role } : Node).role := by
    cases role <;> rfl
  rw [asGiven]
  simp only [isKnown, Bool.or_eq_true, List.contains_iff_mem] at known ⊢
  rcases known with ((function | imported) | assigned) | builtin
  · refine .inl (.inl (.inl ?_))
    rw [functionLine?, functions_declare, List.lookup_append, Option.isSome_or, Bool.or_eq_true]
    exact .inr function
  · refine .inl (.inl (.inr ?_))
    rw [imports_declare, List.lookup_append, Option.isSome_or, Bool.or_eq_true]
    exact .inr imported
  · exact .inl (.inr ((mem_variableNames_declare _ _ _).mpr (.inr assigned)))
  · exact .inr builtin

end

end SymbolTable

namespace Classify

open SymbolTable

variable {modules : List Text} {context : Context} {previous before : Option Role}
  {table table' : SymbolTable} {node : Node} {shapes : List Shape} {role : Role}
  {forest forest' : Forest Node}

/-- A known name stays known over a whole pass. -/
theorem Classified.isKnown [Letters]
    (classified : Classified context previous table forest forest' table')
    {name : Text} (known : table.isKnown name = true) : table'.isKnown name = true := by
  induction classified with
  | nil => exact known
  | cons _ _ _ _ ihBelow ihAfter => exact ihAfter (ihBelow (isKnown_declare _ _ known))

/-! ## The role of one node -/

/-- A key that starts with a name and a dot is assigned to under this name. -/
theorem isKnown_of_assigned {root rest : Text} {aggregate : Aggregate}
    (identifier : Text.isIdentifier root = true) (key : node.keyText = root ++ '.' :: rest) :
    (table.declare node (.assignment aggregate)).isKnown root = true := by
  have stop : ∀ c ∈ ('.' :: rest).head?, Text.isWordChar c = false := by
    intro c head
    obtain rfl := Option.some.inj head
    decide
  have front : ∀ c ∈ node.keyText.head?, Text.isBlank c = false := by
    intro c head
    have inRoot : c ∈ root.head? := by
      cases root with
      | nil => cases identifier
      | cons d more =>
        rw [key] at head
        exact head
    have word := Text.isWordChar_of_mem_identifier identifier c (List.mem_of_mem_head? inRoot)
    by_contra blank
    rw [Text.isWordChar_eq_false_of_isBlank (by simpa using blank)] at word
    cases word
  have name : rootName node.keyText = root := by
    rw [rootName_eq, Text.trimStart_eq_self front, key, Text.leadingWord_append stop]
    have whole := rootName_of_isIdentifier identifier
    rwa [rootName_eq, Text.trimStart_eq_self] at whole
    intro c head
    refine front c ?_
    rw [key, List.head?_append, Option.mem_def.mp head]
    rfl
  let given : Node := { node with role := .assignment aggregate }
  have added : root ∈ given.variableNames := by
    show root ∈ (node.keyText.splitOn ',').map rootName
    exact mem_map_rootName_splitOn.mpr (.inl name)
  have inTable : root ∈ (table.declare node (.assignment aggregate)).variableNames :=
    (mem_variableNames_declare table given root).mpr (.inl added)
  simp [SymbolTable.isKnown, inTable]

/-- A key is callable as before, unless its root is one of the modules. -/
theorem isCallableKey_withModules {key : Text}
    (apart : ∀ root rest, Text.cutAtFirstDot? key = some (root, rest) → root ∉ modules) :
    isCallableKey (table.withModules modules) key = isCallableKey table key := by
  rw [isCallableKey, isCallableKey, isCallable_withModules]
  split
  next root rest cut => rw [isModule_withModules (apart root rest cut)]
  next => rfl

/-- A callable key stays callable. -/
theorem isCallableKey_withModules_of {key : Text} (callable : isCallableKey table key = true) :
    isCallableKey (table.withModules modules) key = true := by
  rw [isCallableKey, Bool.or_eq_true] at callable ⊢
  rw [isCallable_withModules]
  refine callable.imp_right fun member => ?_
  split at member
  next root rest cut =>
    rw [Bool.and_eq_true, isModule, beq_iff_eq] at member
    rw [isModule, lookup_withModules, member.1, member.2]
    rfl
  next => cases member

/-- A pair means the same with modules whose names stay unknown: a key that became a call of one of
them is assigned to without it, and then the name is known. -/
theorem plainStatement_withModules (named : ∀ name ∈ modules, Text.isIdentifier name = true)
    (fresh : ∀ name ∈ modules, (table.declare node role).isKnown name = false)
    (ok : plainStatement table node shapes = .ok role) :
    plainStatement (table.withModules modules) node shapes = .ok role := by
  rw [plainStatement] at ok ⊢
  split at ok
  next callable => rwa [if_pos (isCallableKey_withModules_of callable)]
  next notCallable =>
    split at ok
    next place =>
      obtain ⟨aggregate, held, rfl⟩ := map_eq_ok.mp ok
      have apart : ∀ root rest, Text.cutAtFirstDot? node.keyText = some (root, rest) →
          root ∉ modules := by
        intro root rest cut mem
        have known : (table.declare node (.assignment aggregate)).isKnown root = true :=
          isKnown_of_assigned (named root mem) (Text.eq_append_of_cutAtFirstDot cut)
        rw [fresh root mem] at known
        cases known
      rwa [isCallableKey_withModules apart, if_neg notCallable, if_pos place]
    next => cases ok

/-- A header looks only at the assignments of the table, and at whether the statement before it is a
condition. -/
theorem headerRole_withModules [Letters] (same : isCondition before = isCondition previous)
    (line : Nat) (header : Header) :
    headerRole (table.withModules modules) before line header =
      headerRole table previous line header := by
  cases header with
  | elifThen condition => rw [headerRole, headerRole, same]
  | otherwise => rw [headerRole, headerRole, same]
  | _ => rfl

/-- A node with a key keeps its role when modules are imported before it whose names are unknown
after it. -/
theorem keyedStatement_withModules [Letters]
    (named : ∀ name ∈ modules, Text.isIdentifier name = true)
    (fresh : ∀ name ∈ modules, (table.declare node role).isKnown name = false)
    (same : isCondition before = isCondition previous)
    (ok : keyedStatement table previous node shapes = .ok role) :
    keyedStatement (table.withModules modules) before node shapes = .ok role := by
  unfold keyedStatement at ok ⊢
  split at ok
  next keyword found =>
    rw [headerStatement] at ok ⊢
    simp only [headerRole_withModules same]
    exact ok
  next =>
    split at ok
    next word => rwa [if_pos word]
    next noPrint =>
      rw [if_neg noPrint]
      split at ok
      next word => rwa [if_pos word]
      next noReturn =>
        rw [if_neg noReturn]
        split at ok
        next word => rwa [if_pos word]
        next noPackages =>
          rw [if_neg noPackages]
          split at ok
          next => cases ok
          next filled =>
            rw [if_neg filled, plainStatement_withModules named fresh (report_eq_ok ok)]
            rfl

/-- A name that is known stays known, so a call that is resolved stays resolved. -/
theorem bareStatement_withModules (ok : bareStatement table node = .ok role) :
    bareStatement (table.withModules modules) node = .ok role := by
  unfold bareStatement at ok ⊢
  split at ok
  next callee cut =>
    split at ok
    next => cases ok
    next path =>
      split at ok
      next known =>
        have stays : resolves (table.withModules modules) callee = true := by
          rw [resolves] at known ⊢
          split at known
          next root rest cut => exact isKnown_withModules.mpr (.inl known)
          next => rwa [isCallable_withModules]
        rw [if_neg path, if_pos stays]
        exact ok
      next => cases ok
  next => exact ok

/-- A node keeps its role when modules are imported before it whose names are unknown after it. -/
theorem role_withModules [Letters] (named : ∀ name ∈ modules, Text.isIdentifier name = true)
    (fresh : ∀ name ∈ modules, (table.declare node role).isKnown name = false)
    (same : isCondition before = isCondition previous)
    (ok : Classify.role table context previous node shapes = .ok role) :
    Classify.role (table.withModules modules) context before node shapes = .ok role := by
  obtain ⟨given, decided, ok⟩ := bind_eq_ok.mp ok
  have isGiven : given = role := by
    split at ok
    · exact Except.ok.inj ok
    · cases ok
  subst isGiven
  refine bind_eq_ok.mpr ⟨given, ?_, ok⟩
  unfold decideRole at decided ⊢
  split at decided
  · exact decided
  · exact decided
  · exact decided
  · exact decided
  · exact keyedStatement_withModules named fresh same decided
  · exact bareStatement_withModules decided
  · cases decided

/-! ## The pass over a forest -/

/-- Modules whose names a document never makes known change nothing in its roles, and stay in its
table as they are. -/
theorem siblings_withModules [Letters] (named : ∀ name ∈ modules, Text.isIdentifier name = true)
    (same : isCondition before = isCondition previous)
    (fresh : ∀ name ∈ modules, table'.isKnown name = false)
    (ok : siblings context previous table forest = .ok (forest', table')) :
    siblings context before (table.withModules modules) forest =
      .ok (forest', table'.withModules modules) := by
  induction forest generalizing context previous before table forest' table' with
  | nil =>
    obtain ⟨rfl, rfl⟩ := Prod.mk.inj (Except.ok.inj ok)
    rfl
  | cons node children rest ihChildren ihRest =>
    rw [siblings] at ok ⊢
    obtain ⟨role, given, ok⟩ := bind_eq_ok.mp ok
    obtain ⟨⟨children', inner⟩, below, ok⟩ := bind_eq_ok.mp ok
    obtain ⟨⟨rest', outer⟩, after, ok⟩ := bind_eq_ok.mp ok
    obtain ⟨rfl, rfl⟩ := Prod.mk.inj (Except.ok.inj ok)
    -- What is unknown at the end was unknown all along.
    have unknown {earlier : SymbolTable} (stays : ∀ name, earlier.isKnown name = true →
        outer.isKnown name = true) : ∀ name ∈ modules, earlier.isKnown name = false := by
      intro name mem
      by_contra known
      have := stays name (by simpa using known)
      rw [fresh name mem] at this
      cases this
    have freshInner := unknown fun name known => (classified_of_siblings after).isKnown known
    have freshOwn := unknown fun name known =>
      (classified_of_siblings after).isKnown ((classified_of_siblings below).isKnown known)
    refine bind_eq_ok.mpr ⟨role, role_withModules named freshOwn same given, ?_⟩
    rw [declare_withModules]
    refine bind_eq_ok.mpr ⟨_, ihChildren rfl freshInner below, ?_⟩
    have sameNext : isCondition (if node.isCode = true then some role else before) =
        isCondition (if node.isCode = true then some role else previous) := by
      split
      · rfl
      · exact same
    exact bind_eq_ok.mpr ⟨_, ihRest sameNext fresh after, rfl⟩

end Classify
end Outline
