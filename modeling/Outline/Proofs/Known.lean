import Outline.Header.Edition
import Outline.Proofs.Declared
import Outline.Proofs.Written

/-!
# What the table of symbols knows

After classification the table knows the builtins and the names that nodes bind: functions and their
parameters, imports, the targets of loops, and the identifiers that assigned places start with
(`Node.Binds`). It knows a few names more. The places of a key are separated by the commas at top
level, but the names are taken behind every comma of the key, so the word behind a comma inside a
subscript is known too, and so is the empty name when the key ends with a comma (`Node.Strays`).
`Forest.classify_isKnown_iff` says that there is nothing else.
-/

set_option autoImplicit false

namespace Outline

namespace Text

/-! ## The word that a text starts with -/

theorem leadingWord_append {s t : Text} (stop : ∀ c ∈ t.head?, isWordChar c = false) :
    leadingWord (s ++ t) = leadingWord s := by
  induction s with
  | nil =>
    cases t with
    | nil => rfl
    | cons c rest => simp [leadingWord, stop c rfl]
  | cons c rest ih =>
    unfold leadingWord at ih ⊢
    by_cases word : isWordChar c = true
    · simp [word, ih]
    · simp [word]

end Text

namespace SymbolTable

open Text

theorem rootName_eq (s : Text) : rootName s = leadingWord (trimStart s) := by
  obtain ⟨tail, split, blank⟩ := exists_eq_trimEnd_append (trimStart s)
  have stop : ∀ c ∈ tail.head?, isWordChar c = false := fun c head =>
    isWordChar_eq_false_of_isBlank (blank c (List.mem_of_mem_head? head))
  rw [rootName, trim]
  conv_rhs => rw [split]
  exact (leadingWord_append stop).symm

/-- Blanks around a path do not change its root. -/
theorem rootName_trim (s : Text) : rootName (trim s) = rootName s := by
  rw [rootName, rootName, trim_eq_self (trimmed_trim s)]

/-- What stands behind a comma has no part in the name before it. -/
theorem rootName_append_comma (s rest : Text) : rootName (s ++ ',' :: rest) = rootName s := by
  have stop : ∀ c ∈ (',' :: rest).head?, isWordChar c = false := by
    intro c head
    obtain rfl := Option.some.inj head
    decide
  rw [rootName_eq, rootName_eq, trimStart, trimStart, List.dropWhile_append]
  split
  next empty =>
    have comma : (',' :: rest).dropWhile isBlank = ',' :: rest :=
      List.dropWhile_cons_of_neg (by decide)
    rw [List.isEmpty_iff.mp empty, comma]
    exact @leadingWord_append [] _ stop
  next => exact leadingWord_append stop

theorem rootName_of_isIdentifier {s : Text} (identifier : isIdentifier s = true) :
    rootName s = s := by
  have word := isWordChar_of_mem_identifier identifier
  have front : ∀ c ∈ s.head?, isBlank c = false := by
    intro c head
    have here := word c (List.mem_of_mem_head? head)
    by_contra blank
    rw [isWordChar_eq_false_of_isBlank (by simpa using blank)] at here
    cases here
  have whole : (s ++ []).takeWhile isWordChar = s ++ [].takeWhile isWordChar :=
    List.takeWhile_append_of_pos word
  rw [rootName_eq, trimStart_eq_self front, leadingWord]
  simpa using whole

/-! ## The names behind commas -/

/-- The first of the parts between commas has the name of the whole text. -/
theorem exists_splitOn_cons (s : Text) :
    ∃ first more, s.splitOn ',' = first :: more ∧ rootName first = rootName s := by
  obtain ⟨first, more, parts⟩ := List.exists_cons_of_ne_nil (List.splitOn_ne_nil ',' s)
  refine ⟨first, more, parts, ?_⟩
  have whole : [','].intercalate (s.splitOn ',') = s := List.intercalate_splitOn ','
  rw [← whole, parts]
  cases more with
  | nil => rw [List.intercalate_singleton]
  | cons second rest =>
    rw [List.intercalate_cons_cons, List.append_assoc, List.singleton_append,
      rootName_append_comma]

/-- Each of some texts joined by commas is the front of the whole, or stands behind a comma. -/
theorem rootName_of_mem_intercalate {parts : List Text} {part : Text} (mem : part ∈ parts) :
    rootName part = rootName ([','].intercalate parts) ∨
      ∃ before after, [','].intercalate parts = before ++ ',' :: after ∧
        rootName part = rootName after := by
  induction parts with
  | nil => cases mem
  | cons first rest ih =>
    cases rest with
    | nil =>
      rw [List.mem_singleton] at mem
      rw [mem, List.intercalate_singleton]
      exact .inl rfl
    | cons second rest =>
      rw [List.intercalate_cons_cons, List.append_assoc, List.singleton_append]
      rcases List.mem_cons.mp mem with rfl | later
      · exact .inl (rootName_append_comma _ _).symm
      · rcases ih later with whole | ⟨before, after, split, same⟩
        · exact .inr ⟨first, _, rfl, whole⟩
        · refine .inr ⟨first ++ ',' :: before, after, ?_, same⟩
          rw [split, List.append_assoc, List.cons_append]

/-- The names of the parts between commas are the name of the whole text and the names behind its
commas. -/
theorem mem_map_rootName_splitOn {s name : Text} :
    name ∈ (s.splitOn ',').map rootName ↔
      rootName s = name ∨ ∃ before after, s = before ++ ',' :: after ∧ rootName after = name := by
  rw [List.mem_map]
  constructor
  · rintro ⟨part, mem, rfl⟩
    have cases := rootName_of_mem_intercalate mem
    rw [List.intercalate_splitOn ','] at cases
    refine cases.imp Eq.symm ?_
    rintro ⟨before, after, split, same⟩
    exact ⟨before, after, split, same.symm⟩
  · rintro (rfl | ⟨before, after, rfl, rfl⟩)
    · obtain ⟨first, more, parts, same⟩ := exists_splitOn_cons s
      exact ⟨first, by simp [parts], same⟩
    · obtain ⟨first, more, parts, same⟩ := exists_splitOn_cons after
      refine ⟨first, ?_, same⟩
      rw [List.splitOn_append_cons_self, parts]
      simp

end SymbolTable

namespace Text

open SymbolTable

/-- A text ends at top level: a scan of it ends outside every bracket and string literal. -/
def EndsTop (s : Text) : Prop := (s.foldl Nesting.step .start).isTop = true

/-- Where a search fails, the character is nowhere at top level. -/
theorem cutAtFrom_eq_none {target : Char} (plain : isTarget target = true) {n : Nesting}
    {s : Text} (none : cutAtFrom target n s = none) {before after : Text}
    (split : s = before ++ target :: after) : (before.foldl Nesting.step n).isTop = false := by
  induction s generalizing n before with
  | nil => simp at split
  | cons c rest ih =>
    rw [cutAtFrom] at none
    split at none
    next => cases none
    next refused =>
      rw [Option.map_eq_none_iff] at none
      cases before with
      | nil =>
        obtain ⟨rfl, _⟩ := List.cons.inj split
        simp only [isTarget, Bool.and_eq_true] at plain
        simpa [plain] using refused
      | cons d before =>
        obtain ⟨rfl, later⟩ := List.cons.inj split
        exact ih none later

/-- The commas at top level are the first one and those behind it. -/
theorem split_at_top_iff {s before after : Text} (found : cutAt? ',' s = some (before, after))
    {front back : Text} :
    (s = front ++ ',' :: back ∧ EndsTop front) ↔
      (front = before ∧ back = after) ∨
        ∃ middle, front = before ++ ',' :: middle ∧ after = middle ++ ',' :: back ∧
          EndsTop middle := by
  obtain ⟨split, top, first⟩ := (cutAtFrom_iff rfl).mp found
  have again (middle : Text) : EndsTop (before ++ ',' :: middle) ↔ EndsTop middle := by
    rw [EndsTop, EndsTop, List.foldl_append, Nesting.eq_start_of_isTop top]
    rfl
  constructor
  · rintro ⟨rfl, endsTop⟩
    rcases append_eq_append_cons split with ⟨middle, rfl, rest⟩ | ⟨skipped, inBefore, rest⟩
    · exact .inr ⟨middle, rfl, rest, (again middle).mp endsTop⟩
    · cases skipped with
      | nil =>
        obtain ⟨_, rfl⟩ := List.cons.inj rest
        exact .inl ⟨by simpa using inBefore.symm, rfl⟩
      | cons c skipped =>
        -- An earlier comma at top level would have been the first.
        obtain ⟨rfl, _⟩ := List.cons.inj rest
        rw [EndsTop, first front skipped inBefore] at endsTop
        cases endsTop
  · rintro (⟨rfl, rfl⟩ | ⟨middle, rfl, rfl, endsTop⟩)
    · exact ⟨split, top⟩
    · refine ⟨?_, (again middle).mpr endsTop⟩
      rw [split, List.append_assoc, List.cons_append]

theorem trim_eq_nil_iff {s : Text} : trim s = [] ↔ ∀ c ∈ s, isBlank c = true := by
  constructor
  · intro empty c mem
    obtain ⟨lead, tail, split, blankLead, blankTail⟩ := exists_eq_trim_between s
    rw [split, empty, List.append_nil, List.mem_append] at mem
    exact mem.elim (blankLead c) (blankTail c)
  · intro blank
    simpa using trim_append blank trimmed_nil

theorem comma_not_mem_of_blank {s : Text} (blank : trim s = []) : ',' ∉ s := by
  intro mem
  have comma := trim_eq_nil_iff.mp blank ',' mem
  cases comma

theorem splitCommas_of_blank {s : Text} (blank : trim s = []) : splitCommas s = [] := by
  rw [splitCommas.eq_def]
  split
  next before after found =>
    refine absurd ?_ (comma_not_mem_of_blank blank)
    simp [eq_append_of_cutAt found]
  next => simp [nonBlank?, blank]

/-- The names of the parts between the commas at top level are the name of the whole text and the
names behind these commas, a blank end apart. -/
theorem exists_mem_splitCommas_iff {s name : Text} (filled : trim s ≠ []) :
    (∃ part ∈ splitCommas s, rootName part = name) ↔
      rootName s = name ∨ ∃ before after, s = before ++ ',' :: after ∧ EndsTop before ∧
        trim after ≠ [] ∧ rootName after = name := by
  fun_induction splitCommas s with
  | case1 s before after found ih =>
    have root : rootName (trim before) = rootName s := by
      rw [rootName_trim, eq_append_of_cutAt found, rootName_append_comma]
    have later : (∃ part ∈ splitCommas after, rootName part = name) ↔
        ∃ front back, s = front ++ ',' :: back ∧ EndsTop front ∧ trim back ≠ [] ∧
          rootName back = name := by
      by_cases blank : trim after = []
      · rw [splitCommas_of_blank blank]
        refine iff_of_false (by simp) ?_
        rintro ⟨front, back, split, top, filled, _⟩
        rcases (split_at_top_iff found).mp ⟨split, top⟩ with ⟨_, rfl⟩ | ⟨middle, _, rfl, _⟩
        · exact filled blank
        · exact comma_not_mem_of_blank blank (by simp)
      · rw [ih blank]
        constructor
        · rintro (same | ⟨middle, back, inAfter, top, filled, same⟩)
          · obtain ⟨split, top⟩ := (split_at_top_iff found).mpr (.inl ⟨rfl, rfl⟩)
            exact ⟨before, after, split, top, blank, same⟩
          · obtain ⟨split, top⟩ := (split_at_top_iff found).mpr (.inr ⟨middle, rfl, inAfter, top⟩)
            exact ⟨_, back, split, top, filled, same⟩
        · rintro ⟨front, back, split, top, filled, same⟩
          rcases (split_at_top_iff found).mp ⟨split, top⟩ with
            ⟨_, rfl⟩ | ⟨middle, _, inAfter, top⟩
          · exact .inl same
          · exact .inr ⟨middle, back, inAfter, top, filled, same⟩
    simp only [List.exists_mem_cons_iff, root, later]
  | case2 s none =>
    have noComma : ¬ ∃ before after, s = before ++ ',' :: after ∧ EndsTop before ∧
        trim after ≠ [] ∧ rootName after = name := by
      rintro ⟨before, after, split, top, _⟩
      rw [EndsTop, cutAtFrom_eq_none rfl none split] at top
      cases top
    have whole : nonBlank? s = some (trim s) := nonBlank?_eq_some_iff.mpr ⟨rfl, filled⟩
    simp [whole, noComma, rootName_trim]

end Text

/-! ## What a node binds -/

namespace Node

/-- The names that a node makes variables. -/
def variableNames (node : Node) : List Text :=
  match node.role with
  | .assignment _ => (node.keyText.splitOn ',').map SymbolTable.rootName
  | .forHeader targets _ | .rangeForHeader targets _ => targets
  | .functionDef _ param => param.toList
  | _ => []

/-- The node is an import of this name. -/
def Imports (node : Node) (name : Text) : Prop :=
  ∃ path, node.role = .importEntry path ∧ path.boundName = name

/-- The ways in which a node binds a name. -/
inductive Binds (node : Node) (name : Text) : Prop
  | function (param : Option Text) (role : node.role = .functionDef name param)
  | parameter (function : Text) (role : node.role = .functionDef function (some name))
  | imported (path : ImportPath) (role : node.role = .importEntry path)
      (bound : path.boundName = name)
  | target (targets : List Text) (iterable : Text) (role : node.role = .forHeader targets iterable)
      (mem : name ∈ targets)
  | rangeTarget (targets : List Text) (range : Text)
      (role : node.role = .rangeForHeader targets range) (mem : name ∈ targets)
  | place (aggregate : Aggregate) (place : Text) (role : node.role = .assignment aggregate)
      (mem : place ∈ Text.splitCommas node.keyText) (root : SymbolTable.rootName place = name)

/-- The node assigns to places, and behind a comma that separates none of them stands this word: the
comma is not at top level, or nothing follows it. -/
def Strays (node : Node) (name : Text) : Prop :=
  (∃ aggregate, node.role = .assignment aggregate) ∧
    ∃ before after, node.keyText = before ++ ',' :: after ∧
      (¬ Text.EndsTop before ∨ Text.trim after = []) ∧ SymbolTable.rootName after = name

/-- The names taken from the key of an assignment are those of its places, and those that stray. -/
theorem mem_variableNames_of_assignment {node : Node} {name : Text} {aggregate : Aggregate}
    (role : node.role = .assignment aggregate) (filled : Text.trim node.keyText ≠ []) :
    name ∈ node.variableNames ↔
      (∃ place ∈ Text.splitCommas node.keyText, SymbolTable.rootName place = name) ∨
        node.Strays name := by
  have names : node.variableNames = (node.keyText.splitOn ',').map SymbolTable.rootName := by
    rw [variableNames, role]
  rw [names, SymbolTable.mem_map_rootName_splitOn, Text.exists_mem_splitCommas_iff filled]
  constructor
  · rintro (whole | ⟨before, after, split, same⟩)
    · exact .inl (.inl whole)
    · by_cases separates : Text.EndsTop before ∧ Text.trim after ≠ []
      · exact .inl (.inr ⟨before, after, split, separates.1, separates.2, same⟩)
      · rw [not_and_or, not_not] at separates
        exact .inr ⟨⟨aggregate, role⟩, before, after, split, separates, same⟩
  · rintro ((whole | ⟨before, after, split, _, _, same⟩) | ⟨_, before, after, split, _, same⟩)
    · exact .inl whole
    · exact .inr ⟨before, after, split, same⟩
    · exact .inr ⟨before, after, split, same⟩

/-- What a node binds, or strays, is what it puts into the table. -/
theorem binds_or_strays_iff {node : Node} {name : Text}
    (filled : ∀ aggregate, node.role = .assignment aggregate → Text.trim node.keyText ≠ []) :
    node.Binds name ∨ node.Strays name ↔
      node.Defines name ∨ node.Imports name ∨ name ∈ node.variableNames := by
  constructor
  · rintro (binds | strays)
    · cases binds with
      | function param role => exact .inl ⟨param, role⟩
      | imported path role bound => exact .inr (.inl ⟨path, role, bound⟩)
      | place aggregate place role mem root =>
        refine .inr (.inr ?_)
        exact (mem_variableNames_of_assignment role (filled _ role)).mpr (.inl ⟨place, mem, root⟩)
      | parameter function role => exact .inr (.inr (by simp [variableNames, role]))
      | target targets iterable role mem => exact .inr (.inr (by simp [variableNames, role, mem]))
      | rangeTarget targets range role mem => exact .inr (.inr (by simp [variableNames, role, mem]))
    · obtain ⟨⟨aggregate, role⟩, _⟩ := id strays
      exact .inr (.inr ((mem_variableNames_of_assignment role (filled _ role)).mpr (.inr strays)))
  · rintro (⟨param, role⟩ | ⟨path, role, bound⟩ | mem)
    · exact .inl (.function param role)
    · exact .inl (.imported path role bound)
    · cases role : node.role with
      | assignment aggregate =>
        refine ((mem_variableNames_of_assignment role (filled _ role)).mp mem).imp_left ?_
        rintro ⟨place, inKey, root⟩
        exact .place aggregate place role inKey root
      | forHeader targets iterable =>
        rw [variableNames, role] at mem
        exact .inl (.target targets iterable role mem)
      | rangeForHeader targets range =>
        rw [variableNames, role] at mem
        exact .inl (.rangeTarget targets range role mem)
      | functionDef function param =>
        rw [variableNames, role, Option.mem_toList] at mem
        exact .inl (.parameter function (by rw [role, Option.mem_def.mp mem]))
      | _ => simp [variableNames, role] at mem

end Node

namespace SymbolTable

theorem variableNames_defineVariables (table : SymbolTable) (names : List Text) :
    (table.defineVariables names).variableNames = names.reverse ++ table.variableNames := by
  induction names generalizing table with
  | nil => rfl
  | cons name names ih =>
    have step : (table.defineVariables (name :: names)).variableNames = _ :=
      ih (table.defineVariable name)
    rw [step, defineVariable, List.reverse_cons, List.append_assoc, List.singleton_append]

/-- A node adds its variables to those that are known, and no other. -/
theorem mem_variableNames_declare (table : SymbolTable) (node : Node) (name : Text) :
    name ∈ (table.declare node node.role).variableNames ↔
      name ∈ node.variableNames ∨ name ∈ table.variableNames := by
  rw [Node.variableNames, declare.eq_def]
  cases node.role with
  | assignment aggregate =>
    by_cases identifier : Text.isIdentifier node.keyText = true
    · have alone : ',' ∉ node.keyText := by
        intro mem
        have word := Text.isWordChar_of_mem_identifier identifier _ mem
        revert word
        decide
      have names : name ∈ (node.keyText.splitOn ',').map rootName ↔ name = node.keyText := by
        rw [mem_map_rootName_splitOn, rootName_of_isIdentifier identifier, eq_comm]
        refine or_iff_left ?_
        rintro ⟨before, after, split, _⟩
        exact alone (by simp [split])
      simp only [names, identifier, if_pos, defineAssignment, defineVariable, List.mem_cons]
    · simp [identifier, variableNames_defineVariables]
  | forHeader targets | rangeForHeader targets => simp [variableNames_defineVariables]
  | functionDef function param =>
    simp [defineFunction, variableNames_defineVariables]
  | _ => simp [defineImport]

/-- The variables of a table are those of the nodes. -/
theorem mem_variableNames_declareAll (table : SymbolTable) (nodes : List Node) (name : Text) :
    name ∈ (table.declareAll nodes).variableNames ↔
      (∃ node ∈ nodes, name ∈ node.variableNames) ∨ name ∈ table.variableNames := by
  induction nodes generalizing table with
  | nil => simp [declareAll]
  | cons node nodes ih =>
    have step : name ∈ (table.declareAll (node :: nodes)).variableNames ↔ _ :=
      ih (table.declare node node.role)
    rw [step, mem_variableNames_declare, List.exists_mem_cons_iff]
    simp only [or_assoc, or_comm]

/-- A name is imported if some node imports it. -/
theorem isSome_lookup_imports_iff {nodes : List Node} {name : Text} :
    ((declareAll {} nodes).imports.lookup name).isSome = true ↔
      ∃ node ∈ nodes, node.Imports name := by
  rw [imports_declareAll, List.append_nil, List.lookup_isSome_iff]
  constructor
  · rintro ⟨entry, mem, same⟩
    obtain ⟨node, inNodes, made⟩ := List.mem_filterMap.mp (List.mem_reverse.mp mem)
    obtain ⟨path, imported, rfl⟩ := Option.map_eq_some_iff.mp made
    exact ⟨node, inNodes, path, Node.import?_eq_some_iff.mp imported, (eq_of_beq same).symm⟩
  · rintro ⟨node, inNodes, path, role, rfl⟩
    refine ⟨(path.boundName, path.kind), List.mem_reverse.mpr ?_, beq_self_eq_true _⟩
    refine List.mem_filterMap.mpr ⟨node, inNodes, ?_⟩
    rw [Node.import?_eq_some_iff.mpr role]
    rfl

/-- What the table made of nodes knows is a builtin, or comes from one of the nodes. -/
theorem isKnown_declareAll_iff {nodes : List Node} {name : Text} :
    (declareAll {} nodes).isKnown name = true ↔
      isBuiltin name = true ∨
        ∃ node ∈ nodes, node.Defines name ∨ node.Imports name ∨ name ∈ node.variableNames := by
  have named : name ∈ (declareAll {} nodes).variableNames ↔
      ∃ node ∈ nodes, name ∈ node.variableNames := by
    simp [mem_variableNames_declareAll]
  simp only [isKnown, Bool.or_eq_true, isSome_functionLine?_iff, isSome_lookup_imports_iff,
    List.contains_iff_mem, named, and_or_left, exists_or]
  rw [or_comm, or_assoc]

end SymbolTable

open Classify

/-- The key of an assignment is not blank. -/
theorem Classify.Decision.filled [Letters] {table : SymbolTable} {context : Context}
    {previous : Option Role} {node : Node} {shapes : List Shape} {aggregate : Aggregate}
    (decided : Decision table context previous node shapes (.assignment aggregate)) :
    Text.trim node.keyText ≠ [] := by
  cases decided with
  | assignment _ _ _ _ _ _ place =>
    intro blank
    rw [Text.isPlace, Text.splitCommas_of_blank blank] at place
    cases place
  | header _ _ _ _ _ _ _ _ decided => cases decided

/-- The table of a classified forest knows a name exactly when it is a builtin, or a node binds it,
or it stands behind a comma of an assigned key that separates no places. -/
theorem Forest.classify_isKnown_iff [Letters] {forest forest' : Forest Node} {table : SymbolTable}
    (ok : forest.classify = .ok (forest', table)) (name : Text) :
    table.isKnown name = true ↔
      isBuiltin name = true ∨ ∃ node ∈ forest'.preorder, node.Binds name ∨ node.Strays name := by
  have filled : ∀ node ∈ forest'.preorder, ∀ aggregate, node.role = .assignment aggregate →
      Text.trim node.keyText ≠ [] := by
    intro node mem aggregate role
    obtain ⟨before, after, split⟩ := List.append_of_mem mem
    obtain ⟨_, _, plain, _, decided, same⟩ := decision_of_classify ok split
    rw [role] at decided
    rw [same]
    exact decided.filled
  obtain rfl := (classified_of_siblings ok).decision_at.1
  rw [SymbolTable.isKnown_declareAll_iff]
  refine or_congr_right (exists_congr fun node => and_congr_right fun mem => ?_)
  exact (Node.binds_or_strays_iff (filled node mem)).symm

/-- Names of all kinds, and a subscript with a comma in it. -/
theorem Forest.classify_isKnown_iff_mixed :
    let forest := Forest.ofLevels (Nest.placed [.code 0 "packages:".toList 1,
      .code 1 "- numpy as np".toList 2, .code 0 "function area define r:".toList 3,
      .code 1 "return: r * r".toList 4, .code 0 "for i, j in pairs:".toList 5,
      .code 1 "grid[i, k].cell, total: 0".toList 6])
    ∃ forest' table, forest.classify = .ok (forest', table) ∧
      (["np", "area", "r", "i", "j", "grid", "total", "k", "len"].map String.toList).all
        table.isKnown = true ∧
      (["numpy", "pairs", "cell", "n"].map String.toList).any table.isKnown = false ∧
      ∀ name, table.isKnown name = true ↔
        isBuiltin name = true ∨ ∃ node ∈ forest'.preorder, node.Binds name ∨ node.Strays name := by
  intro forest
  have given : (forest.classify.toOption.map fun result =>
      ((["np", "area", "r", "i", "j", "grid", "total", "k", "len"].map String.toList).all
          result.2.isKnown,
        (["numpy", "pairs", "cell", "n"].map String.toList).any result.2.isKnown)) =
      some (true, false) := by
    decide +kernel
  obtain ⟨⟨forest', table⟩, found, same⟩ := Option.map_eq_some_iff.mp given
  have ok := eq_ok_of_toOption found
  obtain ⟨known, unknown⟩ := Prod.mk.inj same
  exact ⟨forest', table, ok, known, unknown, Forest.classify_isKnown_iff ok⟩

/-- The name behind a comma inside a subscript is known although nothing binds it. -/
theorem Forest.classify_isKnown_subscript :
    let forest := Forest.ofLevels (Nest.placed [.code 0 "a[0, b]: 1".toList 1])
    ∃ forest' table, forest.classify = .ok (forest', table) ∧ table.isKnown "b".toList = true ∧
      ¬ (isBuiltin "b".toList = true ∨ ∃ node ∈ forest'.preorder, node.Binds "b".toList) := by
  intro forest
  have given : (forest.classify.toOption.map fun result =>
      (result.1.preorder, result.2.isKnown "b".toList)) =
      some ([⟨.assignment .scalar, .keyed, some "a[0, b]".toList, some "1".toList, 1⟩], true) := by
    decide +kernel
  obtain ⟨⟨forest', table⟩, found, same⟩ := Option.map_eq_some_iff.mp given
  obtain ⟨nodes, known⟩ := Prod.mk.inj same
  have places : Text.splitCommas "a[0, b]".toList = ["a[0, b]".toList] := by decide +kernel
  refine ⟨forest', table, eq_ok_of_toOption found, known, ?_⟩
  rw [show forest'.preorder = _ from nodes]
  rintro (builtin | ⟨node, mem, binds⟩)
  · revert builtin
    decide +kernel
  · obtain rfl := List.mem_singleton.mp mem
    cases binds with
    | place aggregate place role mem root =>
      change place ∈ Text.splitCommas "a[0, b]".toList at mem
      rw [places, List.mem_singleton] at mem
      rw [mem] at root
      revert root
      decide +kernel
    | function param role => cases role
    | parameter function role => cases role
    | imported path role => cases role
    | target targets iterable role => cases role
    | rangeTarget targets range role => cases role

end Outline
