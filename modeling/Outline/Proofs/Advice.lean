import Outline.Header.Edition
import Outline.Proofs.Modules
import Outline.Proofs.Prefix
import Outline.Proofs.Reindent
import Outline.Proofs.Roots
import Outline.Proofs.Scope

/-!
# The advice of a warning is sound

A warning says that a name is used like a module and advises to import it. Following the advice puts
a list of imports in front of the source, one entry for each name that is reported. The rows of the
source move down, which changes line numbers only, and the lines before them make one tree more. The
names are unknown to the document, so it means what it meant without the imports
(`Classify.siblings_withModules`), and its code stands behind theirs. `diagnose_advised` says that
no warning is left.
-/

set_option autoImplicit false

namespace Outline

/-- Rows as a text, each ended by a line feed. -/
def Text.unlines (rows : List Text) : Text := rows.flatMap fun row => row ++ ['\n']

/-- The names that diagnostics are about. -/
def Diagnostics.subjects (diagnostics : Diagnostics) : List Text :=
  diagnostics.filterMap Diagnostic.subject

/-- The rows that import modules. -/
def importRows (unit : Text) (names : List Text) : List Text :=
  "packages:".toList :: names.map fun name => unit ++ ("- ".toList ++ name)

/-! ## The entry of a module -/

section

variable {name : Text} (identifier : Text.isIdentifier name = true)

include identifier

namespace Text

/-- An identifier has characters of words only. -/
theorem not_mem_of_isIdentifier {c : Char} (other : isWordChar c = false) : c ∉ name := by
  intro mem
  rw [isWordChar_of_mem_identifier identifier c mem] at other
  cases other

theorem ne_nil_of_isIdentifier : name ≠ [] := by
  rintro rfl
  cases identifier

theorem trimmed_of_isIdentifier : Trimmed name := by
  have ink {c : Char} (mem : c ∈ name) : isBlank c = false := by
    by_contra blank
    exact not_mem_of_isIdentifier identifier
      (isWordChar_eq_false_of_isBlank (by simpa using blank)) mem
  constructor
  · intro c head
    exact ink (List.mem_of_mem_head? head)
  · intro c last
    exact ink (List.mem_of_getLast? last)

/-- A text that starts with ink and ends with an identifier is trimmed. -/
theorem trimmed_append_of_isIdentifier {lead : Text} (filled : lead ≠ [])
    (front : ∀ c ∈ lead.head?, isBlank c = false) : Trimmed (lead ++ name) := by
  constructor
  · intro c head
    rw [List.head?_append_of_ne_nil _ filled] at head
    exact front c head
  · intro c last
    rw [List.getLast?_append_of_ne_nil _ (ne_nil_of_isIdentifier identifier)] at last
    exact (trimmed_of_isIdentifier identifier).back c last

/-- An identifier is a path of one part. -/
theorem isDottedPath_of_isIdentifier : isDottedPath name = true := by
  have undotted : '.' ∉ name := not_mem_of_isIdentifier identifier (by decide)
  rw [isDottedPath, List.splitOn_eq_singleton undotted, List.all_cons, identifier]
  rfl

theorem cutAtLastDot?_of_isIdentifier : cutAtLastDot? name = none := by
  have undotted : '.' ∉ name := not_mem_of_isIdentifier identifier (by decide)
  cases cut : cutAtLastDot? name with
  | none => rfl
  | some parts =>
    refine absurd ?_ undotted
    rw [eq_append_of_cutAtLastDot cut]
    simp

/-- A keyword is found in an identifier only if it is the whole of it. -/
theorem cutAtKeyword?_of_isIdentifier {keyword : Text} (differ : name ≠ keyword) :
    cutAtKeyword? keyword name = none := by
  cases cut : cutAtKeyword? keyword name with
  | none => rfl
  | some parts =>
    obtain ⟨before, after⟩ := parts
    have whole : name = before ++ (keyword ++ after) := eq_append_of_cutAtOccurrenceFrom cut
    have word := isWordChar_of_mem_identifier identifier
    have bounded := accept_of_cutAtOccurrenceFrom cut
    rw [Bool.and_eq_true, Bool.and_eq_true] at bounded
    have empty {part : Text} (inName : ∀ c ∈ part, c ∈ name)
        (boundary : isWordBoundary part = true) : part = [] := by
      cases part with
      | nil => rfl
      | cons c rest => simp [isWordBoundary, word c (inName c List.mem_cons_self)] at boundary
    have noBefore : before = [] := by
      refine List.reverse_eq_nil_iff.mp (empty ?_ bounded.1.1)
      intro c mem
      rw [whole]
      exact List.mem_append_left _ (List.mem_reverse.mp mem)
    have noAfter : after = [] := by
      refine empty ?_ bounded.1.2
      intro c mem
      rw [whole]
      exact List.mem_append_right _ (List.mem_append_right _ mem)
    rw [noBefore, noAfter, List.append_nil, List.nil_append] at whole
    exact absurd whole differ

end Text

/-- A name that is not the word before a nickname is imported as a module. -/
theorem Classify.importPath?_of_isIdentifier (plain : name ≠ "as".toList) :
    importPath? name = some ⟨name, none, none⟩ := by
  have split : splitNickname name = (name, none) := by
    rw [splitNickname, Text.cutAtKeyword?_of_isIdentifier identifier plain]
  rw [importPath?, split]
  simp [Text.isDottedPath_of_isIdentifier identifier, Text.cutAtLastDot?_of_isIdentifier identifier]

end

/-! ## The lines of the imports -/

/-- The line that starts a list of imports, and a line for each module. -/
def importLines (names : List Text) : List Line :=
  .code 0 "packages:".toList 0 :: names.map fun name => .code 1 ("- ".toList ++ name) 0

/-- The node of a list of imports. -/
def Node.packages : Node := ⟨.unclassified, .keyed, some "packages".toList, none, 0⟩

/-- The node of an entry that imports a module. -/
def Node.ofModule (name : Text) : Node := ⟨.unclassified, .item, none, some name, 0⟩

/-- A text without the mark of a comment has no comment. -/
theorem Text.dropComment_of_not_mem {s : Text} (unmarked : commentMark ∉ s) :
    dropComment s = s := by
  have kept (quoting : Quoting) : dropCommentFrom quoting s = s := by
    induction s generalizing quoting with
    | nil => rfl
    | cons c rest ih =>
      rw [List.mem_cons, not_or] at unmarked
      rw [dropCommentFrom, if_neg fun mark => unmarked.1 mark.2.symm, ih unmarked.2]
  exact kept .outside

section

variable {name : Text} (identifier : Text.isIdentifier name = true)

include identifier

theorem trimmed_importEntry : Text.Trimmed ("- ".toList ++ name) := by
  refine Text.trimmed_append_of_isIdentifier identifier (by decide) ?_
  rintro c ⟨⟩
  decide

theorem dropComment_importEntry : Text.dropComment ("- ".toList ++ name) = "- ".toList ++ name := by
  refine Text.dropComment_of_not_mem ?_
  have unmarked := Text.not_mem_of_isIdentifier identifier
    (show Text.isWordChar commentMark = false by decide)
  simp only [List.mem_append, unmarked, or_false]
  decide

/-- What is written for an entry is read as the entry. -/
theorem ofLine_importEntry (depth : Nat) :
    Node.ofLine (.code depth ("- ".toList ++ name) 0) = Node.ofModule name := by
  have trimmed := Text.trimmed_of_isIdentifier identifier
  have uncut : Text.cutAt? ':' name = none := by
    cases cut : Text.cutAt? ':' name with
    | none => rfl
    | some parts =>
      refine absurd ?_ (Text.not_mem_of_isIdentifier identifier
        (show Text.isWordChar ':' = false by decide))
      rw [Text.eq_append_of_cutAt cut]
      simp
  have item : Node.splitItem name = (none, some name) := by
    rw [Node.splitItem, uncut,
      Text.nonBlank?_of_trimmed trimmed (Text.ne_nil_of_isIdentifier identifier)]
  show (⟨.unclassified, .item, (Node.splitItem (Text.trim name)).1,
    (Node.splitItem (Text.trim name)).2, 0⟩ : Node) = _
  rw [Text.trim_eq_self trimmed, item]
  rfl

/-- An entry that imports a module, indented once, is a row of its line. -/
theorem writtenAs_importEntry {unit : Text} (isUnit : Text.isIndentUnit unit = true)
    (number : Nat) :
    Line.WrittenAs unit (.code 1 ("- ".toList ++ name) 0)
      (Row.ofText number (unit ++ ("- ".toList ++ name))) := by
  have trimmed := trimmed_importEntry identifier
  have blank : ∀ c ∈ unit, Text.isBlank c = true := by
    obtain ⟨c, width, kind, _, rfl⟩ := Text.isIndentUnit_iff.mp isUnit
    intro d mem
    obtain rfl := List.eq_of_mem_replicate mem
    rcases kind with rfl | rfl <;> decide
  rw [Row.ofText_append blank trimmed.front, Text.trimEnd_eq_self trimmed.back]
  refine .code rfl (Indent.ofDepth_one unit).symm (List.cons_ne_nil _ _)
    (Row.comment?_eq_none_iff.mpr (show some '-' ≠ some commentMark by decide)) ?_
  exact Node.respelled_refl trimmed (dropComment_importEntry identifier) _

end

section

variable {unit : Text} {names : List Text} (isUnit : Text.isIndentUnit unit = true)
  (named : ∀ name ∈ names, Text.isIdentifier name = true)

include isUnit named

/-- The rows that import modules are those of the lines that do. -/
theorem writtenAs_importRows :
    List.Forall₂ (Line.WrittenAs unit) (importLines names)
      (Row.after 0 (importRows unit names)) := by
  have entries (count : Nat) : List.Forall₂ (Line.WrittenAs unit)
      (names.map fun name => .code 1 ("- ".toList ++ name) 0)
      (Row.after count (names.map fun name => unit ++ ("- ".toList ++ name))) := by
    induction names generalizing count with
    | nil => exact .nil
    | cons name names ih =>
      rw [List.forall_mem_cons] at named
      exact .cons (writtenAs_importEntry named.1 isUnit (count + 1)) (ih named.2 (count + 1))
  refine .cons (.code rfl rfl (List.cons_ne_nil _ _) (by decide) ?_) (entries 1)
  refine Node.respelled_refl ?_ (by decide) _
  constructor <;>
  · rintro c ⟨⟩
    decide

/-- The rows that import modules are read back as they were written. -/
theorem lines_importRows :
    Text.lines (Text.unlines (importRows unit names)) = importRows unit names := by
  refine Text.lines_flatMap ?_
  intro row mem
  rcases List.mem_cons.mp mem with rfl | entry
  · decide
  · obtain ⟨name, inNames, rfl⟩ := List.mem_map.mp entry
    have identifier := named name inNames
    constructor
    · have feed := Text.not_mem_of_isIdentifier identifier
        (show Text.isWordChar '\n' = false by decide)
      simp only [List.mem_append, Text.not_mem_of_isIndentUnit isUnit, feed, or_false, false_or]
      decide
    · intro last
      have filled : "- ".toList ++ name ≠ [] := List.cons_ne_nil _ _
      rw [List.getLast?_append_of_ne_nil _ filled] at last
      exact absurd ((trimmed_importEntry identifier).back _ last) (by decide)

end

/-! ## Rows that move down -/

namespace Row

/-- A source that does not start with a byte order mark is cut into its lines. -/
theorem ofSource_of_head? {source : Text} (unmarked : source.head? ≠ some '\ufeff') :
    ofSource source = after 0 (Text.lines source) := by
  unfold ofSource
  split
  next rest => exact absurd rfl unmarked
  next => rfl

end Row

namespace Line

variable {keep : Bool} {unit : Option Text}

/-- A row makes lines that say the same wherever it stands. -/
theorem ofRow_renumber {text : Text} {number : Nat} {made : List Line}
    (ok : ofRow keep unit (Row.ofText number text) = .ok made) (other : Nat) :
    ∃ others, ofRow keep unit (Row.ofText other text) = .ok others ∧
      List.Forall₂ Alike made others := by
  have sameBody : (Row.ofText other text).body = (Row.ofText number text).body := rfl
  have sameIndent : (Row.ofText other text).indent = (Row.ofText number text).indent := rfl
  have sameComment : (Row.ofText other text).comment? = (Row.ofText number text).comment? := rfl
  rw [ofRow] at ok ⊢
  rw [sameBody, sameIndent, sameComment]
  split at ok
  next empty =>
    obtain rfl := Except.ok.inj ok
    exact ⟨[], if_pos empty, .nil⟩
  next filled =>
    rw [if_neg filled]
    split at ok
    next comment found =>
      obtain rfl := Except.ok.inj ok
      refine ⟨_, rfl, ?_⟩
      split
      · exact .cons ⟨rfl, fun code => LineKind.noConfusion code, rfl⟩ .nil
      · exact .nil
    next plain =>
      split at ok
      next => cases ok
      next depth measured =>
        obtain rfl := Except.ok.inj ok
        exact ⟨_, rfl, .cons ⟨rfl, fun _ => rfl, rfl⟩ .nil⟩

/-- Rows are read alike wherever in a source they stand. -/
theorem ofRows_renumber {texts : List Text} {count : Nat} {lines : List Line}
    (ok : ofRows keep unit (Row.after count texts) = .ok lines) (other : Nat) :
    ∃ others, ofRows keep unit (Row.after other texts) = .ok others ∧
      List.Forall₂ Alike lines others := by
  induction texts generalizing count other lines with
  | nil =>
    obtain rfl := Except.ok.inj ok
    exact ⟨[], rfl, .nil⟩
  | cons text texts ih =>
    rw [Row.after_cons] at ok ⊢
    obtain ⟨own, made, ok⟩ := bind_eq_ok.mp ok
    obtain ⟨later, rest, ok⟩ := bind_eq_ok.mp ok
    obtain rfl := Except.ok.inj ok
    obtain ⟨own', made', alike⟩ := ofRow_renumber made (other + 1)
    obtain ⟨later', rest', allAlike⟩ := ih rest (other + 1)
    exact ⟨own' ++ later', bind_eq_ok.mpr ⟨own', made', bind_eq_ok.mpr ⟨later', rest', rfl⟩⟩,
      List.rel_append alike allAlike⟩

/-- Rows that can be read on their own can be read one after the other. -/
theorem ofRows_append_eq_ok {rows more : List Row} {front back : List Line}
    (first : ofRows keep unit rows = .ok front) (second : ofRows keep unit more = .ok back) :
    ofRows keep unit (rows ++ more) = .ok (front ++ back) := by
  induction rows generalizing front with
  | nil =>
    obtain rfl := Except.ok.inj first
    exact second
  | cons row rows ih =>
    obtain ⟨own, made, ok⟩ := bind_eq_ok.mp first
    obtain ⟨later, rest, ok⟩ := bind_eq_ok.mp ok
    obtain rfl := Except.ok.inj ok
    rw [List.append_assoc]
    exact bind_eq_ok.mpr ⟨own, made, bind_eq_ok.mpr ⟨later ++ back, ih rest, rfl⟩⟩

end Line

theorem Text.ended_unlines {rows : List Text} : Ended (unlines rows) := by
  rcases List.eq_nil_or_concat rows with rfl | ⟨front, last, rfl⟩
  · exact .inl rfl
  · right
    simp [unlines]

/-- The lines of the imports and of a source are scanned one after the other. -/
theorem Line.scan_advised {config : Config} {unit source : Text} {names : List Text}
    {lines : List Line} (given : config.sourceIndentationUnit = some unit)
    (named : ∀ name ∈ names, Text.isIdentifier name = true)
    (unmarked : source.head? ≠ some '\ufeff') (scanned : scan config source = .ok lines) :
    ∃ others, scan config (Text.unlines (importRows unit names) ++ source) = .ok others ∧
      List.Forall₂ Alike (importLines names ++ lines) others := by
  have unitOf (rows : List Row) : Indent.unitOf config rows = .ok (some unit) := by
    rw [Indent.unitOf, given]
  obtain ⟨valid, found, known, made⟩ := scan_eq_ok_iff.mp scanned
  obtain rfl := Except.ok.inj ((unitOf _).symm.trans known)
  have isUnit := Config.isIndentUnit_of_given given valid
  have measured : ∀ line ∈ importLines names, line.kind = .code →
      Indent.depth (some unit) (Indent.ofDepth unit line.depth) = .ok line.depth := by
    intro line _ _
    exact Indent.depth_ofDepth isUnit line.depth
  have kept : ∀ line ∈ importLines names, line.kind = .comment → config.keepComments = true := by
    intro line mem comment
    rcases List.mem_cons.mp mem with rfl | entry
    · cases comment
    · obtain ⟨name, _, rfl⟩ := List.mem_map.mp entry
      cases comment
  obtain ⟨front, first, alikeFront⟩ :=
    exists_ofRows (writtenAs_importRows isUnit named) measured kept
  have head : (Text.unlines (importRows unit names)).head? = some 'p' := rfl
  have rows : Row.ofSource (Text.unlines (importRows unit names)) =
      Row.after 0 (importRows unit names) := by
    rw [Row.ofSource_of_head? (by rw [head]; decide), lines_importRows isUnit named]
  have filled : Text.unlines (importRows unit names) ≠ [] := List.cons_ne_nil _ _
  rw [Row.ofSource_of_head? unmarked] at made
  obtain ⟨back, second, alikeBack⟩ :=
    ofRows_renumber made (Row.ofSource (Text.unlines (importRows unit names))).length
  refine ⟨front ++ back, scan_eq_ok_iff.mpr ⟨valid, some unit, unitOf _, ?_⟩,
    List.rel_append alikeFront alikeBack⟩
  rw [Row.ofSource_append filled Text.ended_unlines]
  refine ofRows_append_eq_ok ?_ second
  rw [rows]
  exact first

/-! ## One tree more -/

namespace Nest

/-- Lines that keep the rule of depths on their own keep it below any line. -/
theorem ruleAfter_some_of_rule {code : List Line} (rule : DepthRule code) (above : Line) :
    RuleAfter (some above) code := by
  cases code with
  | nil => exact ruleAfter_nil _
  | cons line code =>
    have follows : line.depth ≤ above.depth + 1 := by
      rw [rule.first line rfl]
      exact Nat.zero_le _
    have ruled : RuleAfter none (line :: code) := rule
    exact ruleAfter_cons.mpr ⟨follows, (ruleAfter_cons.mp ruled).2⟩

/-- Lines keep the rule of depths also below a list of imports. -/
theorem depthRule_advised {names : List Text} {lines : List Line}
    (rule : DepthRule (codeLines lines)) : DepthRule (codeLines (importLines names ++ lines)) := by
  have entries (above : Line) : RuleAfter (some above)
      (codeLines ((names.map fun name => .code 1 ("- ".toList ++ name) 0) ++ lines)) := by
    induction names generalizing above with
    | nil => exact ruleAfter_some_of_rule rule above
    | cons name names ih =>
      rw [List.map_cons, List.cons_append, codeLines_cons_code rfl, ruleAfter_cons]
      exact ⟨Nat.le_add_left 1 above.depth, ih _⟩
  have whole : RuleAfter none (codeLines (importLines names ++ lines)) := by
    rw [importLines, List.cons_append, codeLines_cons_code rfl, ruleAfter_cons]
    exact ⟨rfl, entries _⟩
  exact whole

/-- The first line of code, if there is one, is not indented. -/
theorem nextDepth_of_rule {lines : List Line} (rule : DepthRule (codeLines lines)) :
    nextDepth lines = 0 := by
  rw [nextDepth_eq]
  cases first : (codeLines lines).head? with
  | none => rfl
  | some line => exact rule.first line first

/-- A list of imports makes a node for the list and one below it for each module. -/
theorem placed_importLines {names : List Text}
    (named : ∀ name ∈ names, Text.isIdentifier name = true) :
    placed (importLines names) =
      (0, Node.packages) :: names.map fun name => (1, Node.ofModule name) := by
  have entries : placed (names.map fun name => .code 1 ("- ".toList ++ name) 0) =
      names.map fun name => (1, Node.ofModule name) := by
    induction names with
    | nil => rfl
    | cons name names ih =>
      rw [List.forall_mem_cons] at named
      rw [List.map_cons, List.map_cons, placed, ih named.2, ofLine_importEntry named.1]
      rfl
  rw [importLines, placed, entries]
  rfl

end Nest

namespace Forest

/-- Labels that are all of one depth make a forest of leaves. -/
theorem ofLevels_flat {α β : Type} (depth : Nat) (label : α → β) (labels : List α) :
    ofLevels (labels.map fun a => (depth, label a)) = flat (labels.map label) := by
  rw [← ofLevels_levels depth (flat (labels.map label)), levels_flat, List.map_map]
  rfl

/-- The imports make one tree in front of the trees of the source. -/
theorem ofLines_advised {names : List Text} {lines : List Line} {forest : Forest Node}
    (named : ∀ name ∈ names, Text.isIdentifier name = true)
    (nested : ofLines lines = .ok forest) :
    ofLines (importLines names ++ lines) =
      .ok (.cons Node.packages (flat (names.map Node.ofModule)) forest) := by
  obtain ⟨rule, rfl⟩ := Nest.ofLines_eq_ok_iff.mp nested
  refine Nest.ofLines_eq_ok_iff.mpr ⟨Nest.depthRule_advised rule, ?_⟩
  have top := Nest.nextDepth_of_rule rule
  have tree : ofLevels (Nest.placed (importLines names)) =
      .cons Node.packages (flat (names.map Node.ofModule)) .nil := by
    have deeper :
        ((names.map fun name => (1, Node.ofModule name)).takeWhile fun next => 0 < next.1) =
            (names.map fun name => (1, Node.ofModule name)) ∧
          ((names.map fun name => (1, Node.ofModule name)).dropWhile fun next => 0 < next.1) =
            [] := by
      clear named
      induction names with
      | nil => exact ⟨rfl, rfl⟩
      | cons name names ih => simp [ih]
    rw [Nest.placed_importLines named, ofLevels, deeper.1, deeper.2, ofLevels_flat, ofLevels]
  rw [Nest.placed_append top, ofLevels_append, tree]
  · rfl
  · intro label head
    cases lines with
    | nil => cases head
    | cons line lines =>
      obtain rfl := Option.some.inj head
      exact top

end Forest

/-! ## Roles and statements of the imports -/

/-- The node of an entry that imports a module, with its role. -/
def Node.imported (name : Text) : Node :=
  { Node.ofModule name with role := .importEntry ⟨name, none, none⟩ }

namespace Classify

/-- An entry that names a module imports it, unless its name is `as`. -/
theorem role_ofModule [Letters] {name : Text} (identifier : Text.isIdentifier name = true)
    (plain : name ≠ "as".toList) (table : SymbolTable) (previous : Option Role) :
    Classify.role table .imports previous (Node.ofModule name) [] =
      .ok (.importEntry ⟨name, none, none⟩) := by
  have entry : importEntry (Node.ofModule name) = .ok (.importEntry ⟨name, none, none⟩) := by
    simp only [importEntry, Node.ofModule, importPath?_of_isIdentifier identifier plain]
  show (report 0 (importEntry (Node.ofModule name)) >>= _) = _
  rw [entry]
  rfl

/-- Each entry makes its module known. -/
theorem siblings_ofModules [Letters] {names : List Text}
    (named : ∀ name ∈ names, Text.isIdentifier name = true) (plain : "as".toList ∉ names)
    (previous : Option Role) (table : SymbolTable) :
    siblings .imports previous table (.flat (names.map Node.ofModule)) =
      .ok (.flat (names.map Node.imported),
        { table with
          imports :=
            (names.reverse.map fun name => (name, ImportKind.module)) ++ table.imports }) := by
  induction names generalizing previous table with
  | nil => rfl
  | cons name names ih =>
    rw [List.forall_mem_cons] at named
    rw [List.mem_cons, not_or] at plain
    have given := role_ofModule named.1 (Ne.symm plain.1) table previous
    have rest := ih named.2 plain.2 (some (.importEntry ⟨name, none, none⟩))
      (table.defineImport ⟨name, none, none⟩)
    rw [List.map_cons, List.map_cons, Forest.flat, Forest.flat, siblings]
    refine bind_eq_ok.mpr ⟨_, given, bind_eq_ok.mpr ⟨_, rfl, bind_eq_ok.mpr ⟨_, rest, ?_⟩⟩⟩
    rw [List.reverse_cons, List.map_append, List.append_assoc]
    rfl

/-- The node of a list of imports is classified as one if it has children. -/
theorem role_packages [Letters] {shapes : List Shape} (filled : shapes ≠ []) (table : SymbolTable)
    (previous : Option Role) :
    Classify.role table .block previous Node.packages shapes = .ok .importList := by
  have noHeader : Header.keyword? Node.packages.keyText = none := by decide
  have key : Node.packages.keyText = "packages".toList := rfl
  have decided : keyedStatement table previous Node.packages shapes = .ok .importList := by
    unfold keyedStatement
    rw [noHeader, key]
    dsimp only
    rw [if_neg (by decide), if_neg (by decide), if_pos rfl]
    simp [Node.packages, filled]
  show (keyedStatement table previous Node.packages shapes >>= _) = _
  rw [decided]
  rfl

/-- The imports make their names known, and the document behind them is given the roles that it has
without them. -/
theorem classify_advised [Letters] {names : List Text} {forest forest' : Forest Node}
    {table : SymbolTable}
    (named : ∀ name ∈ names, Text.isIdentifier name = true) (plain : "as".toList ∉ names)
    (filled : names ≠ []) (fresh : ∀ name ∈ names, table.isKnown name = false)
    (ok : forest.classify = .ok (forest', table)) :
    (Forest.cons Node.packages (.flat (names.map Node.ofModule)) forest).classify =
      .ok (.cons { Node.packages with role := .importList } (.flat (names.map Node.imported))
        forest', table.withModules names.reverse) := by
  have shapes : (Forest.flat (names.map Node.ofModule)).codeRoots.map Node.shape ≠ [] := by
    cases names with
    | nil => exact absurd rfl filled
    | cons name names => exact List.cons_ne_nil _ _
  have same : isCondition (some .importList) = isCondition none := rfl
  have document : siblings .block (some .importList) (({} : SymbolTable).withModules names.reverse)
      forest = .ok (forest', table.withModules names.reverse) :=
    siblings_withModules (by simpa using named) same (by simpa using fresh) ok
  have entries := siblings_ofModules named plain none {}
  rw [List.append_nil] at entries
  rw [Forest.classify, siblings]
  exact bind_eq_ok.mpr ⟨_, role_packages shapes {} none,
    bind_eq_ok.mpr ⟨_, entries, bind_eq_ok.mpr ⟨_, document, rfl⟩⟩⟩

end Classify

namespace Program

/-- The statement that imports a module. -/
def moduleStatement (name : Text) : Statement := ⟨"import ".toList ++ name, .plain⟩

/-- Entries that import modules make a statement each. -/
theorem statementsOf_imported [Letters] (names : List Text) :
    statementsOf (.flat (names.map Node.imported)) =
      .ok (.flat (names.map moduleStatement), []) := by
  induction names with
  | nil => rfl
  | cons name names ih =>
    have text : importStatement ⟨name, none, none⟩ = "import ".toList ++ name := List.append_nil _
    have own : output (Node.imported name) .nil = .ok (.line ("import ".toList ++ name), []) := by
      rw [← text]
      rfl
    rw [List.map_cons, List.map_cons, Forest.flat, Forest.flat, statementsOf]
    exact bind_eq_ok.mpr ⟨_, own, bind_eq_ok.mpr ⟨_, ih, rfl⟩⟩

/-- The statements of the imports come first, and take no members. -/
theorem statementsOf_advised [Letters] {names : List Text} {forest : Forest Node}
    {statements : Forest Statement} {roots : List MemberRoot}
    (ok : statementsOf forest = .ok (statements, roots)) :
    statementsOf (.cons { Node.packages with role := .importList }
        (.flat (names.map Node.imported)) forest) =
      .ok ((Forest.flat (names.map moduleStatement)).append statements, roots) := by
  rw [statementsOf]
  exact bind_eq_ok.mpr ⟨(.children, []), rfl, bind_eq_ok.mpr ⟨_, statementsOf_imported names,
    bind_eq_ok.mpr ⟨_, ok, rfl⟩⟩⟩

end Program

/-! ## Code below other code -/

namespace Buffer

/-- The lines with others before them. -/
def above (buffer : Buffer) (older : List CodeLine) : Buffer := ⟨buffer.newestFirst ++ older⟩

section

variable {older : List CodeLine} (ends : ∀ line ∈ older.head?, line.text ≠ ['}'])

include ends

/-- Whether the last line closes a block does not depend on lines further up. -/
theorem popIfLast?_above (buffer : Buffer) (depth : Nat) :
    (buffer.above older).popIfLast? depth ['}'] =
      (buffer.popIfLast? depth ['}']).map fun shorter => shorter.above older := by
  obtain ⟨newestFirst⟩ := buffer
  cases newestFirst with
  | nil =>
    cases older with
    | nil => rfl
    | cons line older =>
      have other : line ≠ ⟨depth, ['}']⟩ := by
        rintro rfl
        exact ends _ rfl rfl
      exact if_neg other
  | cons line rest =>
    rw [above, popIfLast?, popIfLast?]
    dsimp only [List.cons_append]
    split <;> rfl

/-- A block is opened in the same way below other lines. -/
theorem openBlock_above (style : BlockStyle) (depth : Nat) (statement : Statement)
    (buffer : Buffer) :
    (buffer.above older).openBlock style depth statement =
      (buffer.openBlock style depth statement).above older := by
  cases style with
  | colonIndent => cases form : statement.form <;> simp only [openBlock, form] <;> rfl
  | brace =>
    cases form : statement.form with
    | plain | header => simp only [openBlock, form]; rfl
    | continuation =>
      simp only [openBlock, form, BlockStyle.closing?, popIfLast?_above ends]
      cases buffer.popIfLast? depth ['}'] <;> rfl

/-- Statements are laid out alike below other lines, unless these end with a closing brace. -/
theorem layout_above (style : BlockStyle) (depth : Nat) (statements : Forest Statement)
    (buffer : Buffer) :
    layout style depth statements (buffer.above older) =
      (layout style depth statements buffer).above older := by
  induction statements generalizing depth buffer with
  | nil => rfl
  | cons statement body rest ihBody ihRest =>
    have closed (inner : Buffer) :
        (inner.above older).closeBlock style depth =
          (inner.closeBlock style depth).above older := by
      cases style <;> rfl
    rw [layout, layout]
    cases form : statement.form with
    | plain => exact ihRest depth (buffer.push depth statement.text)
    | header | continuation =>
      dsimp only
      rw [openBlock_above ends, ihBody, closed, ihRest]

end

/-- Import statements are laid out as lines without indentation, and the statements after them
follow. -/
theorem layout_modules (style : BlockStyle) (names : List Text) (statements : Forest Statement)
    (buffer : Buffer) :
    layout style 0 ((Forest.flat (names.map Program.moduleStatement)).append statements) buffer =
      layout style 0 statements
        ⟨names.reverse.map (fun name => ⟨0, "import ".toList ++ name⟩) ++ buffer.newestFirst⟩ := by
  induction names generalizing buffer with
  | nil => rfl
  | cons name names ih =>
    rw [List.map_cons, Forest.flat, Forest.append, layout]
    show layout style 0 _ (buffer.push 0 ("import ".toList ++ name)) = _
    rw [ih, List.reverse_cons, List.map_append, List.append_assoc]
    rfl

end Buffer

/-- The code of a program with more imports is the code of the program below these imports. -/
theorem Program.code_advised (config : Config) (names : List Text) (statements : Forest Statement)
    (roots others : List MemberRoot) :
    Program.code ⟨(Forest.flat (names.map moduleStatement)).append statements, roots⟩ config =
      Text.unlines (names.map fun name => "import ".toList ++ name) ++
        Program.code ⟨statements, others⟩ config := by
  let older : List CodeLine := names.reverse.map fun name => ⟨0, "import ".toList ++ name⟩
  have ends : ∀ line ∈ older.head?, line.text ≠ ['}'] := by
    intro line head
    obtain ⟨name, _, rfl⟩ := List.mem_map.mp (List.mem_of_mem_head? head)
    exact fun same => absurd (List.cons.inj same).1 (by decide)
  have laidOut := Buffer.layout_modules config.blockStyle names statements {}
  rw [show (({} : Buffer).newestFirst) = [] from rfl, List.append_nil] at laidOut
  have below := Buffer.layout_above ends config.blockStyle 0 statements {}
  rw [Program.code, Program.code, laidOut]
  show (Buffer.layout _ 0 statements (({} : Buffer).above older)).render _ = _
  have front : older.reverse.flatMap (Buffer.renderLine config.indentationUnit) =
      Text.unlines (names.map fun name => "import ".toList ++ name) := by
    simp only [older, List.map_reverse, List.reverse_reverse, List.flatMap_map, Text.unlines]
    rfl
  rw [below, Buffer.render, Buffer.toList, Buffer.above, List.reverse_append, List.flatMap_append,
    front]
  rfl

/-! ## Warnings -/

section

variable {table : SymbolTable} {roots : List MemberRoot}

/-- The diagnostics are about the names that are not resolved, in order. -/
theorem subjects_unresolvedModules (file : Option String) (source : Text) :
    (unresolvedModules file source roots table).subjects =
      (unresolvedFrom table [] roots).map MemberRoot.name := by
  rw [unresolvedModules, Diagnostics.subjects, List.filterMap_map]
  exact congrFun List.filterMap_eq_map _

/-- What is reported is a root that nothing binds. -/
theorem mem_unresolvedFrom {seen : List Text} {root : MemberRoot}
    (mem : root ∈ unresolvedFrom table seen roots) :
    root ∈ roots ∧ table.isKnown root.name = false := by
  induction roots generalizing seen with
  | nil => cases mem
  | cons first roots ih =>
    rw [unresolvedFrom] at mem
    split at mem
    next =>
      obtain ⟨inRoots, unknown⟩ := ih mem
      exact ⟨List.mem_cons_of_mem _ inRoots, unknown⟩
    next unbound =>
      rcases List.mem_cons.mp mem with rfl | later
      · rw [Bool.or_eq_true, not_or, Bool.not_eq_true] at unbound
        exact ⟨List.mem_cons_self, unbound.1⟩
      · obtain ⟨inRoots, unknown⟩ := ih later
        exact ⟨List.mem_cons_of_mem _ inRoots, unknown⟩

/-- A root is bound, or its name has been reported before, or it is reported. -/
theorem isKnown_or_reported {seen : List Text} {root : MemberRoot} (mem : root ∈ roots) :
    table.isKnown root.name = true ∨ root.name ∈ seen ∨
      root.name ∈ (unresolvedFrom table seen roots).map MemberRoot.name := by
  induction roots generalizing seen with
  | nil => cases mem
  | cons first roots ih =>
    rw [unresolvedFrom]
    split
    next bound =>
      rcases List.mem_cons.mp mem with rfl | later
      · rw [Bool.or_eq_true, List.contains_iff_mem] at bound
        exact bound.imp_right .inl
      · exact ih later
    next =>
      rcases List.mem_cons.mp mem with rfl | later
      · exact .inr (.inr List.mem_cons_self)
      · rcases @ih (first.name :: seen) later with known | inSeen | reported
        · exact .inl known
        · rcases List.mem_cons.mp inSeen with same | older
          · refine .inr (.inr ?_)
            rw [same, List.map_cons]
            exact List.mem_cons_self
          · exact .inr (.inl older)
        · exact .inr (.inr (List.mem_cons_of_mem _ reported))

/-- Nothing is unresolved if all names are known. -/
theorem unresolvedFrom_eq_nil {seen : List Text}
    (known : ∀ root ∈ roots, table.isKnown root.name = true) :
    unresolvedFrom table seen roots = [] := by
  induction roots with
  | nil => rfl
  | cons root roots ih =>
    rw [List.forall_mem_cons] at known
    rw [unresolvedFrom, known.1, Bool.true_or, if_pos rfl, ih known.2]

end

/-! ## Documents -/

/-- What succeeds on some lines succeeds on others, if the two agree but for line numbers. -/
theorem eq_ok_of_unnumbered {α β : Type} {f : α → β} {first second : Except Error α} {a : α}
    (same : unnumbered f first = unnumbered f second) (ok : second = .ok a) :
    ∃ b, first = .ok b ∧ f b = f a := by
  subst ok
  cases first with
  | error error => cases same
  | ok b => exact ⟨b, rfl, Except.ok.inj same⟩

/-- Forests that differ in line numbers only have the same roles and names, and make programs with
the same statements and roots, but for line numbers. -/
theorem Forest.program_of_unnumbered [Letters] {forest other forest' : Forest Node}
    {table : SymbolTable} {statements : Forest Statement} {roots : List MemberRoot}
    (same : other.map Node.unnumbered = forest.map Node.unnumbered)
    (classified : forest.classify = .ok (forest', table))
    (made : Program.statementsOf forest' = .ok (statements, roots)) :
    ∃ other' table' roots', other.classify = .ok (other', table') ∧
      Program.statementsOf other' = .ok (statements, roots') ∧
      table'.unnumbered = table.unnumbered ∧
      roots'.map MemberRoot.name = roots.map MemberRoot.name := by
  have outcomes : unnumbered Classify.unnumberedResult other.classify =
      unnumbered Classify.unnumberedResult forest.classify := by
    rw [Forest.classify, Forest.classify, ← Classify.siblings_unnumbered,
      ← Classify.siblings_unnumbered, same]
  obtain ⟨⟨other', table'⟩, found, equal⟩ := eq_ok_of_unnumbered outcomes classified
  obtain ⟨sameForest, sameTable⟩ := Prod.mk.inj equal
  have emitted : unnumbered Program.untraced (Program.statementsOf other') =
      unnumbered Program.untraced (Program.statementsOf forest') := by
    rw [← Program.statementsOf_unnumbered, ← Program.statementsOf_unnumbered, sameForest]
  obtain ⟨⟨statements', roots'⟩, foundToo, equalToo⟩ := eq_ok_of_unnumbered emitted made
  obtain ⟨rfl, sameRoots⟩ := Prod.mk.inj equalToo
  refine ⟨other', table', roots', found, foundToo, sameTable, ?_⟩
  have names (roots : List MemberRoot) :
      roots.map MemberRoot.name = (roots.map MemberRoot.unnumbered).map MemberRoot.name := by
    rw [List.map_map]
    rfl
  rw [names roots', sameRoots, ← names roots]

/-- The steps from a source to its code and its warnings. -/
theorem diagnose_eq_ok_iff [Letters] {config : Config} {file : Option String} {source : Text}
    {compiled : Compiled} :
    diagnose config file source = .ok compiled ↔
      ∃ lines forest forest' table statements roots,
        Line.scan config source = .ok lines ∧ Forest.ofLines lines = .ok forest ∧
        forest.classify = .ok (forest', table) ∧
        Program.statementsOf forest' = .ok (statements, roots) ∧
        compiled = {
          code := Program.code ⟨statements, roots⟩ config
          warnings := unresolvedModules file source roots table } := by
  have undiagnosed : diagnose config file source = .ok compiled ↔
      compileWithWarnings config file source = .ok compiled := by
    rw [diagnose]
    cases compileWithWarnings config file source with
    | error error => simp
    | ok own => simp
  rw [undiagnosed]
  constructor
  · intro ok
    obtain ⟨analysis, analyzed, ok⟩ := bind_eq_ok.mp ok
    obtain ⟨program, made, ok⟩ := bind_eq_ok.mp ok
    obtain ⟨⟨statements, roots⟩, found, same⟩ := bind_eq_ok.mp made
    obtain rfl := Except.ok.inj same
    obtain ⟨lines, forest, scanned, nested, classified⟩ := analyze_eq_ok_iff.mp analyzed
    exact ⟨lines, forest, _, _, statements, roots, scanned, nested, classified, found,
      (Except.ok.inj ok).symm⟩
  · rintro ⟨lines, forest, forest', table, statements, roots, scanned, nested, classified, found,
      rfl⟩
    have analyzed : analyze config source = .ok ⟨forest', table⟩ :=
      analyze_eq_ok_iff.mpr ⟨lines, forest, scanned, nested, classified⟩
    have made : Program.ofForest forest' = .ok ⟨statements, roots⟩ :=
      bind_eq_ok.mpr ⟨_, found, rfl⟩
    exact bind_eq_ok.mpr ⟨_, analyzed, bind_eq_ok.mpr ⟨_, made, rfl⟩⟩

/-- The advice of the warnings is sound. Let a source without a byte order mark make code with
warnings, its unit of indentation being given, and let none of the names reported be `as`. With a
list of imports of these names in front of it, in any order, it makes code without warnings: the
imports, one on each line, and then the code that it made before. -/
theorem diagnose_advised [Letters] {config : Config} {file : Option String} {source unit : Text}
    {compiled : Compiled} {names : List Text}
    (given : config.sourceIndentationUnit = some unit)
    (unmarked : source.head? ≠ some '\ufeff')
    (ok : diagnose config file source = .ok compiled) (warned : compiled.warnings ≠ [])
    (reported : names.Perm compiled.warnings.subjects) (plain : "as".toList ∉ names) :
    diagnose config file (Text.unlines (importRows unit names) ++ source) =
      .ok {
        code := Text.unlines (names.map fun name => "import ".toList ++ name) ++ compiled.code
        warnings := [] } := by
  obtain ⟨lines, forest, forest', table, statements, roots, scanned, nested, classified, made,
    rfl⟩ := diagnose_eq_ok_iff.mp ok
  rw [subjects_unresolvedModules] at reported
  have filled : names ≠ [] := by
    rintro rfl
    refine warned (List.map_eq_nil_iff.mpr ?_)
    exact List.map_eq_nil_iff.mp reported.symm.eq_nil
  have missing : ∀ name ∈ names, Text.isIdentifier name = true ∧ table.isKnown name = false := by
    intro name mem
    obtain ⟨root, unresolved, rfl⟩ := List.mem_map.mp (reported.mem_iff.mp mem)
    obtain ⟨inRoots, unknown⟩ := mem_unresolvedFrom unresolved
    exact ⟨Program.isIdentifier_of_statementsOf made root inRoots, unknown⟩
  have named : ∀ name ∈ names, Text.isIdentifier name = true := fun name mem => (missing name mem).1
  have fresh : ∀ name ∈ names, table.isKnown name = false := fun name mem => (missing name mem).2
  obtain ⟨others, rescanned, alike⟩ := Line.scan_advised given named unmarked scanned
  obtain ⟨other, renested, same⟩ :=
    Forest.ofLines_of_alike alike (Forest.ofLines_advised named nested)
  obtain ⟨other', table', roots', reclassified, remade, sameTable, sameRoots⟩ :=
    Forest.program_of_unnumbered same
      (Classify.classify_advised named plain filled fresh classified)
      (Program.statementsOf_advised made)
  have known : ∀ root ∈ roots', table'.isKnown root.name = true := by
    intro root mem
    have isName : root.name ∈ roots.map MemberRoot.name := sameRoots ▸ List.mem_map_of_mem mem
    obtain ⟨own, inRoots, sameName⟩ := List.mem_map.mp isName
    rw [← SymbolTable.isKnown_unnumbered, sameTable, SymbolTable.isKnown_unnumbered,
      SymbolTable.isKnown_withModules, List.mem_reverse, reported.mem_iff, ← sameName]
    rcases isKnown_or_reported inRoots with bound | inSeen | inReport
    · exact .inl bound
    · exact absurd inSeen List.not_mem_nil
    · exact .inr inReport
  refine diagnose_eq_ok_iff.mpr ⟨others, other, other', table', _, roots', rescanned, renested,
    reclassified, remade, ?_⟩
  have silent : unresolvedFrom table' [] roots' = [] := unresolvedFrom_eq_nil known
  rw [Program.code_advised config names statements roots' roots]
  simp [unresolvedModules, silent]

/-- Two modules, one of them first met inside a text. -/
theorem diagnose_advised_pair :
    let config : Config := { sourceIndentationUnit := some [' ', ' '], blockStyle := .brace }
    let source : Text := "x: math.pi\nif x > 1:\n  print: \"{os.name}\"\n".toList
    let names : List Text := ["os".toList, "math".toList]
    source.head? ≠ some '\ufeff' ∧ "as".toList ∉ names ∧
      ∃ compiled, diagnose config none source = .ok compiled ∧ compiled.warnings ≠ [] ∧
        names.Perm compiled.warnings.subjects ∧
        diagnose config none ("packages:\n  - os\n  - math\n".toList ++ source) =
          .ok {
            code := "import os\nimport math\n".toList ++ compiled.code
            warnings := [] } := by
  intro config source names
  have unmarked : source.head? ≠ some '\ufeff' := by decide +kernel
  have plain : "as".toList ∉ names := by decide +kernel
  have found : (diagnose config none source).toOption.map (·.warnings.subjects) =
      some ["math".toList, "os".toList] := by decide +kernel
  obtain ⟨compiled, ok, subjects⟩ := Option.map_eq_some_iff.mp found
  have ok := eq_ok_of_toOption ok
  have warned : compiled.warnings ≠ [] := by
    intro none
    rw [none] at subjects
    cases subjects
  have reported : names.Perm compiled.warnings.subjects := subjects ▸ List.Perm.swap _ _ _
  have rows : Text.unlines (importRows [' ', ' '] names) =
      "packages:\n  - os\n  - math\n".toList := by decide +kernel
  have imports : Text.unlines (names.map fun name => "import ".toList ++ name) =
      "import os\nimport math\n".toList := by decide +kernel
  have advised := diagnose_advised rfl unmarked ok warned reported plain
  rw [rows, imports] at advised
  exact ⟨unmarked, plain, compiled, ok, warned, reported, advised⟩

end Outline
