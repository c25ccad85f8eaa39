import Outline.Header.Edition
import Outline.Proofs.Comments
import Outline.Proofs.Declared
import Outline.Proofs.Lossless

/-!
# Errors point at lines of code

An error carries the number of a line on its way through scanning, nesting, classification and
emission. `Text.IsCodeLine` says of a source alone which numbers are those of lines of code. Each
stage is followed with a property of numbers: where the numbers of the code it is given have the
property, so has the line that its error points at (`Error.PointsAt`). A function whose name is
assigned above it is blamed on the line of the assignment, so the table of symbols has to be
followed as well (`SymbolTable.AssignedAt`). `compile_pointsAt_code` puts the stages together.
-/

set_option autoImplicit false

namespace Outline

/-- The error points at a line, and its number has a property. -/
def Error.PointsAt (P : Nat → Prop) (error : Error) : Prop :=
  ∃ number, error.line? = some number ∧ P number

/-! ## Lines of code of a source -/

namespace Text

/-- A source without the byte order mark at its start. -/
def unmarked : Text → Text
  | '\ufeff' :: rest => rest
  | source => source

/-- The line of a source with this number, counted from one, exists and is neither blank nor a
comment. -/
def IsCodeLine (source : Text) (number : Nat) : Prop :=
  ∃ index line, number = index + 1 ∧ (lines source.unmarked)[index]? = some line ∧
    trim line ≠ [] ∧ (trim line).head? ≠ some commentMark

end Text

theorem Row.isCode_iff {row : Row} :
    row.isCode = true ↔ row.body ≠ [] ∧ row.body.head? ≠ some commentMark := by
  rw [isCode, Bool.and_eq_true, Bool.not_eq_true', List.isEmpty_eq_false_iff,
    Option.isNone_iff_eq_none, comment?_eq_none_iff]

/-- A row of code is a line of code of the source. -/
theorem Row.isCodeLine_of_mem {source : Text} {row : Row} (mem : row ∈ ofSource source)
    (code : row.isCode = true) : source.IsCodeLine row.number := by
  obtain ⟨⟨line, index⟩, inLines, rfl⟩ := List.mem_map.mp mem
  obtain ⟨filled, plain⟩ := isCode_iff.mp code
  exact ⟨index, line, rfl, List.mem_zipIdx_iff_getElem?.mp inLines, filled, plain⟩

/-! ## Scanning -/

/-- An error of the configuration points at no line. -/
theorem Config.line?_of_validate_eq_error {config : Config} {error : Error}
    (failed : config.validate = .error error) : error.line? = none := by
  have unplaced {option : String} {unit : Text} (failed : checkUnit option unit = .error error) :
      error.line? = none := by
    rw [checkUnit] at failed
    split at failed
    · cases failed
    · obtain rfl := Except.error.inj failed
      rfl
  rcases bind_eq_error.mp failed with failed | ⟨_, _, failed⟩
  · exact unplaced failed
  · split at failed
    · exact unplaced failed
    · cases failed

section

variable {error : Error} {unit : Option Text} {keep : Bool} {row : Row} {rows : List Row}

/-- The search for a unit fails on a row of code. -/
theorem Indent.unitFrom_eq_error (failed : unitFrom unit rows = .error error) :
    ∃ row ∈ rows, row.isCode = true ∧ error.line? = some row.number := by
  induction rows generalizing unit with
  | nil => cases failed
  | cons row rows ih =>
    have later {unit : Option Text} (failed : unitFrom unit rows = .error error) :
        ∃ found ∈ row :: rows, found.isCode = true ∧ error.line? = some found.number := by
      obtain ⟨found, inRows, rest⟩ := ih failed
      exact ⟨found, List.mem_cons_of_mem _ inRows, rest⟩
    rw [unitFrom] at failed
    split at failed
    next => exact later failed
    next indented =>
      split at failed
      next => exact later failed
      next =>
        obtain rfl := Except.error.inj failed
        rw [Bool.or_eq_true, not_or, Bool.not_eq_true', Bool.not_eq_false] at indented
        exact ⟨row, List.mem_cons_self, indented.1, rfl⟩

namespace Line

/-- Only the depth of a row of code can be at fault. -/
theorem ofRow_eq_error (failed : ofRow keep unit row = .error error) :
    row.isCode = true ∧ error.line? = some row.number := by
  rw [ofRow] at failed
  split at failed
  next => cases failed
  next filled =>
    split at failed
    next => cases failed
    next plain =>
      split at failed
      next =>
        obtain rfl := Except.error.inj failed
        rw [List.isEmpty_iff] at filled
        exact ⟨Row.isCode_iff.mpr ⟨filled, Row.comment?_eq_none_iff.mp plain⟩, rfl⟩
      next => cases failed

/-- Rows are refused on a row of code. -/
theorem ofRows_eq_error (failed : ofRows keep unit rows = .error error) :
    ∃ row ∈ rows, row.isCode = true ∧ error.line? = some row.number := by
  induction rows with
  | nil => cases failed
  | cons row rows ih =>
    rcases bind_eq_error.mp failed with failed | ⟨_, _, failed⟩
    · exact ⟨row, List.mem_cons_self, ofRow_eq_error failed⟩
    · rcases bind_eq_error.mp failed with failed | ⟨_, _, failed⟩
      · obtain ⟨found, inRows, rest⟩ := ih failed
        exact ⟨found, List.mem_cons_of_mem _ inRows, rest⟩
      · cases failed

/-- A scan fails for the configuration, or on a line of code. -/
theorem scan_eq_error {config : Config} {source : Text}
    (failed : scan config source = .error error) :
    config.validate = .error error ∨
      config.validate = .ok () ∧ error.PointsAt source.IsCodeLine := by
  have onCode (blamed : ∃ row ∈ Row.ofSource source, row.isCode = true ∧
      error.line? = some row.number) : error.PointsAt source.IsCodeLine := by
    obtain ⟨row, mem, code, named⟩ := blamed
    exact ⟨row.number, named, Row.isCodeLine_of_mem mem code⟩
  rcases bind_eq_error.mp failed with invalid | ⟨⟨⟩, valid, failed⟩
  · exact .inl invalid
  · refine .inr ⟨valid, onCode ?_⟩
    rcases bind_eq_error.mp failed with failed | ⟨unit, _, failed⟩
    · rw [Indent.unitOf] at failed
      split at failed
      · cases failed
      · exact Indent.unitFrom_eq_error failed
    · exact ofRows_eq_error failed

/-- The lines of code that a scan gives are lines of code of the source. -/
theorem isCodeLine_of_mem_codeLines {config : Config} {source : Text} {lines : List Line}
    (scanned : scan config source = .ok lines) :
    ∀ line ∈ Nest.codeLines lines, source.IsCodeLine line.number := by
  intro line mem
  obtain ⟨inLines, code⟩ := List.mem_filter.mp mem
  obtain ⟨_, unit, _, made⟩ := scan_eq_ok_iff.mp scanned
  obtain ⟨row, inRows, own, ofRow, inOwn⟩ := exists_row_of_mem_ofRows made inLines
  rcases mem_ofRow ofRow inOwn with ⟨_, text, _, rfl⟩ | ⟨filled, plain, depth, _, rfl⟩
  · cases code
  · exact Row.isCodeLine_of_mem inRows
      (Row.isCode_iff.mpr ⟨filled, Row.comment?_eq_none_iff.mp plain⟩)

end Line

end

/-! ## Nesting -/

/-- The lines of code of the forest have numbers with a property. -/
def Forest.CodeAt (P : Nat → Prop) (forest : Forest Node) : Prop :=
  ∀ node ∈ forest.preorder, node.isCode = true → P node.line

section

variable {P : Nat → Prop} {error : Error}

namespace Forest

variable {node : Node} {children rest : Forest Node}

theorem codeAt_cons :
    (Forest.cons node children rest).CodeAt P ↔
      (node.isCode = true → P node.line) ∧ children.CodeAt P ∧ rest.CodeAt P := by
  simp only [CodeAt, preorder, List.forall_mem_cons, List.forall_mem_append]

theorem CodeAt.of_mem_codeRoots {forest : Forest Node} (codeAt : forest.CodeAt P) {root : Node}
    (mem : root ∈ forest.codeRoots) : P root.line := by
  obtain ⟨isRoot, code⟩ := List.mem_filter.mp mem
  refine codeAt root ?_ code
  induction forest with
  | nil => cases isRoot
  | cons node children rest _ ih =>
    rcases List.mem_cons.mp isRoot with rfl | later
    · exact List.mem_cons_self
    · obtain ⟨_, _, after⟩ := codeAt_cons.mp codeAt
      have inRest := ih after (List.mem_filter.mpr ⟨later, code⟩) later
      exact List.mem_cons_of_mem _ (List.mem_append_right _ inRest)

end Forest

namespace Nest

variable {lines : List Line}

/-- A forest is refused on a line of code. -/
theorem pointsAt_of_ofLines (onLines : ∀ line ∈ codeLines lines, P line.number)
    (failed : Forest.ofLines lines = .error error) : error.PointsAt P := by
  obtain ⟨before, line, after, message, split, _, _, rfl⟩ :=
    exists_first_of_check_eq_error (check_of_ofLines_eq_error failed)
  refine ⟨line.number, rfl, onLines line ?_⟩
  rw [split]
  exact List.mem_append_right _ List.mem_cons_self

/-- The nodes of code of a forest are on lines of code. -/
theorem codeAt_of_ofLines {forest : Forest Node}
    (onLines : ∀ line ∈ codeLines lines, P line.number)
    (made : Forest.ofLines lines = .ok forest) : forest.CodeAt P := by
  intro node mem code
  rw [preorder_of_ofLines made] at mem
  obtain ⟨line, inLines, rfl⟩ := List.mem_map.mp mem
  rw [Node.isCode_ofLine] at code
  have number : (Node.ofLine line).line = line.number := by
    rw [Node.ofLine.eq_def]
    cases line.kind <;> rfl
  rw [number]
  exact onLines line (List.mem_filter.mpr ⟨inLines, code⟩)

end Nest

/-! ## Classification -/

namespace SymbolTable

variable {table : SymbolTable}

/-- The plain assignments that a table keeps are on lines with a property. -/
def AssignedAt (P : Nat → Prop) (table : SymbolTable) : Prop :=
  ∀ entry ∈ table.assignments, P entry.2

theorem AssignedAt.assignmentLine? (assigned : table.AssignedAt P) {name : Text} {number : Nat}
    (found : table.assignmentLine? name = some number) : P number := by
  obtain ⟨before, after, split, _⟩ := List.lookup_eq_some_iff.mp found
  refine assigned (name, number) ?_
  rw [split]
  exact List.mem_append_right _ List.mem_cons_self

/-- A node of code adds its own line at most. -/
theorem AssignedAt.declare (assigned : table.AssignedAt P) {node : Node} (own : P node.line)
    (role : Role) : (table.declare node role).AssignedAt P := by
  have unchanged {other : SymbolTable} (same : other.assignments = table.assignments) :
      other.AssignedAt P := by
    intro entry mem
    exact assigned entry (same ▸ mem)
  cases role with
  | assignment aggregate =>
    rw [SymbolTable.declare]
    split
    · intro entry mem
      rw [defineAssignment] at mem
      dsimp only at mem
      split at mem
      · exact assigned entry mem
      · rcases List.mem_cons.mp mem with rfl | older
        · exact own
        · exact assigned entry older
    · exact unchanged (assignments_defineVariables _ _)
  | forHeader targets | rangeForHeader targets =>
    exact unchanged (assignments_defineVariables _ _)
  | functionDef name param => exact unchanged (assignments_defineVariables _ _)
  | _ => exact assigned

end SymbolTable

namespace Classify

variable {context : Context} {previous : Option Role} {table : SymbolTable} {node : Node}
  {shapes : List Shape}

theorem report_eq_error {α : Type} {line : Nat} {outcome : Except Fault α}
    (failed : report line outcome = .error error) : error.line? = some line := by
  cases outcome with
  | ok => cases failed
  | error fault =>
    obtain rfl := Except.error.inj failed
    rfl

/-- A header is refused on its own line, or on the line that assigns the name it defines. -/
theorem pointsAt_of_headerRole [Letters] {line : Nat} {header : Header} (own : P line)
    (assigned : table.AssignedAt P)
    (failed : headerRole table previous line header = .error error) : error.PointsAt P := by
  cases header with
  | ifThen | whileLoop => cases failed
  | elifThen | otherwise =>
    rw [headerRole] at failed
    split at failed
    · cases failed
    · obtain rfl := Except.error.inj failed
      exact ⟨line, rfl, own⟩
  | forLoop targets iterable =>
    rw [headerRole] at failed
    split at failed
    · rcases bind_eq_error.mp failed with failed | ⟨_, _, failed⟩
      · rw [RangeSugar.read] at failed
        split at failed
        · cases failed
        · obtain rfl := Except.error.inj failed
          exact ⟨line, rfl, own⟩
      · cases failed
    · cases failed
  | function name param =>
    rw [headerRole] at failed
    split at failed
    next number found =>
      obtain rfl := Except.error.inj failed
      exact ⟨number, rfl, assigned.assignmentLine? found⟩
    next => cases failed

/-- An error at a node under a keyword points at its line, or at the line of an assignment. -/
theorem pointsAt_of_headerStatement [Letters] {keyword : Text} {hasBody : Bool} (own : P node.line)
    (assigned : table.AssignedAt P)
    (failed : headerStatement table previous keyword node hasBody = .error error) :
    error.PointsAt P := by
  rw [headerStatement] at failed
  split at failed
  · obtain rfl := Except.error.inj failed
    exact ⟨node.line, rfl, own⟩
  · rcases bind_eq_error.mp failed with failed | ⟨header, _, failed⟩
    · rw [Header.read] at failed
      split at failed
      · cases failed
      · obtain rfl := Except.error.inj failed
        exact ⟨node.line, rfl, own⟩
    · rcases bind_eq_error.mp failed with failed | ⟨role, _, failed⟩
      · exact pointsAt_of_headerRole own assigned failed
      · split at failed
        · cases failed
        · obtain rfl := Except.error.inj failed
          exact ⟨node.line, rfl, own⟩

/-- An error at a node with a key points at its line, or at the line of an assignment. -/
theorem pointsAt_of_keyedStatement [Letters] (own : P node.line) (assigned : table.AssignedAt P)
    (failed : keyedStatement table previous node shapes = .error error) : error.PointsAt P := by
  unfold keyedStatement at failed
  split at failed
  · exact pointsAt_of_headerStatement own assigned failed
  · split at failed
    · cases failed
    split at failed
    · cases failed
    split at failed
    · split at failed
      · obtain rfl := Except.error.inj failed
        exact ⟨node.line, rfl, own⟩
      · cases failed
    split at failed
    · obtain rfl := Except.error.inj failed
      exact ⟨node.line, rfl, own⟩
    · exact ⟨node.line, report_eq_error failed, own⟩

theorem line?_of_bareStatement (failed : bareStatement table node = .error error) :
    error.line? = some node.line := by
  unfold bareStatement at failed
  split at failed
  · split at failed
    · obtain rfl := Except.error.inj failed
      rfl
    · split at failed
      · cases failed
      · obtain rfl := Except.error.inj failed
        rfl
  · split at failed
    · cases failed
    split at failed
    · cases failed
    split at failed <;>
    · obtain rfl := Except.error.inj failed
      rfl

/-- A line of code without a role is blamed on itself, or on an assignment before it. -/
theorem pointsAt_of_role [Letters] (own : P node.line) (assigned : table.AssignedAt P)
    (failed : Classify.role table context previous node shapes = .error error) :
    error.PointsAt P := by
  rcases bind_eq_error.mp failed with failed | ⟨role, _, failed⟩
  · unfold decideRole at failed
    split at failed
    · cases failed
    · exact ⟨node.line, report_eq_error failed, own⟩
    · exact ⟨node.line, report_eq_error failed, own⟩
    · exact ⟨node.line, report_eq_error failed, own⟩
    · exact pointsAt_of_keyedStatement own assigned failed
    · exact ⟨node.line, line?_of_bareStatement failed, own⟩
    · obtain rfl := Except.error.inj failed
      exact ⟨node.line, rfl, own⟩
  · split at failed
    · cases failed
    · obtain rfl := Except.error.inj failed
      exact ⟨node.line, rfl, own⟩

variable {forest forest' : Forest Node} {table' : SymbolTable}

/-- One step keeps the lines of the table. A comment is on no line of code, but it declares nothing
either. -/
theorem assignedAt_declare [Letters] {role : Role} (own : node.isCode = true → P node.line)
    (assigned : table.AssignedAt P) (decided : Decision table context previous node shapes role) :
    (table.declare node role).AssignedAt P := by
  cases code : node.isCode with
  | true => exact assigned.declare (own code) role
  | false =>
    rw [decided.comment_iff.mp (by simpa [Node.isCode] using code)]
    exact assigned

/-- Classifying moves no node to another line, and declares on lines of code. -/
theorem Classified.assignedAt [Letters]
    (classified : Classified context previous table forest forest' table')
    (codeAt : forest.CodeAt P) (assigned : table.AssignedAt P) :
    forest'.CodeAt P ∧ table'.AssignedAt P := by
  induction classified with
  | nil => exact ⟨codeAt, assigned⟩
  | cons decided _ _ _ ihBelow ihAfter =>
    obtain ⟨own, below, after⟩ := Forest.codeAt_cons.mp codeAt
    obtain ⟨codeBelow, assignedBelow⟩ := ihBelow below (assignedAt_declare own assigned decided)
    obtain ⟨codeAfter, assignedAfter⟩ := ihAfter after assignedBelow
    exact ⟨Forest.codeAt_cons.mpr ⟨own, codeBelow, codeAfter⟩, assignedAfter⟩

/-- The pass over a forest fails on a line of code. Nothing stands below a comment, so no comment
is refused. -/
theorem pointsAt_of_siblings [Letters] (bare : forest.BareComments) (codeAt : forest.CodeAt P)
    (assigned : table.AssignedAt P)
    (failed : siblings context previous table forest = .error error) : error.PointsAt P := by
  induction forest generalizing context previous table with
  | nil => cases failed
  | cons node children rest ihChildren ihRest =>
    obtain ⟨own, below, after⟩ := Forest.codeAt_cons.mp codeAt
    rw [siblings] at failed
    rcases bind_eq_error.mp failed with failed | ⟨role, given, failed⟩
    · cases code : node.isCode with
      | true => exact pointsAt_of_role (own code) assigned failed
      | false =>
        have alone : children.codeRoots.map Node.shape = [] := by
          rw [bare.1 code]
          rfl
        rw [alone, role_of_comment code] at failed
        cases failed
    · have declared := assignedAt_declare own assigned (role_eq_ok given).1
      rcases bind_eq_error.mp failed with failed | ⟨⟨children', inner⟩, inside, failed⟩
      · exact ihChildren bare.2.1 below declared failed
      · have innerAt := ((classified_of_siblings inside).assignedAt below declared).2
        rcases bind_eq_error.mp failed with failed | ⟨_, _, failed⟩
        · exact ihRest bare.2.2 after innerAt failed
        · cases failed

end Classify

/-! ## Emission -/

namespace Program

theorem line?_of_read [Letters] {line : Nat} {raw : Text}
    (failed : Expression.read line raw = .error error) : error.line? = some line := by
  rw [Expression.read] at failed
  split at failed
  · cases failed
  · obtain rfl := Except.error.inj failed
    rfl

/-- What fails at a node of a classified forest is on a line of code: a comment has no text that is
read. -/
theorem pointsAt_of_fails [Letters] {node : Node} {children : Forest Node}
    (typed : node.Typed children)
    (own : node.isCode = true → P node.line) (below : children.CodeAt P)
    (fails : node.Fails error children) : error.PointsAt P := by
  rcases fails with ⟨raw, read, refused⟩ | ⟨_, child, mem, _, rfl⟩
  · refine ⟨node.line, line?_of_read refused, own ?_⟩
    cases code : node.isCode with
    | true => rfl
    | false =>
      rw [Node.reads, typed.comment.mp (by simpa [Node.isCode] using code)] at read
      cases read
  · exact ⟨child.line, rfl, below.of_mem_codeRoots mem⟩

/-- What fails at some node of the forest points at a line of code. -/
theorem pointsAt_of_any [Letters] {forest : Forest Node} (typed : forest.Every Node.Typed)
    (codeAt : forest.CodeAt P) (fails : forest.Any (Node.Fails error)) : error.PointsAt P := by
  induction forest with
  | nil => cases fails
  | cons node children rest ihChildren ihRest =>
    obtain ⟨own, below, after⟩ := Forest.codeAt_cons.mp codeAt
    rcases fails with here | inside | later
    · exact pointsAt_of_fails typed.1 own below here
    · exact ihChildren typed.2.1 below inside
    · exact ihRest typed.2.2 after later

/-- Writing the program fails on a line of code. -/
theorem pointsAt_of_ofForest [Letters] {forest forest' : Forest Node} {table : SymbolTable}
    (codeAt : forest.CodeAt P) (given : forest.classify = .ok (forest', table))
    (failed : ofForest forest' = .error error) : error.PointsAt P := by
  have classified := Classify.classified_of_siblings given
  obtain ⟨admitted, typed⟩ := classified.typed
  have roots := forall_roots_of_codeRoots typed fun root mem =>
    isStatement_of_standsInBlock (admitted root mem)
  have unassigned : ({} : SymbolTable).AssignedAt P := by
    intro entry mem
    cases mem
  rcases bind_eq_error.mp failed with failed | ⟨_, _, failed⟩
  · exact pointsAt_of_any typed (classified.assignedAt codeAt unassigned).1
      (statementsOf_eq_error typed roots failed)
  · cases failed

end Program

end

/-! ## Whole sources -/

/-- Analysis fails for its configuration, or on a line of code. -/
theorem analyze_eq_error [Letters] {config : Config} {source : Text} {error : Error}
    (failed : analyze config source = .error error) :
    config.validate = .error error ∨
      config.validate = .ok () ∧ error.PointsAt source.IsCodeLine := by
  rcases bind_eq_error.mp failed with failed | ⟨lines, scanned, failed⟩
  · exact Line.scan_eq_error failed
  · have valid := (Line.scan_eq_ok_iff.mp scanned).1
    have onLines := Line.isCodeLine_of_mem_codeLines scanned
    refine .inr ⟨valid, ?_⟩
    rcases bind_eq_error.mp failed with failed | ⟨forest, nested, failed⟩
    · exact Nest.pointsAt_of_ofLines onLines failed
    · rcases bind_eq_error.mp failed with failed | ⟨_, _, failed⟩
      · exact Classify.pointsAt_of_siblings (Nest.bareComments_ofLines nested)
          (Nest.codeAt_of_ofLines onLines nested) (by intro entry mem; cases mem) failed
      · cases failed

/-- Errors point at code. The line that an error points at exists in the source, is not blank and is
no comment; and with a valid configuration every error points at such a line. -/
theorem compile_pointsAt_code [Letters] {config : Config} {source : Text} {error : Error}
    (failed : compile config source = .error error) :
    (∀ number, error.line? = some number → source.IsCodeLine number) ∧
      (config.validate = .ok () →
        ∃ number, error.line? = some number ∧ source.IsCodeLine number) := by
  have blamed : config.validate = .error error ∨
      config.validate = .ok () ∧ error.PointsAt source.IsCodeLine := by
    rcases bind_eq_error.mp failed with failed | ⟨analysis, analyzed, failed⟩
    · exact analyze_eq_error failed
    · obtain ⟨lines, forest, scanned, nested, given⟩ := analyze_eq_ok_iff.mp analyzed
      refine .inr ⟨(Line.scan_eq_ok_iff.mp scanned).1, ?_⟩
      rcases bind_eq_error.mp failed with failed | ⟨_, _, failed⟩
      · exact Program.pointsAt_of_ofForest
          (Nest.codeAt_of_ofLines (Line.isCodeLine_of_mem_codeLines scanned) nested) given failed
      · cases failed
  rcases blamed with invalid | ⟨_, number, named, code⟩
  · constructor
    · intro number named
      rw [Config.line?_of_validate_eq_error invalid] at named
      cases named
    · intro valid
      rw [valid] at invalid
      cases invalid
  · constructor
    · intro other same
      obtain rfl := Option.some.inj (named.symm.trans same)
      exact code
    · intro _
      exact ⟨number, named, code⟩

/-- A name is assigned on line three, below a byte order mark, a comment and a blank line, and a
function of that name is defined on line five: the error points at line three. -/
theorem compile_pointsAt_code_assigned :
    let source : Text := "\ufeff# note\n\ngreet: 1\n\nfunction greet define x:\n  pass\n".toList
    let error := Error.undefinedCallable "greet".toList 3
    compile {} source = .error error ∧ error.line? = some 3 ∧
      (∀ number, error.line? = some number → source.IsCodeLine number) ∧
      ∃ number, error.line? = some number ∧ source.IsCodeLine number := by
  intro source error
  have failed : compile {} source = .error error := by decide +kernel
  obtain ⟨real, carried⟩ := compile_pointsAt_code failed
  exact ⟨failed, rfl, real, carried rfl⟩

end Outline
