import Outline.Document
import Outline.Proofs.Checked.Classify
import Outline.Proofs.Checked.Line
import Outline.Proofs.Checked.Program

/-!
# Compiling without a trap

The whole way from a source to its diagnostics, made of operations that are partial on machine data:
an index or a range of characters, a cut at a byte offset, a difference, a quotient. Each of them is
checked and ends the run with a trap outside its domain. `diagnose_untrapped` says that no source
meets a trap under any configuration, and that the run gives what `diagnose` gives.
-/

set_option autoImplicit false

namespace Outline.Checked

open Text

/-! ## Warnings -/

/-- Whether a name is neither the end of a longer one nor a member itself; the text before it is
given last character first. -/
def standsAlone (before _after : Text) : Bool :=
  match before with
  | [] => true
  | c :: _ => !isWordChar c && c != '.'

theorem append_dot_ne_nil (name : Text) : name ++ ['.'] ≠ [] :=
  List.append_ne_nil_of_right_ne_nil name (List.cons_ne_nil _ _)

/-- The column at which a source line takes a member of a name; one when it is not found there. -/
def column (name line : Text) : Checked Nat := do
  match ← search (name ++ ['.']) (append_dot_ne_nil name) standsAlone line 0 with
  | some offset => return offset + 1
  | none => return 1

/-- The column of a member use is counted without a trap. -/
theorem column_eq (name line : Text) : column name line = .ok (MemberRoot.column name line) := by
  have searched := search_eq (append_dot_ne_nil name) standsAlone (List.nil_append line).symm
  rw [byteSize_nil, List.reverse_nil] at searched
  unfold MemberRoot.column
  dsimp only
  split
  next before after found =>
    have cut : cutAtOccurrenceFrom (name ++ ['.']) standsAlone 0 [] line = some (before, after) :=
      found
    rw [column, searched, cut]
    rfl
  next missing =>
    have absent : cutAtOccurrenceFrom (name ++ ['.']) standsAlone 0 [] line = none := missing
    rw [column, searched, absent]
    rfl

/-- The warning that a name is used like a module. -/
def warning (file : Option String) (lines : List Text) (root : MemberRoot) :
    Checked Diagnostic := do
  let column ← match lines[root.line - 1]? with
    | some line => column root.name line
    | none => pure 1
  return { root.warning file lines with
    span := .onLine file root.line column (byteSize root.name) }

theorem warning_eq (file : Option String) (lines : List Text) (root : MemberRoot) :
    warning file lines root = .ok (root.warning file lines) := by
  rw [warning, MemberRoot.warning]
  cases lines[root.line - 1]? with
  | none => rfl
  | some line =>
    dsimp only
    rw [column_eq]
    rfl

/-- The warnings for names, in order. -/
def warnings (file : Option String) (lines : List Text) : List MemberRoot → Checked Diagnostics
  | [] => .ok []
  | root :: roots => do
    let first ← warning file lines root
    let more ← warnings file lines roots
    return first :: more

/-- Warnings are written without a trap. -/
theorem warnings_eq (file : Option String) (lines : List Text) (roots : List MemberRoot) :
    warnings file lines roots = .ok (roots.map (MemberRoot.warning file lines)) := by
  induction roots with
  | nil => rfl
  | cons root roots ih =>
    rw [warnings, warning_eq, ih]
    rfl

/-! ## Documents -/

/-- A source is scanned, nested and classified. -/
def analyze [Letters] (config : Config) (source : Text) : Run Error Analysis := do
  let lines ← scan config source
  let forest ← ofLines lines
  let (forest, symbols) ← classify forest
  return { forest, symbols }

/-- A source is analysed without a trap. -/
theorem analyze_eq [Letters] (config : Config) (source : Text) :
    analyze config source = total (Outline.analyze config source) := by
  refine total_bind (scan_eq config source) fun lines _ => ?_
  refine total_bind (ofLines_eq lines) fun forest _ => ?_
  exact total_bind (classify_eq forest) fun _ _ => rfl

/-- The code of a source with its warnings, or the error that refuses it. -/
def compileWithWarnings [Letters] (config : Config) (file : Option String) (source : Text) :
    Run Error Compiled := do
  let analysis ← analyze config source
  let written ← emit config.blockStyle analysis.forest {}
  let unresolved := unresolvedFrom analysis.symbols [] written.roots
  let warnings ← warnings file (lines source) unresolved
  return { code := written.buffer.render config.indentationUnit, warnings }

theorem compileWithWarnings_eq [Letters] (config : Config) (file : Option String) (source : Text) :
    compileWithWarnings config file source =
      total (Outline.compileWithWarnings config file source) := by
  refine total_bind (analyze_eq config source) fun analysis _ => ?_
  rw [emit_eq, Program.ofForest]
  cases Program.statementsOf analysis.forest with
  | error e => rfl
  | ok made => exact lift_bind (warnings_eq file (lines source) _) _

/-- The code of a source with its warnings, or its error as a diagnostic. -/
def diagnose [Letters] (config : Config) (file : Option String) (source : Text) :
    Checked (Except Diagnostics Compiled) := do
  let outcome ← (compileWithWarnings config file source).run
  match outcome with
  | .ok compiled => return .ok compiled
  | .error error => return .error [.ofError file error]

/-- No source meets a trap under any configuration: every cut is at the end of a character, every
index and range is in bounds, nothing is taken off a smaller number, and no divisor is zero. -/
theorem diagnose_untrapped [Letters] (config : Config) (file : Option String) (source : Text) :
    diagnose config file source = .ok (Outline.diagnose config file source) := by
  rw [diagnose, compileWithWarnings_eq, Outline.diagnose]
  cases Outline.compileWithWarnings config file source <;> rfl

end Outline.Checked
