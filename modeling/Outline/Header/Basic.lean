import Outline.Error
import Outline.Header.Grammar
import Outline.Text.Word

/-!
# Headers

A header is the key of a line that opens a block: a condition, an alternative, a loop or a function
definition. `Header.read?` reads the whole text by the grammar of headers.
-/

set_option autoImplicit false

namespace Outline

/-- A control header. -/
inductive Header where
  /-- `if condition` -/
  | ifThen (condition : Text)
  /-- `elif condition` -/
  | elifThen (condition : Text)
  /-- `else` -/
  | otherwise
  /-- `while condition` -/
  | whileLoop (condition : Text)
  /-- `for a, b in iterable` -/
  | forLoop (targets : List Text) (iterable : Text)
  /-- `function name define param` -/
  | function (name param : Text)
  deriving DecidableEq, Repr

namespace Header

/-- The keywords that introduce a header. -/
def keywords : List Text :=
  ["if".toList, "elif".toList, "else".toList, "while".toList, "for".toList, "function".toList]

/-- The header keyword that a text starts with, as a whole word. -/
def keyword? (s : Text) : Option Text :=
  if keywords.contains (Text.leadingWord s) then some (Text.leadingWord s) else none

open Grammar

/-! ## The targets of a loop -/

/-- A comma and a name, and what follows them. -/
def readNextTarget? [Letters] (s : Text) : Option (Text × Text) :=
  match skipGap s with
  | ',' :: rest => readName? (skipGap rest)
  | _ => none

/-- A further target takes something, so reading targets comes to an end. -/
theorem length_lt_of_readNextTarget [Letters] {s name rest : Text}
    (read : readNextTarget? s = some (name, rest)) : rest.length < s.length := by
  rw [readNextTarget?] at read
  split at read
  next tail gap =>
    have h₁ := length_lt_of_readName read
    have h₂ := length_skipGap_le tail
    have h₃ := length_skipGap_le s
    rw [gap, List.length_cons] at h₃
    omega
  next => cases read

/-- The names after the first of a list separated by commas, and what follows the last. -/
def readMoreTargets [Letters] (s : Text) : List Text × Text :=
  match _read : readNextTarget? s with
  | some (name, rest) =>
    let (names, after) := readMoreTargets rest
    (name :: names, after)
  | none => ([], s)
termination_by s.length
decreasing_by exact length_lt_of_readNextTarget _read

/-- Names separated by commas, at least one, and what follows the last. -/
def readTargets? [Letters] (s : Text) : Option (List Text × Text) := do
  let (name, rest) ← readName? s
  let (names, after) := readMoreTargets rest
  return (name :: names, after)

/-! ## Headers -/

/-- A keyword and the rest of the text. -/
def readCondition? [Letters] (keyword : String) (s : Text) : Option Text := do
  let rest ← readKeyword? keyword.toList s
  readRest? (skipGap rest)

/-- A loop over the items of something. -/
def readFor? [Letters] (s : Text) : Option Header := do
  let rest ← readKeyword? "for".toList s
  let (targets, rest) ← readTargets? (skipGap rest)
  let rest ← readKeyword? "in".toList (skipGap rest)
  let iterable ← readRest? (skipGap rest)
  return .forLoop targets iterable

/-- A function definition; nothing may follow it. -/
def readFunction? [Letters] (s : Text) : Option Header := do
  let rest ← readKeyword? "function".toList s
  let (name, rest) ← readName? (skipGap rest)
  let rest ← readKeyword? "define".toList (skipGap rest)
  let (param, rest) ← readName? (skipGap rest)
  if (skipGap rest).isEmpty then some (.function name param) else none

/-- The alternative without a condition; nothing may follow it. -/
def readElse? [Letters] (s : Text) : Option Header := do
  let rest ← readKeyword? "else".toList s
  if (skipGap rest).isEmpty then some .otherwise else none

/-- The header that a whole text is, a gap at either end allowed. -/
def read? [Letters] (s : Text) : Option Header :=
  let s := skipGap s
  readFunction? s <|> readFor? s <|> (readCondition? "elif" s).map .elifThen <|>
    (readCondition? "if" s).map .ifThen <|> (readCondition? "while" s).map .whileLoop <|>
    readElse? s

/-- The wording for a text that is no header. -/
def malformed (s : Text) : String :=
  let keyword := (keyword? s).getD "control".toList
  s!"malformed '{String.ofList keyword}' header `{String.ofList s}`"

/-- The header that a text on a line is, or the error that it is none. -/
def read [Letters] (line : Nat) (s : Text) : Except Error Header :=
  match read? s with
  | some header => .ok header
  | none => .error (.classification line (malformed s))

end Header
end Outline
