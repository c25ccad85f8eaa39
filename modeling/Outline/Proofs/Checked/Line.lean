import Outline.Node.Nest
import Outline.Proofs.Checked.Text
import Outline.Proofs.Pointing
import Outline.Proofs.Scan

/-!
# Scanning and nesting lines by offsets

From a source to a forest of nodes, with checked operations: the indentation of a line is cut off at
the difference of two sizes, its depth is a quotient by the width of the unit, and the levels that a
line jumps over are a difference. The unit is never empty, whether the configuration gives it or the
rows do, and its first byte is a character: this is what the invariant `IsUnit` carries through the
rows.
-/

set_option autoImplicit false

namespace Outline.Checked

open Text

/-! ## Rows -/

/-- The blanks before the body of a line. -/
def leading (s : Text) : Checked Text := do
  let width ← sub (byteSize s) (byteSize (trimStart s))
  front s width

/-- The length of the indentation is the difference of two sizes, of which the second is not
greater. -/
theorem leading_eq (s : Text) : leading s = .ok (s.takeWhile isBlank) := by
  have parts : s = s.takeWhile isBlank ++ trimStart s := List.takeWhile_append_dropWhile.symm
  have size : byteSize s = byteSize (s.takeWhile isBlank) + byteSize (trimStart s) := by
    rw [← byteSize_append, ← parts]
  rw [leading, sub_of_le (by omega), ok_bind]
  exact front_append parts (by omega)

/-- The row that a line of the source makes. -/
def rowOfText (number : Nat) (s : Text) : Checked Row := do
  let indent ← leading s
  return ⟨number, indent, trim s⟩

/-- The rows of lines, of which the first has the given number. -/
def rowsFrom : (number : Nat) → List Text → Checked (List Row)
  | _, [] => .ok []
  | number, s :: rest => do
    let row ← rowOfText number s
    let rows ← rowsFrom (number + 1) rest
    return row :: rows

/-- The rows are numbered from one on. -/
theorem rowsFrom_eq (index : Nat) (texts : List Text) :
    rowsFrom (index + 1) texts =
      .ok ((texts.zipIdx index).map fun (s, index) => Row.ofText (index + 1) s) := by
  induction texts generalizing index with
  | nil => rfl
  | cons s texts ih =>
    rw [rowsFrom, rowOfText, leading_eq, ih]
    rfl

/-- The rows of a source. -/
def rowsOf (source : Text) : Checked (List Row) := rowsFrom 1 (lines source.unmarked)

theorem rowsOf_eq (source : Text) : rowsOf source = .ok (Row.ofSource source) := by
  rw [rowsOf, rowsFrom_eq 0]
  rfl

/-! ## The unit of indentation -/

/-- Whether an indentation starts with another blank than the unit found so far. -/
def mixes (unit : Option Text) (indent : Text) : Checked Bool :=
  match unit with
  | none => .ok false
  | some unit => do
    let first ← front unit 1
    return (after? first indent).isNone

/-- The unit found so far or an indentation, whichever takes fewer bytes. -/
def shorter (unit : Option Text) (indent : Text) : Text :=
  match unit with
  | none => indent
  | some unit => if byteSize indent < byteSize unit then indent else unit

/-- The shortest indentation of the code rows, after the unit found so far. -/
def unitFrom : Option Text → List Row → Run Error (Option Text)
  | unit, [] => return unit
  | unit, row :: rows =>
    if !row.isCode || row.indent.isEmpty then unitFrom unit rows
    else do
      let mixed ← mixes unit row.indent
      if !isIndentUnit row.indent || mixed then throw (Indent.Fault.mixed.error row.number)
      else unitFrom (some (shorter unit row.indent)) rows

/-- The unit of indentation of rows. -/
def unitOf (config : Config) (rows : List Row) : Run Error (Option Text) :=
  match config.sourceIndentationUnit with
  | some unit => return some unit
  | none => unitFrom none rows

/-- A unit that has been found is an indentation unit. -/
def IsUnit (unit : Option Text) : Prop := ∀ known ∈ unit, isIndentUnit known = true

theorem byteSize_replicate {c : Char} (single : c.utf8Size = 1) (width : Nat) :
    byteSize (List.replicate width c) = width := by
  induction width with
  | zero => rfl
  | succ width ih =>
    rw [List.replicate_succ, byteSize_cons, ih, single]
    omega

/-- A space and a tab are one byte each, so a unit has as many bytes as characters. -/
theorem byteSize_of_isIndentUnit {unit : Text} (isUnit : isIndentUnit unit = true) :
    byteSize unit = unit.length := by
  obtain ⟨c, width, kind, _, rfl⟩ := isIndentUnit_iff.mp isUnit
  have single : c.utf8Size = 1 := by rcases kind with rfl | rfl <;> rfl
  rw [byteSize_replicate single, List.length_replicate]

theorem exists_cons_of_isIndentUnit {unit : Text} (isUnit : isIndentUnit unit = true) :
    ∃ c rest, unit = c :: rest ∧ c.utf8Size = 1 := by
  obtain ⟨c, width, kind, wide, rfl⟩ := isIndentUnit_iff.mp isUnit
  have single : c.utf8Size = 1 := by rcases kind with rfl | rfl <;> rfl
  cases width with
  | zero => cases wide
  | succ width => exact ⟨c, List.replicate width c, List.replicate_succ, single⟩

/-- The first byte of a unit is its first character. -/
theorem mixes_eq {unit : Option Text} (isUnit : IsUnit unit) (indent : Text) :
    mixes unit indent = .ok (!unit.all fun known => indent.head? == known.head?) := by
  cases unit with
  | none => rfl
  | some unit =>
    obtain ⟨c, rest, rfl, single⟩ := exists_cons_of_isIndentUnit (isUnit unit rfl)
    have first : front (c :: rest) 1 = .ok [c] :=
      front_append (List.singleton_append).symm (by rw [byteSize_cons, single]; rfl)
    rw [mixes, first, ok_bind]
    cases indent with
    | nil => rfl
    | cons d indent =>
      by_cases same : c = d
      · simp [after?, same]
        rfl
      · have differ : (d == c) = false := beq_false_of_ne (Ne.symm same)
        simp [after?, same, differ]
        rfl

/-- The shorter of two units in bytes is the shorter in characters. -/
theorem shorter_eq {unit : Option Text} (isUnit : IsUnit unit) {indent : Text}
    (ofUnit : isIndentUnit indent = true) : shorter unit indent = Indent.shorter unit indent := by
  cases unit with
  | none => rfl
  | some unit =>
    rw [shorter, Indent.shorter, byteSize_of_isIndentUnit ofUnit,
      byteSize_of_isIndentUnit (isUnit unit rfl)]

theorem isUnit_shorter {unit : Option Text} (isUnit : IsUnit unit) {indent : Text}
    (ofUnit : isIndentUnit indent = true) : IsUnit (some (Indent.shorter unit indent)) := by
  rintro known ⟨⟩
  cases unit with
  | none => exact ofUnit
  | some unit =>
    rw [Indent.shorter]
    split
    · exact ofUnit
    · exact isUnit unit rfl

/-- The rows have a unit that is none but an indentation unit, and looking for it has no trap. -/
theorem unitFrom_eq {unit : Option Text} (isUnit : IsUnit unit) (rows : List Row) :
    unitFrom unit rows = total (Indent.unitFrom unit rows) ∧
      ∀ found, Indent.unitFrom unit rows = .ok found → IsUnit found := by
  -- Both at once: the next row is looked at with the unit found so far, which has to be one.
  induction rows generalizing unit with
  | nil =>
    refine ⟨rfl, fun found same => ?_⟩
    obtain rfl := Except.ok.inj same
    exact isUnit
  | cons row rows ih =>
    have agrees : Indent.agrees unit row.indent =
        (isIndentUnit row.indent && unit.all fun known => row.indent.head? == known.head?) := by
      cases unit <;> rfl
    rw [unitFrom, Indent.unitFrom]
    split
    · exact ih isUnit
    · rw [lift_bind (mixes_eq isUnit row.indent), ← Bool.not_and, ← agrees]
      cases agreed : Indent.agrees unit row.indent with
      | false => exact ⟨rfl, fun found failed => by cases failed⟩
      | true =>
        rw [agrees, Bool.and_eq_true] at agreed
        rw [shorter_eq isUnit agreed.1]
        exact ih (isUnit_shorter isUnit agreed.1)

/-- The unit of a source is found without a trap, and is never empty. -/
theorem unitOf_eq {config : Config} (valid : config.validate = .ok ()) (rows : List Row) :
    unitOf config rows = total (Indent.unitOf config rows) ∧
      ∀ found, Indent.unitOf config rows = .ok found → IsUnit found := by
  rw [unitOf, Indent.unitOf]
  cases given : config.sourceIndentationUnit with
  | none => exact unitFrom_eq (fun known mem => by cases mem) rows
  | some unit =>
    refine ⟨rfl, fun found same => ?_⟩
    obtain rfl := Except.ok.inj same
    rintro known ⟨⟩
    exact Config.isIndentUnit_of_given given valid

/-! ## Depth -/

/-- The number of units in an indentation. -/
def depth (unit : Option Text) (indent : Text) : Run Indent.Fault Nat :=
  if indent.isEmpty then return 0
  else
    match unit with
    | none => throw .unexpected
    | some unit =>
      if indent.any (· != unit.headD ' ') then throw .mixed
      else do
        let left ← mod indent.length unit.length
        if left ≠ 0 then throw (.ragged indent.length unit.length)
        else div indent.length unit.length

theorem length_ne_zero_of_isUnit {unit : Text} (isUnit : isIndentUnit unit = true) :
    unit.length ≠ 0 := by
  obtain ⟨c, rest, rfl, _⟩ := exists_cons_of_isIndentUnit isUnit
  exact Nat.succ_ne_zero _

/-- A depth is counted by dividing by the size of a unit, which is not zero. -/
theorem depth_eq {unit : Option Text} (isUnit : IsUnit unit) (indent : Text) :
    depth unit indent = total (Indent.depth unit indent) := by
  cases unit with
  | none =>
    rw [depth, Indent.depth]
    split <;> rfl
  | some unit =>
    have filled := length_ne_zero_of_isUnit (isUnit unit rfl)
    rw [depth, Indent.depth]
    split
    · rfl
    · split
      · rfl
      · rw [lift_bind (mod_of_ne_zero filled)]
        split
        · rfl
        · rw [div_of_ne_zero filled]
          rfl

/-- The number of whole units in an indentation. -/
def depthRounded (unit : Option Text) (indent : Text) : Checked Nat :=
  match unit with
  | none => .ok 0
  | some unit => div indent.length unit.length

/-- So is the depth of a comment, which is rounded. -/
theorem depthRounded_eq {unit : Option Text} (isUnit : IsUnit unit) (indent : Text) :
    depthRounded unit indent = .ok (Indent.depthRounded unit indent) := by
  cases unit with
  | none => rfl
  | some unit => exact div_of_ne_zero (length_ne_zero_of_isUnit (isUnit unit rfl))

/-! ## Lines -/

/-- The logical lines of a row. -/
def ofRow (keepComments : Bool) (unit : Option Text) (row : Row) : Run Error (List Line) :=
  if row.body.isEmpty then return []
  else
    match row.comment? with
    | some text =>
      if keepComments then do
        let depth ← depthRounded unit row.indent
        return [.comment depth text row.number]
      else return []
    | none => do
      let depth ← (depth unit row.indent).adapt fun fault => fault.error row.number
      return [.code depth (trimEnd (dropComment row.body)) row.number]

/-- The logical lines of rows, in order. -/
def ofRows (keepComments : Bool) (unit : Option Text) : List Row → Run Error (List Line)
  | [] => return []
  | row :: rows => do
    let line ← ofRow keepComments unit row
    let lines ← ofRows keepComments unit rows
    return line ++ lines

/-- The logical lines of a source. -/
def scan (config : Config) (source : Text) : Run Error (List Line) := do
  total config.validate
  let rows ← rowsOf source
  let unit ← unitOf config rows
  ofRows config.keepComments unit rows

/-- A row is read without a trap. -/
theorem ofRow_eq {unit : Option Text} (isUnit : IsUnit unit) (keepComments : Bool) (row : Row) :
    ofRow keepComments unit row = total (Line.ofRow keepComments unit row) := by
  rw [ofRow, Line.ofRow]
  split
  · rfl
  · cases row.comment? with
    | some text =>
      cases keepComments with
      | false => rfl
      | true => exact lift_bind (depthRounded_eq isUnit row.indent) _
    | none =>
      dsimp only
      rw [adapt_total _ (depth_eq isUnit row.indent)]
      cases Indent.depth unit row.indent <;> rfl

theorem ofRows_eq {unit : Option Text} (isUnit : IsUnit unit) (keepComments : Bool)
    (rows : List Row) :
    ofRows keepComments unit rows = total (Line.ofRows keepComments unit rows) := by
  induction rows with
  | nil => rfl
  | cons row rows ih =>
    refine total_bind (ofRow_eq isUnit keepComments row) fun line _ => ?_
    exact total_bind ih fun lines _ => rfl

/-- The lines of a source are read without a trap. -/
theorem scan_eq (config : Config) (source : Text) :
    scan config source = total (Line.scan config source) := by
  refine total_bind rfl fun _ valid => ?_
  rw [lift_bind (rowsOf_eq source)]
  obtain ⟨found, isUnit⟩ := unitOf_eq valid (Row.ofSource source)
  refine total_bind found fun unit known => ?_
  exact ofRows_eq (isUnit unit known) config.keepComments _

/-! ## Nodes -/

/-- The key and the value of a list item. -/
def splitItem (item : Text) : Checked (Option Text × Option Text) := do
  match ← cutAt ':' item with
  | some (before, after) =>
    if isIdentifier (trim before) || Node.isEnclosed (trim before) then
      return (some (trim before), nonBlank? after)
    else return (none, nonBlank? item)
  | none => return (none, nonBlank? item)

/-- The shape, the key and the value of a line of code. -/
def splitContent (content : Text) : Checked (Shape × Option Text × Option Text) :=
  match content with
  | ['-'] => .ok (.item, none, none)
  | '-' :: ' ' :: item => do
    let parts ← splitItem (trim item)
    return (.item, parts)
  | _ => do
    match ← cutAt ':' content with
    | some (before, after) => return (.keyed, some (trim before), nonBlank? after)
    | none => return (.bare, none, nonBlank? content)

/-- The node that a logical line makes. -/
def ofLine (line : Line) : Checked Node :=
  match line.kind with
  | .comment => .ok ⟨.unclassified, .comment, none, some line.content, line.number⟩
  | .code => do
    let (shape, key, value) ← splitContent line.content
    return ⟨.unclassified, shape, key, value, line.number⟩

/-- The mark of an item is cut off on a character boundary. -/
theorem splitItem_eq (item : Text) : splitItem item = .ok (Node.splitItem item) := by
  rw [splitItem, cutAt_eq rfl, ok_bind, Node.splitItem]
  cases cutAt? ':' item with
  | none => rfl
  | some parts =>
    dsimp only
    split <;> rfl

theorem splitContent_eq (content : Text) :
    splitContent content = .ok (Node.splitContent content) := by
  fun_cases splitContent content with
  | case1 => rfl
  | case2 item =>
    rw [splitItem_eq, ok_bind]
    rfl
  | case3 _ notDash notItem =>
    rw [cutAt_eq rfl, ok_bind, Node.splitContent]
    · cases cutAt? ':' content <;> rfl
    · exact notDash
    · exact notItem

theorem ofLine_eq (line : Line) : ofLine line = .ok (Node.ofLine line) := by
  rw [ofLine, Node.ofLine]
  cases line.kind with
  | comment => rfl
  | code =>
    dsimp only
    rw [splitContent_eq]
    rfl

/-! ## Nesting -/

/-- What is wrong with a line that is too deep below the open nodes. -/
def fault (state : Nest.State) (line : Line) : Checked Nest.Fault :=
  match state.stack with
  | [] => .ok .topLevel
  | (parent, _) :: _ => do
    let levels ← sub (line.depth + 1) state.stack.length
    return .jump levels parent.line

/-- The state after one more line. -/
def step (state : Nest.State) (line : Line) : Run Error Nest.State :=
  if line.isComment then do
    let node ← ofLine line
    return { state with pending := state.pending ++ [node] }
  else
    let closed := state.closeTo line.depth
    if closed.stack.length < line.depth then do
      let fault ← fault closed line
      throw (fault.error line.number)
    else do
      let node ← ofLine line
      return closed.enter node

/-- The forest of logical lines, if their depths nest. -/
def ofLines (lines : List Line) : Run Error (Forest Node) := do
  let state ← lines.foldlM step {}
  return state.finish

/-- The levels that a line jumps over are counted only where fewer nodes are open than its depth. -/
theorem fault_eq {state : Nest.State} {line : Line} (deep : state.stack.length < line.depth) :
    fault state line = .ok (state.fault line) := by
  rw [fault, Nest.State.fault]
  cases stack : state.stack with
  | nil => rfl
  | cons parent outer =>
    rw [stack] at deep
    dsimp only
    rw [sub_of_le (Nat.le_succ_of_le (Nat.le_of_lt deep))]
    rfl

/-- A line takes its place without a trap. -/
theorem step_eq (state : Nest.State) (line : Line) : step state line = total (state.step line) := by
  rw [step, Nest.State.step]
  split
  · rw [lift_bind (ofLine_eq line)]
    rfl
  · dsimp only
    split
    next deep =>
      rw [lift_bind (fault_eq deep)]
      rfl
    next =>
      rw [lift_bind (ofLine_eq line)]
      rfl

/-- Line after line takes its place without a trap. -/
theorem foldlM_step_eq (state : Nest.State) (lines : List Line) :
    lines.foldlM step state = total (lines.foldlM Nest.State.step state) := by
  induction lines generalizing state with
  | nil => rfl
  | cons line lines ih =>
    rw [List.foldlM_cons, List.foldlM_cons]
    exact total_bind (step_eq state line) fun next _ => ih next

theorem ofLines_eq (lines : List Line) : ofLines lines = total (Forest.ofLines lines) :=
  total_bind (foldlM_step_eq {} lines) fun _ _ => rfl

end Outline.Checked
