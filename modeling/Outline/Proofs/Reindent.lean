import Outline.Header.Edition
import Outline.Proofs.Alike
import Outline.Proofs.Written

/-!
# Forests written as sources

A forest is written as a source by writing each node on a row of its own, indented by any unit. That
a row writes a line is a relation of its own (`Line.WrittenAs`), and two facts meet there. What is
written for the lines of a scan writes them (`Forest.writtenAs_written`). Rows that write lines that
nest are scanned into lines that say the same: the first indented row is one level deep, so the unit
is found again (`Indent.exists_unitFrom`), and it measures every row (`Line.exists_ofRows`). So a
document can be indented anew: `compile_written`.
-/

set_option autoImplicit false

namespace Outline

namespace Indent

/-! ## The indentation of a depth -/

/-- The indentation of a depth. -/
def ofDepth (unit : Text) (depth : Nat) : Text := (List.replicate depth unit).flatten

theorem ofDepth_one (unit : Text) : ofDepth unit 1 = unit := List.append_nil unit

section

variable {unit : Text} (isUnit : Text.isIndentUnit unit = true)

include isUnit

/-- A unit is a run of one blank, and the indentation of a depth is a run of as many times that
width. -/
theorem exists_ofDepth_eq :
    ∃ c width, (c = ' ' ∨ c = '\t') ∧ 0 < width ∧ unit = List.replicate width c ∧
      ∀ depth, ofDepth unit depth = List.replicate (depth * width) c := by
  obtain ⟨c, width, kind, wide, rfl⟩ := Text.isIndentUnit_iff.mp isUnit
  exact ⟨c, width, kind, wide, rfl, fun depth => List.flatten_replicate_replicate⟩

theorem blank_of_mem_ofDepth {depth : Nat} : ∀ c ∈ ofDepth unit depth, c = ' ' ∨ c = '\t' := by
  obtain ⟨blank, width, kind, _, _, indent⟩ := exists_ofDepth_eq isUnit
  intro c mem
  rw [indent] at mem
  obtain rfl := List.eq_of_mem_replicate mem
  exact kind

/-- The depth can be read off its indentation. -/
theorem depth_ofDepth (depth : Nat) :
    Indent.depth (some unit) (ofDepth unit depth) = .ok depth := by
  obtain ⟨c, width, _, wide, same, indent⟩ := exists_ofDepth_eq isUnit
  cases depth with
  | zero => rfl
  | succ depth =>
    have filled : 0 < (depth + 1) * width := Nat.mul_pos (Nat.succ_pos depth) wide
    have first : unit.headD ' ' = c := by
      rw [same, ← Nat.succ_pred_eq_of_pos wide, List.replicate_succ]
      rfl
    have pure : ¬ (List.replicate ((depth + 1) * width) c).any (· != c) = true := by
      simp
    have whole : ¬ ((depth + 1) * width) % width ≠ 0 := by
      simp
    rw [indent, Indent.depth, if_neg (by simp; omega)]
    show (if _ then _ else if _ then _ else _) = _
    rw [first, if_neg pure, List.length_replicate, same, List.length_replicate, if_neg whole,
      Nat.mul_div_cancel _ wide]

/-- An indentation that is not empty agrees with its unit and is no shorter. -/
theorem agrees_ofDepth (depth : Nat) :
    (ofDepth unit (depth + 1)).isEmpty = false ∧
      agrees (some unit) (ofDepth unit (depth + 1)) = true ∧
      shorter (some unit) (ofDepth unit (depth + 1)) = unit := by
  obtain ⟨c, width, kind, wide, same, indent⟩ := exists_ofDepth_eq isUnit
  have wider : width ≤ (depth + 1) * width := Nat.le_mul_of_pos_left width (Nat.succ_pos depth)
  have filled : 0 < (depth + 1) * width := by omega
  refine ⟨?_, ?_, ?_⟩
  · rw [indent, List.isEmpty_replicate]
    simpa using Nat.ne_of_gt filled
  · have alike : (List.replicate ((depth + 1) * width) c).head? = unit.head? := by
      rw [same, List.head?_replicate, List.head?_replicate, if_neg (Nat.ne_of_gt filled),
        if_neg (Nat.ne_of_gt wide)]
    rw [agrees, indent, Text.isIndentUnit_iff.mpr ⟨c, _, kind, filled, rfl⟩, alike]
    simp
  · rw [shorter, indent, same, List.length_replicate, List.length_replicate]
    exact if_neg (Nat.not_lt.mpr wider)

end
end Indent

/-! ## Rows that write lines -/

/-- A row that writes a line. What a line says is said by its kind, its depth if it is code, and the
way its text is cut. -/
inductive Line.WrittenAs (unit : Text) (line : Line) (row : Row) : Prop where
  | code (kind : line.kind = .code) (indent : row.indent = Indent.ofDepth unit line.depth)
      (filled : row.body ≠ []) (unmarked : row.comment? = none)
      (respelled : Node.Respelled Node.splitContent line.content row.body)
  | comment (kind : line.kind = .comment) (text : row.comment? = some line.content)

namespace Row

theorem isCode_of_filled {row : Row} (filled : row.body ≠ []) (unmarked : row.comment? = none) :
    row.isCode = true := by
  rw [Row.isCode, unmarked, List.isEmpty_eq_false_iff.mpr filled]
  rfl

theorem isCode_of_comment {row : Row} {text : Text} (comment : row.comment? = some text) :
    row.isCode = false := by
  rw [Row.isCode, comment]
  simp

end Row

namespace Indent

/-- Rows without code or indentation do not count for the unit. -/
theorem unitFrom_cons_skip {row : Row} (skipped : row.isCode = false ∨ row.indent = [])
    (found : Option Text) (rows : List Row) :
    unitFrom found (row :: rows) = unitFrom found rows := by
  rw [unitFrom, if_pos]
  rcases skipped with notCode | unindented
  · rw [notCode]
    rfl
  · rw [unindented]
    simp

/-- A row whose indentation agrees makes the unit shorter, or leaves it. -/
theorem unitFrom_cons_code {row : Row} (code : row.isCode = true)
    (indented : row.indent.isEmpty = false) {found : Option Text}
    (agree : agrees found row.indent = true) (rows : List Row) :
    unitFrom found (row :: rows) = unitFrom (some (shorter found row.indent)) rows := by
  rw [unitFrom, if_neg (by rw [code, indented]; decide), if_pos agree]

section

variable {unit : Text} (isUnit : Text.isIndentUnit unit = true)

include isUnit

/-- Once the unit is found, no row that is written with it changes it. -/
theorem unitFrom_some {lines : List Line} {rows : List Row}
    (written : List.Forall₂ (Line.WrittenAs unit) lines rows) :
    unitFrom (some unit) rows = .ok (some unit) := by
  induction written with
  | nil => rfl
  | @cons line row lines rows here _ ih =>
    cases here with
    | comment _ text => rw [unitFrom_cons_skip (.inl (Row.isCode_of_comment text)), ih]
    | code _ indent filled unmarked _ =>
      cases level : line.depth with
      | zero =>
        rw [level] at indent
        rw [unitFrom_cons_skip (.inr indent), ih]
      | succ depth =>
        obtain ⟨indented, agree, shortest⟩ := agrees_ofDepth isUnit depth
        rw [level] at indent
        rw [← indent] at indented agree shortest
        rw [unitFrom_cons_code (Row.isCode_of_filled filled unmarked) indented agree, shortest, ih]

/-- The unit found in rows that nest measures them. Up to the first indented row there is none, and
that row is one level deep, so its indentation is the unit. -/
theorem exists_unitFrom {lines : List Line} {rows : List Row} {previous : Option Line}
    (written : List.Forall₂ (Line.WrittenAs unit) lines rows)
    (rule : Nest.RuleAfter previous (Nest.codeLines lines))
    (top : ∀ above ∈ previous, above.depth = 0) :
    ∃ found, unitFrom none rows = .ok found ∧
      ∀ line ∈ lines, line.kind = .code →
        Indent.depth found (ofDepth unit line.depth) = .ok line.depth := by
  induction written generalizing previous with
  | nil => exact ⟨none, rfl, nofun⟩
  | @cons line row lines rows here later ih =>
    cases here with
    | comment kind text =>
      rw [Nest.codeLines_cons_comment (Line.isComment_iff.mpr kind)] at rule
      obtain ⟨found, isFound, measures⟩ := ih rule top
      refine ⟨found, ?_, ?_⟩
      · rw [unitFrom_cons_skip (.inl (Row.isCode_of_comment text)), isFound]
      · intro other mem code
        rcases List.mem_cons.mp mem with rfl | inLines
        · rw [kind] at code
          cases code
        · exact measures other inLines code
    | code kind indent filled unmarked _ =>
      rw [Nest.codeLines_cons_code (Line.isComment_eq_false_iff.mpr kind),
        Nest.ruleAfter_cons] at rule
      obtain ⟨follows, rule⟩ := rule
      cases level : line.depth with
      | zero =>
        rw [level] at indent
        have top : ∀ above ∈ some line, above.depth = 0 := by
          rintro above ⟨⟩
          exact level
        obtain ⟨found, isFound, measures⟩ := ih rule top
        refine ⟨found, ?_, ?_⟩
        · rw [unitFrom_cons_skip (.inr indent), isFound]
        · intro other mem code
          rcases List.mem_cons.mp mem with rfl | inLines
          · rw [level]
            rfl
          · exact measures other inLines code
      | succ depth =>
        -- The first indented line is one level below the top, so its indentation is the unit.
        have one : line.depth = 1 := by
          cases previous with
          | none =>
            have : line.depth = 0 := follows
            omega
          | some above =>
            have : line.depth ≤ above.depth + 1 := follows
            have := top above rfl
            omega
        have indented := (agrees_ofDepth isUnit 0).1
        rw [one] at indent
        rw [Nat.zero_add, ofDepth_one] at indented
        rw [ofDepth_one] at indent
        have agree : agrees none row.indent = true := by
          rw [agrees, indent, isUnit]
          rfl
        rw [← indent] at indented
        refine ⟨some unit, ?_, fun other _ _ => depth_ofDepth isUnit other.depth⟩
        rw [unitFrom_cons_code (Row.isCode_of_filled filled unmarked) indented agree, shorter,
          indent, unitFrom_some isUnit later]

end
end Indent

namespace Line

/-! ## Lines read back -/

theorem trimEnd_dropComment_of_respelled {α : Type} {cut : Text → α} {content text : Text}
    (respelled : Node.Respelled cut content text) :
    Text.trimEnd (Text.dropComment text) = text := by
  rw [respelled.commentFree, Text.trimEnd_eq_self respelled.trimmed.back]

/-- A row that writes a line makes one that says the same. -/
theorem WrittenAs.ofRow {unit : Text} {line : Line} {row : Row} (written : WrittenAs unit line row)
    {keep : Bool} {found : Option Text}
    (measured : line.kind = .code →
      Indent.depth found (Indent.ofDepth unit line.depth) = .ok line.depth)
    (kept : line.kind = .comment → keep = true) :
    ∃ other, Line.ofRow keep found row = .ok [other] ∧ Alike line other := by
  cases written with
  | code kind indent filled unmarked respelled =>
    refine ⟨.code line.depth row.body row.number, ?_, kind.symm, fun _ => rfl, ?_⟩
    · rw [Line.ofRow, if_neg (by rw [List.isEmpty_eq_false_iff.mpr filled]; decide), unmarked,
        indent, measured kind]
      simp only [trimEnd_dropComment_of_respelled respelled]
    · simp only [Node.ofLine, Line.code, Node.unnumbered, kind, respelled.same]
  | comment kind text =>
    obtain ⟨rest, body, _⟩ := Row.trim_comment text
    refine ⟨.comment (Indent.depthRounded found row.indent) line.content row.number, ?_,
      kind.symm, ?_, ?_⟩
    · rw [Line.ofRow, if_neg (by rw [body]; exact Bool.false_ne_true), text, kept kind]
      rfl
    · intro code
      rw [kind] at code
      cases code
    · simp only [Node.ofLine, Line.comment, Node.unnumbered, kind]

/-- Rows that write lines make lines that say the same. -/
theorem exists_ofRows {unit : Text} {lines : List Line} {rows : List Row}
    (written : List.Forall₂ (WrittenAs unit) lines rows) {keep : Bool} {found : Option Text}
    (measured : ∀ line ∈ lines, line.kind = .code →
      Indent.depth found (Indent.ofDepth unit line.depth) = .ok line.depth)
    (kept : ∀ line ∈ lines, line.kind = .comment → keep = true) :
    ∃ others, Line.ofRows keep found rows = .ok others ∧ List.Forall₂ Alike lines others := by
  induction written with
  | nil => exact ⟨[], rfl, .nil⟩
  | @cons line row lines rows here _ ih =>
    obtain ⟨other, made, alike⟩ :=
      here.ofRow (measured line List.mem_cons_self) (kept line List.mem_cons_self)
    obtain ⟨others, later, allAlike⟩ :=
      ih (fun next mem => measured next (List.mem_cons_of_mem _ mem))
        (fun next mem => kept next (List.mem_cons_of_mem _ mem))
    refine ⟨other :: others, ?_, .cons alike allAlike⟩
    rw [ofRows, made, later]
    rfl

end Line

/-! ## Forests written as sources -/

/-- The row of a node at a level. -/
def Node.rowText (unit : Text) (label : Nat × Node) : Text :=
  Indent.ofDepth unit label.1 ++ label.2.written

/-- A forest as a source: each node on a row of its own, after as many units as it has ancestors. -/
def Forest.written (unit : Text) (forest : Forest Node) : Text :=
  ((forest.levels 0).map (Node.rowText unit)).flatMap (· ++ ['\n'])

namespace Row

/-- A row is its indentation and its text, without the blanks behind it. -/
theorem ofText_append {indent text : Text} (blank : ∀ c ∈ indent, Text.isBlank c = true)
    (front : ∀ c ∈ text.head?, Text.isBlank c = false) (number : Nat) :
    ofText number (indent ++ text) = ⟨number, indent, Text.trimEnd text⟩ := by
  have none : text.takeWhile Text.isBlank = [] := by
    cases text with
    | nil => rfl
    | cons c rest => exact List.takeWhile_cons_of_neg (by rw [front c rfl]; decide)
  rw [ofText, List.takeWhile_append_of_pos blank, none, List.append_nil, Text.trim,
    Text.trimStart_append blank, Text.trimStart_eq_self front]

theorem ofSource_of_not_mem {source : Text} (unmarked : '\ufeff' ∉ source) :
    ofSource source =
      (Text.lines source).zipIdx.map fun (s, index) => ofText (index + 1) s := by
  unfold ofSource
  split
  next rest => exact absurd List.mem_cons_self unmarked
  next => rfl

end Row

namespace Line

theorem written_of_code {line : Line} (kind : line.kind = .code) :
    (Node.ofLine line).written = Node.shapeText (Node.splitContent line.content) := by
  rw [Node.ofLine, kind]
  rfl

theorem written_of_comment {line : Line} (kind : line.kind = .comment) :
    (Node.ofLine line).written = commentMark :: ' ' :: line.content := by
  rw [Node.ofLine, kind]
  rfl

section

variable {line : Line} (clean : line.Clean)

include clean

/-- The node of a clean line, written out, says what the line says. -/
theorem Clean.respelled (kind : line.kind = .code) :
    Node.Respelled Node.splitContent line.content (Node.ofLine line).written := by
  rw [written_of_code kind]
  exact Node.respelled_written clean.trimmed (clean.nonempty kind) (clean.commentFree kind)

/-- A written node has the characters of its line, and blanks and marks of comments perhaps. -/
theorem Clean.mem_written : ∀ c ∈ (Node.ofLine line).written,
    c ∈ line.content ∨ c = ' ' ∨ c = commentMark := by
  intro c mem
  cases kind : line.kind with
  | code => exact ((clean.respelled kind).chars c mem).imp id .inl
  | comment =>
    rw [written_of_comment kind] at mem
    rcases List.mem_cons.mp mem with mark | mem
    · exact .inr (.inr mark)
    rcases List.mem_cons.mp mem with blank | inText
    · exact .inr (.inl blank)
    · exact .inl inText

theorem Clean.getLast?_written : (Node.ofLine line).written.getLast? ≠ some '\r' := by
  intro last
  cases kind : line.kind with
  | code => exact absurd ((clean.respelled kind).trimmed.back _ last) (by decide)
  | comment =>
    rw [written_of_comment kind, List.getLast?_cons, List.getLast?_cons] at last
    cases text : line.content.getLast? with
    | none =>
      rw [text] at last
      exact absurd (Option.some.inj last) (by decide)
    | some c =>
      rw [text] at last
      obtain rfl := Option.some.inj last
      exact absurd (clean.trimmed.back _ text) (by decide)

/-- What is written for a line is a row that writes it. -/
theorem Clean.writtenAs {unit : Text} (isUnit : Text.isIndentUnit unit = true) {depth : Nat}
    (level : line.kind = .code → depth = line.depth) (number : Nat) :
    WrittenAs unit line (Row.ofText number (Node.rowText unit (depth, Node.ofLine line))) := by
  have blank : ∀ c ∈ Indent.ofDepth unit depth, Text.isBlank c = true := by
    intro c mem
    rcases Indent.blank_of_mem_ofDepth isUnit c mem with rfl | rfl <;> decide
  cases kind : line.kind with
  | code =>
    have respelled := clean.respelled kind
    obtain rfl := level kind
    rw [Node.rowText, Row.ofText_append blank respelled.trimmed.front,
      Text.trimEnd_eq_self respelled.trimmed.back]
    refine .code kind rfl ?_ (Row.comment?_eq_none_iff.mpr ?_) respelled
    · intro empty
      have head := respelled.head
      rw [show (Node.ofLine line).written = [] from empty] at head
      exact clean.nonempty kind (List.head?_eq_none_iff.mp head.symm)
    · show (Node.ofLine line).written.head? ≠ _
      rw [respelled.head]
      exact clean.unmarked kind
  | comment =>
    have ink : ∀ c ∈ (commentMark :: ' ' :: line.content).head?, Text.isBlank c = false := by
      rintro c ⟨⟩
      decide
    refine .comment kind ?_
    rw [Node.rowText, written_of_comment kind, Row.ofText_append blank ink]
    by_cases empty : line.content = []
    · rw [empty]
      rfl
    · -- The text is not empty, so its end is the end of the row.
      have whole : Text.trimEnd (commentMark :: ' ' :: line.content) =
          commentMark :: ' ' :: line.content := by
        refine Text.trimEnd_eq_self ?_
        have isLast := List.getLast?_eq_some_getLast empty
        rw [List.getLast?_cons, List.getLast?_cons, isLast]
        rintro c ⟨⟩
        exact clean.trimmed.back _ isLast
      have lead : ∀ c ∈ [' '], Text.isBlank c = true := List.forall_mem_singleton.mpr (by decide)
      rw [whole]
      exact congrArg some (Text.trim_append lead clean.trimmed)

end

/-- The rows of lines write them. -/
theorem forall₂_writtenAs {unit : Text} (isUnit : Text.isIndentUnit unit = true) {lines : List Line}
    (clean : ∀ line ∈ lines, line.Clean) (start : Nat) :
    List.Forall₂ (WrittenAs unit) lines
      ((((Nest.placed lines).map (Node.rowText unit)).zipIdx start).map
        fun (s, index) => Row.ofText (index + 1) s) := by
  induction lines generalizing start with
  | nil => exact .nil
  | cons line lines ih =>
    refine .cons ((clean line List.mem_cons_self).writtenAs isUnit ?_ (start + 1))
      (ih (fun other mem => clean other (List.mem_cons_of_mem _ mem)) (start + 1))
    intro kind
    rw [Nest.nextDepth, if_neg]
    rw [isComment_eq_false_iff.mpr kind]
    decide

end Line

/-- A character of a written row is a character of a line, or one that writing adds. -/
theorem Nest.mem_rowText {unit : Text} (isUnit : Text.isIndentUnit unit = true) {lines : List Line}
    (clean : ∀ line ∈ lines, line.Clean) {row : Text}
    (mem : row ∈ (Nest.placed lines).map (Node.rowText unit)) :
    row.getLast? ≠ some '\r' ∧
      ∀ c ∈ row, (∃ line ∈ lines, c ∈ line.content) ∨ c = ' ' ∨ c = '\t' ∨ c = commentMark := by
  obtain ⟨label, placed, rfl⟩ := List.mem_map.mp mem
  have isNode : label.2 ∈ lines.map Node.ofLine := by
    rw [← Nest.map_snd_placed]
    exact List.mem_map_of_mem placed
  obtain ⟨line, inLines, same⟩ := List.mem_map.mp isNode
  rw [Node.rowText, ← same]
  constructor
  · intro last
    rw [List.getLast?_append, Option.or_eq_some_iff] at last
    rcases last with inText | ⟨_, inIndent⟩
    · exact (clean line inLines).getLast?_written inText
    · have := Indent.blank_of_mem_ofDepth isUnit _ (List.mem_of_getLast? inIndent)
      exact absurd this (by decide)
  · intro c inRow
    rcases List.mem_append.mp inRow with inIndent | inText
    · rcases Indent.blank_of_mem_ofDepth isUnit c inIndent with space | tab
      · exact .inr (.inl space)
      · exact .inr (.inr (.inl tab))
    · rcases (clean line inLines).mem_written c inText with inContent | space | mark
      · exact .inl ⟨line, inLines, inContent⟩
      · exact .inr (.inl space)
      · exact .inr (.inr (.inr mark))

section

variable {config : Config} {source : Text} {lines : List Line} {forest : Forest Node}

/-- The rows of a forest written as a source write the lines that the forest was made from. -/
theorem Forest.writtenAs_written (unmarked : '\ufeff' ∉ source)
    (scanned : Line.scan config source = .ok lines) (nested : Forest.ofLines lines = .ok forest)
    {unit : Text} (isUnit : Text.isIndentUnit unit = true) :
    List.Forall₂ (Line.WrittenAs unit) lines (Row.ofSource (forest.written unit)) := by
  have clean : ∀ line ∈ lines, line.Clean := fun line mem => (Line.clean_of_mem_scan scanned mem).1
  have levels := Nest.levels_of_ofLines nested
  have chars : ∀ row ∈ (Nest.placed lines).map (Node.rowText unit), ∀ c ∈ row,
      c ≠ '\ufeff' ∧ c ≠ '\n' := by
    intro row inRows c inRow
    rcases (Nest.mem_rowText isUnit clean inRows).2 c inRow with
      ⟨line, inLines, inContent⟩ | rfl | rfl | rfl
    · have inSource := (Line.clean_of_mem_scan scanned inLines).2 c inContent
      refine ⟨?_, ?_⟩
      · rintro rfl
        exact unmarked inSource
      · rintro rfl
        exact (clean line inLines).oneRow inContent
    all_goals decide
  have rowsUnmarked : '\ufeff' ∉ forest.written unit := by
    intro mem
    rw [Forest.written, levels, List.mem_flatMap] at mem
    obtain ⟨row, inRows, inRow⟩ := mem
    rcases List.mem_append.mp inRow with inText | feed
    · exact (chars row inRows _ inText).1 rfl
    · exact absurd feed (by decide)
  have readBack :
      Text.lines (forest.written unit) = (Nest.placed lines).map (Node.rowText unit) := by
    rw [Forest.written, levels]
    refine Text.lines_flatMap ?_
    intro row inRows
    exact ⟨fun feed => (chars row inRows _ feed).2 rfl, (Nest.mem_rowText isUnit clean inRows).1⟩
  rw [Row.ofSource_of_not_mem rowsUnmarked, readBack]
  exact Line.forall₂_writtenAs isUnit clean 0

/-- Re-indentation. A forest written as a source with any unit is read back as the same forest, and
makes the same code or the same error, but for line numbers. The unit is not given: it is found in
the rows. -/
theorem compile_written [Letters] (unmarked : '\ufeff' ∉ source)
    (undetermined : config.sourceIndentationUnit = none)
    (scanned : Line.scan config source = .ok lines) (nested : Forest.ofLines lines = .ok forest)
    {unit : Text} (isUnit : Text.isIndentUnit unit = true) :
    (∃ others same, Line.scan config (forest.written unit) = .ok others ∧
        Forest.ofLines others = .ok same ∧
        same.map Node.unnumbered = forest.map Node.unnumbered) ∧
      (compile config (forest.written unit)).mapError Error.unnumbered =
        (compile config source).mapError Error.unnumbered := by
  have written := Forest.writtenAs_written unmarked scanned nested isUnit
  have valid := (Line.scan_eq_ok_iff.mp scanned).1
  have rule : Nest.RuleAfter none (Nest.codeLines lines) :=
    (Nest.ofLines_eq_ok_iff.mp nested).1
  obtain ⟨found, isFound, measures⟩ := Indent.exists_unitFrom isUnit written rule nofun
  obtain ⟨others, made, alike⟩ := Line.exists_ofRows written measures
    fun line mem comment => Line.keepComments_of_mem_scan scanned mem comment
  have detected : Indent.unitOf config (Row.ofSource (forest.written unit)) = .ok found := by
    rw [Indent.unitOf, undetermined]
    exact isFound
  have rescanned : Line.scan config (forest.written unit) = .ok others :=
    Line.scan_eq_ok_iff.mpr ⟨valid, found, detected, made⟩
  obtain ⟨same, renested, equal⟩ := Forest.ofLines_of_alike alike nested
  refine ⟨⟨others, same, rescanned, renested, equal⟩, ?_⟩
  rw [compile_eq_code rescanned renested, compile_eq_code scanned nested, ← unnumbered_id,
    ← unnumbered_id, ← Forest.code_unnumbered, ← Forest.code_unnumbered, equal]

end

/-- Blanks before a colon, a comment at the end of a row, and a quoted key that holds both marks. -/
theorem compile_written_tabs :
    let config : Config := { keepComments := true }
    let source := "if 1 < 2 :\n   # note\n   x:\n      - \"a: #\" :1 # end\n".toList
    let written := "if 1 < 2:\n\t# note\n\tx:\n\t\t- \"a: #\": 1\n".toList
    ∃ lines forest, Line.scan config source = .ok lines ∧ Forest.ofLines lines = .ok forest ∧
      forest.written ['\t'] = written ∧
      (∃ others same, Line.scan config written = .ok others ∧ Forest.ofLines others = .ok same ∧
        same.map Node.unnumbered = forest.map Node.unnumbered) ∧
      (compile config written).mapError Error.unnumbered =
        (compile config source).mapError Error.unnumbered := by
  intro config source written
  let lines : List Line :=
    [.code 0 "if 1 < 2 :".toList 1, .comment 1 "note".toList 2, .code 1 "x:".toList 3,
      .code 2 "- \"a: #\" :1".toList 4]
  let forest : Forest Node := .ofLevels (Nest.placed lines)
  have scanned : Line.scan config source = .ok lines := eq_ok_of_toOption (by decide +kernel)
  have nested : Forest.ofLines lines = .ok forest := eq_ok_of_toOption (by decide +kernel)
  have asWritten : forest.written ['\t'] = written := by decide +kernel
  have isUnit : Text.isIndentUnit ['\t'] = true := by decide
  have again := compile_written (by decide) rfl scanned nested isUnit
  rw [asWritten] at again
  exact ⟨lines, forest, scanned, nested, asWritten, again⟩

end Outline
