import Outline.Proofs.Statement

/-!
# What the block style changes

The colon style writes each statement where it stands, a header with a colon (`Forest.colonLines`).
The brace style writes the same lines with other punctuation. `CodeLine.unbraced?` takes that
punctuation away again, and `Braces.run` follows the blocks that are open from line to line. Laying
out a program keeps both in step with the colon style (`Buffer.layout_brace`): a header that takes
the place of a closing brace takes the place of the one that closed the block it continues.
-/

set_option autoImplicit false

namespace Outline

open Grammar

/-! ## The colon style -/

/-- The lines of statements in the colon style. -/
def Forest.colonLines (depth : Nat) : Forest Statement → List CodeLine
  | .nil => []
  | .cons statement body rest =>
    match statement.form with
    | .plain => ⟨depth, statement.text⟩ :: rest.colonLines depth
    | .header | .continuation =>
      ⟨depth, statement.text ++ [':']⟩ :: (body.colonLines (depth + 1) ++ rest.colonLines depth)

/-- The lines of two forests side by side are those of the first and then those of the second. -/
theorem Forest.colonLines_append (depth : Nat) (left right : Forest Statement) :
    (left.append right).colonLines depth = left.colonLines depth ++ right.colonLines depth := by
  induction left with
  | nil => rfl
  | cons statement body rest _ ih =>
    rw [Forest.append, colonLines, colonLines]
    cases statement.form <;> simp [ih]

/-- In the colon style, laying out appends the lines of the statements. -/
theorem Buffer.toList_layout_colonIndent (depth : Nat) (statements : Forest Statement)
    (buffer : Buffer) :
    (layout .colonIndent depth statements buffer).toList =
      buffer.toList ++ statements.colonLines depth := by
  induction statements generalizing depth buffer with
  | nil => rw [layout, Forest.colonLines, List.append_nil]
  | cons statement body rest ihBody ihRest =>
    rw [layout, Forest.colonLines]
    cases form : statement.form with
    | plain => simp [ihRest]
    | header | continuation =>
      simp [ihRest, ihBody, openBlock, closeBlock, BlockStyle.closing?, BlockStyle.opened, form]

theorem Program.lines_colonIndent (program : Program) :
    program.lines .colonIndent = program.statements.colonLines 0 := by
  rw [Program.lines, Buffer.toList_layout_colonIndent]
  rfl

theorem Program.code_eq (program : Program) (config : Config) :
    program.code config =
      (program.lines config.blockStyle).flatMap (Buffer.renderLine config.indentationUnit) := rfl

/-! ## Braces of a line -/

namespace CodeLine

/-- Whether a line is a comment. -/
def isComment (line : CodeLine) : Bool := line.text.head? == some '#'

/-- Whether a line closes a block: it is a closing brace, or starts with one and a blank. -/
def closes (line : CodeLine) : Bool :=
  line.text == ['}'] || (Text.after? ['}', ' '] line.text).isSome

/-- Whether a line ends with a blank and an opening brace. -/
def opens (line : CodeLine) : Bool := line.text.reverse.take 2 == ['{', ' ']

/-- The line without its braces: a closing brace alone is deleted, a leading one is dropped with
the blank after it, and an opening one at the end becomes a colon. A comment stays. -/
def unbraced? (line : CodeLine) : Option CodeLine :=
  if line.text = ['}'] then none
  else if line.isComment then some line
  else
    let text := (Text.after? ['}', ' '] line.text).getD line.text
    some ⟨line.depth, if line.opens then text.dropLast.dropLast ++ [':'] else text⟩

end CodeLine

namespace Braces

/-- The depths of the open blocks, innermost first, after a line that closes one of the depth: it
must be the innermost. -/
def close (depth : Nat) : List Nat → Option (List Nat)
  | [] => none
  | innermost :: outer => if innermost = depth then some outer else none

/-- The depths of the open blocks, innermost first, after one more line. -/
def step (opened : List Nat) (line : CodeLine) : Option (List Nat) :=
  if line.isComment then some opened
  else do
    let opened ← if line.closes then close line.depth opened else some opened
    return if line.opens then line.depth :: opened else opened

/-- The depths of the open blocks after lines, if each closing brace closes the innermost block and
is at the depth of the line that opened it. -/
def run (lines : List CodeLine) : Option (List Nat) := lines.foldlM step []

/-- One more line moves the open blocks on. -/
theorem run_concat {lines : List CodeLine} {opened : List Nat} (state : run lines = some opened)
    (line : CodeLine) : run (lines ++ [line]) = step opened line := by
  rw [run, List.foldlM_append]
  show (run lines >>= _) = _
  rw [state]
  show (step opened line >>= fun next => some next) = _
  cases step opened line <;> rfl

/-- Before the last line, each closing brace had its block already. -/
theorem exists_of_run_concat {lines : List CodeLine} {line : CodeLine} {opened : List Nat}
    (state : run (lines ++ [line]) = some opened) :
    ∃ before, run lines = some before ∧ step before line = some opened := by
  cases first : run lines with
  | none =>
    rw [run, List.foldlM_append] at state
    change (run lines >>= _) = _ at state
    rw [first] at state
    cases state
  | some before =>
    rw [run_concat first] at state
    exact ⟨before, rfl, state⟩

end Braces

namespace CodeLine

section

variable {depth : Nat} {text : Text}

/-- A line that does not end with an opening brace opens no block. -/
theorem not_opens_of_getLast? (last : text.getLast? ≠ some '{') : opens ⟨depth, text⟩ = false := by
  rw [opens]
  cases ends : text.reverse with
  | nil => rfl
  | cons c rest =>
    have isLast : text.getLast? = some c := by rw [← List.head?_reverse, ends, List.head?_cons]
    have differ : c ≠ '{' := by
      rintro rfl
      exact last isLast
    cases rest <;> simp [differ]

theorem opens_header (front : Text) : opens ⟨depth, front ++ [' ', '{']⟩ = true := by
  simp [opens]

/-- What a text that starts as a name does is not: a comment, or a closing brace. -/
theorem plain_of_startsName [Letters] (start : StartsName text) (depth : Nat) :
    isComment ⟨depth, text⟩ = false ∧ text ≠ ['}'] ∧ Text.after? ['}', ' '] text = none := by
  obtain ⟨c, rest, rfl, first⟩ := start
  have mark : isNameStart '#' = false := (isNameStart_of_lt (by decide)).trans (by decide)
  have brace : isNameStart '}' = false := (isNameStart_of_lt (by decide)).trans (by decide)
  have notMark : c ≠ '#' := by
    rintro rfl
    rw [mark] at first
    cases first
  have notBrace : c ≠ '}' := by
    rintro rfl
    rw [brace] at first
    cases first
  refine ⟨?_, ?_, ?_⟩
  · simp [isComment, notMark]
  · intro same
    exact notBrace (List.cons.inj same).1
  · rw [Text.after?, if_neg (Ne.symm notBrace)]

end

/-! ## The lines that the brace style writes -/

section

variable {statement : Statement}

/-- A sound plain statement has no braces to take off. -/
theorem unbraced?_plain [Letters] (sound : statement.Sound) (plain : statement.form = .plain)
    (depth : Nat) : unbraced? ⟨depth, statement.text⟩ = some ⟨depth, statement.text⟩ := by
  rcases sound.kind with ⟨_, mark⟩ | ⟨start, noBrace⟩
  · have notBrace : statement.text ≠ ['}'] := by
      intro same
      rw [same] at mark
      exact absurd mark (by decide)
    simp [unbraced?, notBrace, isComment, mark]
  · obtain ⟨notComment, notBrace, noLead⟩ := plain_of_startsName start depth
    simp [unbraced?, notBrace, notComment, noLead, not_opens_of_getLast? (noBrace plain)]

/-- A sound plain statement neither opens nor closes a block. -/
theorem step_plain [Letters] (sound : statement.Sound) (plain : statement.form = .plain)
    (depth : Nat)
    (opened : List Nat) : Braces.step opened ⟨depth, statement.text⟩ = some opened := by
  rcases sound.kind with ⟨_, mark⟩ | ⟨start, noBrace⟩
  · simp [Braces.step, isComment, mark]
  · obtain ⟨notComment, notBrace, noLead⟩ := plain_of_startsName start depth
    simp [Braces.step, notComment, closes, notBrace, noLead, not_opens_of_getLast? (noBrace plain)]

theorem unbraced?_closing (depth : Nat) : unbraced? ⟨depth, ['}']⟩ = none := rfl

/-- A closing brace closes the innermost block, which has its depth. -/
theorem step_closing_iff {depth : Nat} {before opened : List Nat} :
    Braces.step before ⟨depth, ['}']⟩ = some opened ↔ before = depth :: opened := by
  have asClose : Braces.step before ⟨depth, ['}']⟩ = Braces.close depth before := by
    show (Braces.close depth before >>= fun opened => some opened) = _
    cases Braces.close depth before <;> rfl
  rw [asClose]
  cases before with
  | nil => simp [Braces.close]
  | cons innermost outer =>
    rw [Braces.close, List.cons.injEq]
    by_cases same : innermost = depth
    · simp [same]
    · simp [same]

/-- A header as the brace style writes it, with or without the closing brace of the block that it
continues. -/
theorem unbraced?_header [Letters] (start : StartsName statement.text) (depth : Nat) :
    unbraced? ⟨depth, statement.text ++ [' ', '{']⟩ = some ⟨depth, statement.text ++ [':']⟩ ∧
      unbraced? ⟨depth, ['}'] ++ ' ' :: (statement.text ++ [' ', '{'])⟩ =
        some ⟨depth, statement.text ++ [':']⟩ := by
  have joined : ['}'] ++ ' ' :: (statement.text ++ [' ', '{']) =
      (['}', ' '] ++ statement.text) ++ [' ', '{'] := by simp
  obtain ⟨notComment, notBrace, noLead⟩ :=
    plain_of_startsName (start.append [' ', '{']) depth
  constructor
  · simp [unbraced?, notBrace, notComment, noLead, opens_header]
  · have lead : Text.after? ['}', ' '] (['}'] ++ ' ' :: (statement.text ++ [' ', '{'])) =
        some (statement.text ++ [' ', '{']) := Text.after?_eq_some_iff.mpr rfl
    have opens : opens ⟨depth, ['}'] ++ ' ' :: (statement.text ++ [' ', '{'])⟩ = true := by
      rw [joined]
      exact opens_header _
    rw [unbraced?, if_neg (by simp), if_neg (by simp [isComment]), lead, opens]
    simp

/-- A header opens a block, and behind a closing brace it takes the place of the one it closes. -/
theorem step_header [Letters] (start : StartsName statement.text) (depth : Nat)
    (opened : List Nat) :
    Braces.step opened ⟨depth, statement.text ++ [' ', '{']⟩ = some (depth :: opened) ∧
      Braces.step (depth :: opened) ⟨depth, ['}'] ++ ' ' :: (statement.text ++ [' ', '{'])⟩ =
        some (depth :: opened) := by
  have joined : ['}'] ++ ' ' :: (statement.text ++ [' ', '{']) =
      (['}', ' '] ++ statement.text) ++ [' ', '{'] := by simp
  obtain ⟨notComment, notBrace, noLead⟩ :=
    plain_of_startsName (start.append [' ', '{']) depth
  constructor
  · simp [Braces.step, notComment, closes, notBrace, noLead, opens_header]
  · have opens : opens ⟨depth, ['}'] ++ ' ' :: (statement.text ++ [' ', '{'])⟩ = true := by
      rw [joined]
      exact opens_header _
    have closes : closes ⟨depth, ['}'] ++ ' ' :: (statement.text ++ [' ', '{'])⟩ = true := by
      have lead : Text.after? ['}', ' '] (['}'] ++ ' ' :: (statement.text ++ [' ', '{'])) =
          some (statement.text ++ [' ', '{']) := Text.after?_eq_some_iff.mpr rfl
      rw [CodeLine.closes, lead]
      simp
    rw [Braces.step, if_neg (by simp [isComment]), closes, opens]
    simp [Braces.close]

end

end CodeLine

/-! ## The brace style -/

namespace Buffer

/-- What is taken back is the last line. -/
theorem toList_of_popIfLast? {buffer shorter : Buffer} {depth : Nat} {text : Text}
    (popped : buffer.popIfLast? depth text = some shorter) :
    buffer.toList = shorter.toList ++ [⟨depth, text⟩] := by
  rw [popIfLast?] at popped
  split at popped
  next => cases popped
  next last rest newest =>
    split at popped
    next same =>
      obtain rfl := Option.some.inj popped
      rw [toList, newest, List.reverse_cons, same]
      rfl
    next => cases popped

/-- The header of a block adds the colon style's line, and one open block. -/
theorem openBlock_brace [Letters] {statement : Statement} (opens : statement.form ≠ .plain)
    (sound : statement.Sound) {buffer : Buffer} {opened : List Nat}
    (state : Braces.run buffer.toList = some opened) (depth : Nat) :
    (openBlock .brace depth statement buffer).toList.filterMap CodeLine.unbraced? =
        buffer.toList.filterMap CodeLine.unbraced? ++ [⟨depth, statement.text ++ [':']⟩] ∧
      Braces.run (openBlock .brace depth statement buffer).toList = some (depth :: opened) := by
  have start : StartsName statement.text := by
    rcases sound.kind with ⟨plain, _⟩ | ⟨start, _⟩
    · exact absurd plain opens
    · exact start
  have pushed : (buffer.push depth (statement.text ++ [' ', '{'])).toList.filterMap
        CodeLine.unbraced? =
        buffer.toList.filterMap CodeLine.unbraced? ++ [⟨depth, statement.text ++ [':']⟩] ∧
      Braces.run (buffer.push depth (statement.text ++ [' ', '{'])).toList =
        some (depth :: opened) := by
    rw [toList_push, List.filterMap_append, Braces.run_concat state,
      (CodeLine.step_header start depth opened).1]
    refine ⟨?_, rfl⟩
    rw [List.filterMap_cons, (CodeLine.unbraced?_header start depth).1, List.filterMap_nil]
  cases form : statement.form with
  | plain => exact absurd form opens
  | header =>
    rw [openBlock, form]
    exact pushed
  | continuation =>
    cases popped : buffer.popIfLast? depth ['}'] with
    | some shorter =>
      -- The brace taken away closed a block at this depth, so that block is open again before it.
      have header : openBlock .brace depth statement buffer =
          shorter.push depth (['}'] ++ ' ' :: (statement.text ++ [' ', '{'])) := by
        simp only [openBlock, form, BlockStyle.closing?, BlockStyle.opened, popped]
      rw [header]
      have split := toList_of_popIfLast? popped
      rw [split] at state ⊢
      obtain ⟨before, beforeState, closing⟩ := Braces.exists_of_run_concat state
      obtain rfl := CodeLine.step_closing_iff.mp closing
      rw [toList_push, Braces.run_concat beforeState,
        (CodeLine.step_header start depth opened).2]
      refine ⟨?_, rfl⟩
      simp only [List.filterMap_append, List.filterMap_cons, List.filterMap_nil,
        CodeLine.unbraced?_closing, (CodeLine.unbraced?_header start depth).2, List.append_nil]
    | none =>
      have header : openBlock .brace depth statement buffer =
          buffer.push depth (statement.text ++ [' ', '{']) := by
        simp only [openBlock, form, BlockStyle.closing?, BlockStyle.opened, popped]
      rw [header]
      exact pushed

/-- Closing a block adds a closing brace, which is deleted with the braces, and closes the innermost
block. -/
theorem closeBlock_brace {buffer : Buffer} {depth : Nat} {opened : List Nat}
    (state : Braces.run buffer.toList = some (depth :: opened)) :
    (closeBlock .brace depth buffer).toList.filterMap CodeLine.unbraced? =
        buffer.toList.filterMap CodeLine.unbraced? ∧
      Braces.run (closeBlock .brace depth buffer).toList = some opened := by
  show (buffer.push depth ['}']).toList.filterMap CodeLine.unbraced? = _ ∧
    Braces.run (buffer.push depth ['}']).toList = _
  rw [toList_push, List.filterMap_append, Braces.run_concat state]
  exact ⟨List.append_nil _, CodeLine.step_closing_iff.mpr rfl⟩

/-- Statements laid out in the brace style add the colon style's lines, and leave the blocks that
were open before open. -/
theorem layout_brace [Letters] {statements : Forest Statement}
    (sound : ∀ statement ∈ statements.preorder, statement.Sound) (depth : Nat) {buffer : Buffer}
    {opened : List Nat} (state : Braces.run buffer.toList = some opened) :
    (layout .brace depth statements buffer).toList.filterMap CodeLine.unbraced? =
        buffer.toList.filterMap CodeLine.unbraced? ++ statements.colonLines depth ∧
      Braces.run (layout .brace depth statements buffer).toList = some opened := by
  induction statements generalizing depth buffer opened with
  | nil =>
    rw [layout, Forest.colonLines, List.append_nil]
    exact ⟨rfl, state⟩
  | cons statement body rest ihBody ihRest =>
    have own := sound statement List.mem_cons_self
    have inBody : ∀ inner ∈ body.preorder, inner.Sound := fun inner mem =>
      sound inner (List.mem_cons_of_mem _ (List.mem_append_left _ mem))
    have inRest : ∀ later ∈ rest.preorder, later.Sound := fun later mem =>
      sound later (List.mem_cons_of_mem _ (List.mem_append_right _ mem))
    rw [layout, Forest.colonLines]
    cases form : statement.form with
    | plain =>
      have stays : Braces.run (buffer.push depth statement.text).toList = some opened := by
        rw [toList_push, Braces.run_concat state, CodeLine.step_plain own form]
      obtain ⟨lines, ends⟩ := ihRest inRest depth stays
      refine ⟨?_, ends⟩
      show List.filterMap _ (layout .brace depth rest (buffer.push depth statement.text)).toList = _
      rw [lines, toList_push, List.filterMap_append, List.filterMap_cons,
        CodeLine.unbraced?_plain own form, List.filterMap_nil, List.append_assoc]
      rfl
    | header | continuation =>
      obtain ⟨headLines, headState⟩ := openBlock_brace (by rw [form]; exact nofun) own state depth
      obtain ⟨bodyLines, bodyState⟩ := ihBody inBody (depth + 1) headState
      obtain ⟨closedLines, closedState⟩ := closeBlock_brace bodyState
      obtain ⟨restLines, restState⟩ := ihRest inRest depth closedState
      refine ⟨?_, restState⟩
      show List.filterMap _ (layout .brace depth rest _).toList = _
      rw [restLines, closedLines, bodyLines, headLines]
      simp

end Buffer

/-- The program of an analyzed document in the brace style: without its braces it is the program in
the colon style, and its braces match. -/
theorem Program.lines_brace [Letters] {forest : Forest Node} {program : Program}
    (settled : forest.Every Settled) (made : Program.ofForest forest = .ok program) :
    (program.lines .brace).filterMap CodeLine.unbraced? = program.lines .colonIndent ∧
      Braces.run (program.lines .brace) = some [] := by
  obtain ⟨⟨statements, roots⟩, found, same⟩ := bind_eq_ok.mp made
  obtain rfl := Except.ok.inj same
  have start : Braces.run ({} : Buffer).toList = some [] := rfl
  rw [Program.lines_colonIndent]
  exact Buffer.layout_brace (Program.sound_statementsOf settled found) 0 start

/-- The block style only changes punctuation. A source is refused with the same error in both
styles, or it makes the same program, with the same member roots, in both. Without its braces the
program in the brace style is then the one in the colon style, line by line; and each closing brace
closes the innermost block that is open, at the depth of the line that opened it, and none is left
open. -/
theorem compile_blockStyle [Letters] (config : Config) (source : Text) :
    (∃ error, compile { config with blockStyle := .colonIndent } source = .error error ∧
        compile { config with blockStyle := .brace } source = .error error) ∨
      ∃ analysis program,
        analyze { config with blockStyle := .colonIndent } source = .ok analysis ∧
        analyze { config with blockStyle := .brace } source = .ok analysis ∧
        Program.ofForest analysis.forest = .ok program ∧
        compile { config with blockStyle := .colonIndent } source =
          .ok ((program.lines .colonIndent).flatMap (Buffer.renderLine config.indentationUnit)) ∧
        compile { config with blockStyle := .brace } source =
          .ok ((program.lines .brace).flatMap (Buffer.renderLine config.indentationUnit)) ∧
        (program.lines .brace).filterMap CodeLine.unbraced? = program.lines .colonIndent ∧
        Braces.run (program.lines .brace) = some [] := by
  have unstyled (style : BlockStyle) :
      analyze { config with blockStyle := style } source = analyze config source := rfl
  simp only [compile, unstyled]
  cases analyzed : analyze config source with
  | error error => exact .inl ⟨error, rfl, rfl⟩
  | ok analysis =>
    cases made : Program.ofForest analysis.forest with
    | error error =>
      refine .inl ⟨error, ?_, ?_⟩
      all_goals
        show (Program.ofForest analysis.forest >>= _) = _
        rw [made]
        rfl
    | ok program =>
      refine .inr ⟨analysis, program, rfl, rfl, made, ?_, ?_,
        Program.lines_brace (settled_of_analyze analyzed) made⟩
      all_goals
        show (Program.ofForest analysis.forest >>= _) = _
        rw [made]
        rfl

end Outline
