import Outline.Header.Edition
import Outline.Proofs.Layout

/-!
# What comes later changes nothing before

A document is read in one pass. When a source is followed by another whose code starts at the top
level, each stage works on the first source as if nothing came after it: rows, lines, trees, roles
and statements of the whole are those of the first source with more behind them. So the code of the
first source is the front of the code of the whole (`compile_prefix`).
-/

set_option autoImplicit false

namespace Outline

/-! ## Rows -/

namespace Text

/-- A text whose lines are all ended: it is empty, or it ends with a line feed. -/
def Ended (s : Text) : Prop := s = [] ∨ s.getLast? = some '\n'

theorem Ended.tail {c : Char} {rest : Text} (ended : Ended (c :: rest)) : Ended rest := by
  cases rest with
  | nil => exact .inl rfl
  | cons d more =>
    rcases ended with empty | last
    · cases empty
    · exact .inr (by rwa [List.getLast?_cons_cons] at last)

theorem eq_nil_of_lines {s : Text} (none : lines s = []) : s = [] := by
  fun_induction lines s with
  | case1 => rfl
  | _ => cases none

/-- The lines of a text are read before those of what follows it. -/
theorem lines_append_of_ended {first : Text} (ended : Ended first) (second : Text) :
    lines (first ++ second) = lines first ++ lines second := by
  fun_induction lines first with
  | case1 => rfl
  | case2 rest ih => rw [List.cons_append, lines, ih ended.tail, List.cons_append]
  | case3 rest ih =>
    rw [List.cons_append, List.cons_append, lines, ih ended.tail.tail, List.cons_append]
  | case4 c rest notFeed _ none ih =>
    obtain rfl := eq_nil_of_lines none
    rcases ended with empty | last
    · cases empty
    · exact absurd (Option.some.inj last) notFeed
  | case5 c rest notFeed notPair line more found ih =>
    have filled : rest ≠ [] := by
      rintro rfl
      cases found
    have notPair' : ∀ after, c = '\r' → rest ++ second ≠ '\n' :: after := by
      intro after isReturn same
      obtain ⟨d, tail, rfl⟩ := List.exists_cons_of_ne_nil filled
      obtain ⟨rfl, _⟩ := List.cons.inj same
      exact notPair tail isReturn rfl
    rw [List.cons_append, lines, ih ended.tail, found]
    · rfl
    · exact notFeed
    · exact notPair'

/-- Whether a line of a source holds code. -/
def isCodeLine (line : Text) : Bool := (Row.ofText 0 line).isCode

/-- A text whose first line of code, if it has one, is not indented. -/
def StartsFlush (s : Text) : Prop :=
  ∀ line ∈ (lines s).find? isCodeLine, line.takeWhile isBlank = []

end Text

namespace Row

/-- The rows of lines, counted after a number of rows before them. -/
def after (count : Nat) (lines : List Text) : List Row :=
  (lines.zipIdx count).map fun (s, index) => Row.ofText (index + 1) s

theorem after_cons (count : Nat) (line : Text) (lines : List Text) :
    after count (line :: lines) = Row.ofText (count + 1) line :: after (count + 1) lines := rfl

/-- The rows of a source come before those of what follows it. -/
theorem ofSource_append {first : Text} (filled : first ≠ []) (ended : Text.Ended first)
    (second : Text) :
    ofSource (first ++ second) =
      ofSource first ++ after (ofSource first).length (Text.lines second) := by
  have rows {unmarked : Text} (ended : Text.Ended unmarked) :
      after 0 (Text.lines (unmarked ++ second)) = after 0 (Text.lines unmarked) ++
        after (after 0 (Text.lines unmarked)).length (Text.lines second) := by
    rw [Text.lines_append_of_ended ended, after, List.zipIdx_append, List.map_append, after, after]
    simp
  cases first with
  | nil => exact absurd rfl filled
  | cons c rest =>
    by_cases mark : c = '\ufeff'
    · subst mark
      exact rows ended.tail
    · have unmarked (s : Text) : ofSource (c :: s) = after 0 (Text.lines (c :: s)) := by
        unfold ofSource
        split
        next same => exact absurd (List.cons.inj same).1 mark
        next => rfl
      rw [List.cons_append, unmarked, unmarked]
      exact rows ended

end Row

/-! ## Lines -/

namespace Line

/-- Rows are read one part after the other. -/
theorem ofRows_append {keep : Bool} {unit : Option Text} {rows more : List Row} {lines : List Line}
    (ok : ofRows keep unit (rows ++ more) = .ok lines) :
    ∃ front back, ofRows keep unit rows = .ok front ∧ ofRows keep unit more = .ok back ∧
      lines = front ++ back := by
  induction rows generalizing lines with
  | nil => exact ⟨[], lines, rfl, ok, rfl⟩
  | cons row rows ih =>
    obtain ⟨own, made, ok⟩ := bind_eq_ok.mp ok
    obtain ⟨later, rest, ok⟩ := bind_eq_ok.mp ok
    obtain rfl := Except.ok.inj ok
    obtain ⟨front, back, first, second, rfl⟩ := ih rest
    exact ⟨own ++ front, back, bind_eq_ok.mpr ⟨own, made, bind_eq_ok.mpr ⟨front, first, rfl⟩⟩,
      second, (List.append_assoc ..).symm⟩

/-- A row makes one line if it holds code, and comments at most if not. -/
theorem ofRow_eq_ok {keep : Bool} {unit : Option Text} {row : Row} {made : List Line}
    (ok : ofRow keep unit row = .ok made) :
    (row.isCode = false ∧ ∀ line ∈ made, line.isComment = true) ∨
      (row.isCode = true ∧ ∃ depth content, Indent.depth unit row.indent = .ok depth ∧
        made = [.code depth content row.number]) := by
  rw [ofRow] at ok
  rw [Row.isCode]
  split at ok
  next empty =>
    obtain rfl := Except.ok.inj ok
    rw [empty]
    exact .inl ⟨rfl, fun _ mem => absurd mem List.not_mem_nil⟩
  next filled =>
    rw [Bool.not_eq_true] at filled
    split at ok
    next text comment =>
      obtain rfl := Except.ok.inj ok
      rw [comment, filled]
      refine .inl ⟨rfl, ?_⟩
      intro line mem
      split at mem
      · rw [List.mem_singleton.mp mem]
        rfl
      · cases mem
    next code =>
      split at ok
      next => cases ok
      next depth measured =>
        obtain rfl := Except.ok.inj ok
        rw [code, filled]
        exact .inr ⟨rfl, depth, _, measured, rfl⟩

end Line

namespace Nest

theorem nextDepth_append_of_comments {comments : List Line}
    (all : ∀ line ∈ comments, line.isComment = true) (lines : List Line) :
    nextDepth (comments ++ lines) = nextDepth lines := by
  induction comments with
  | nil => rfl
  | cons line comments ih =>
    rw [List.cons_append, nextDepth, if_pos (all line List.mem_cons_self)]
    exact ih fun other mem => all other (List.mem_cons_of_mem _ mem)

/-- Lines whose first code is not indented nest at the top level. -/
theorem nextDepth_of_flush {keep : Bool} {unit : Option Text} {count : Nat} {texts : List Text}
    {lines : List Line}
    (flush : ∀ line ∈ texts.find? Text.isCodeLine, line.takeWhile Text.isBlank = [])
    (ok : Line.ofRows keep unit (Row.after count texts) = .ok lines) : nextDepth lines = 0 := by
  induction texts generalizing count lines with
  | nil =>
    obtain rfl := Except.ok.inj ok
    rfl
  | cons text texts ih =>
    rw [Row.after_cons] at ok
    obtain ⟨own, made, ok⟩ := bind_eq_ok.mp ok
    obtain ⟨later, rest, ok⟩ := bind_eq_ok.mp ok
    obtain rfl := Except.ok.inj ok
    rw [List.find?_cons] at flush
    rcases Line.ofRow_eq_ok made with ⟨noCode, comments⟩ | ⟨code, depth, content, measured, rfl⟩
    · have skipped : Text.isCodeLine text = false := noCode
      rw [skipped] at flush
      rw [nextDepth_append_of_comments comments]
      exact ih flush rest
    · have found : Text.isCodeLine text = true := code
      rw [found] at flush
      rw [show (Row.ofText (count + 1) text).indent = [] from flush text rfl] at measured
      exact (Except.ok.inj measured).symm

/-! ## Trees -/

theorem nextDepth_append {back : List Line} (top : nextDepth back = 0) (front : List Line) :
    nextDepth (front ++ back) = nextDepth front := by
  induction front with
  | nil => exact top
  | cons line front ih => rw [List.cons_append, nextDepth, nextDepth, ih]

/-- If the second part starts at the top, the nodes of two parts are placed one part after the
other. -/
theorem placed_append {back : List Line} (top : nextDepth back = 0) (front : List Line) :
    placed (front ++ back) = placed front ++ placed back := by
  induction front with
  | nil => rfl
  | cons line front ih =>
    have here := nextDepth_append top (line :: front)
    rw [List.cons_append] at here
    rw [List.cons_append, placed, placed, ih, here, List.cons_append]

/-- The first lines of a document keep the rule of depths. -/
theorem DepthRule.of_append {front back : List Line} (rule : DepthRule (front ++ back)) :
    DepthRule front := by
  refine ⟨?_, rule.later.prefix (List.prefix_append front back)⟩
  intro line head
  refine rule.first line ?_
  rw [List.head?_append, Option.mem_def.mp head]
  rfl

end Nest

namespace Forest

/-- Labels that start again at the top level make trees of their own. -/
theorem ofLevels_append {α : Type} {front back : List (Nat × α)}
    (top : ∀ label ∈ back.head?, label.1 = 0) :
    ofLevels (front ++ back) = (ofLevels front).append (ofLevels back) := by
  have noneDeeper (depth : Nat) := @takeWhile_deeper_eq_nil α depth back fun label head =>
    (top label head).symm ▸ Nat.zero_le depth
  fun_induction ofLevels front with
  | case1 =>
    rw [List.nil_append]
    rfl
  | case2 depth label rest ihChildren ihRest =>
    have inner : ((rest ++ back).takeWhile fun next => depth < next.1) =
        rest.takeWhile fun next => depth < next.1 := by
      rw [List.takeWhile_append, (noneDeeper depth).1, List.append_nil]
      split
      next whole => exact ((List.takeWhile_sublist _).eq_of_length whole).symm
      next => rfl
    have outer : ((rest ++ back).dropWhile fun next => depth < next.1) =
        (rest.dropWhile fun next => depth < next.1) ++ back := by
      rw [List.dropWhile_append, (noneDeeper depth).2]
      split
      next empty => rw [List.isEmpty_iff.mp empty, List.nil_append]
      next => rfl
    rw [List.cons_append, ofLevels, inner, outer, ihRest, Forest.append]

/-- The trees of lines come before those of lines that start again at the top level. -/
theorem ofLines_append {front back : List Line} {forest : Forest Node}
    (top : front = [] ∨ Nest.nextDepth back = 0) (made : ofLines (front ++ back) = .ok forest) :
    ∃ first second, ofLines front = .ok first ∧ forest = first.append second := by
  obtain ⟨rule, rfl⟩ := Nest.ofLines_eq_ok_iff.mp made
  rw [Nest.codeLines, List.filter_append] at rule
  refine ⟨ofLevels (Nest.placed front), ofLevels (Nest.placed back),
    Nest.ofLines_eq_ok_iff.mpr ⟨rule.of_append, rfl⟩, ?_⟩
  rcases top with rfl | top
  · rw [List.nil_append, Nest.placed, ofLevels]
    rfl
  · rw [Nest.placed_append top]
    refine ofLevels_append ?_
    intro label head
    cases back with
    | nil => cases head
    | cons line back =>
      obtain rfl := Option.some.inj head
      exact top

theorem append_assoc {α : Type} (first second third : Forest α) :
    (first.append second).append third = first.append (second.append third) := by
  induction first with
  | nil => rfl
  | cons label children rest _ ih => rw [append, append, append, ih]

end Forest

/-! ## Roles and statements -/

/-- The pass over trees does with the first of them what it does with them alone. -/
theorem Classify.siblings_append [Letters] {context : Context} {previous : Option Role}
    {table outer : SymbolTable} {first second forest : Forest Node}
    (ok : siblings context previous table (first.append second) = .ok (forest, outer)) :
    ∃ first' inner second', siblings context previous table first = .ok (first', inner) ∧
      forest = first'.append second' := by
  induction first generalizing previous table forest outer with
  | nil => exact ⟨.nil, table, forest, rfl, rfl⟩
  | cons node children rest _ ih =>
    rw [Forest.append, siblings] at ok
    obtain ⟨role, given, ok⟩ := bind_eq_ok.mp ok
    obtain ⟨⟨children', below⟩, inside, ok⟩ := bind_eq_ok.mp ok
    obtain ⟨⟨rest', after⟩, later, ok⟩ := bind_eq_ok.mp ok
    obtain ⟨rfl, rfl⟩ := Prod.mk.inj (Except.ok.inj ok)
    obtain ⟨first', inner, second', more, rfl⟩ := ih later
    refine ⟨.cons { node with role } children' first', inner, second', ?_, rfl⟩
    rw [siblings]
    exact bind_eq_ok.mpr ⟨role, given, bind_eq_ok.mpr ⟨_, inside, bind_eq_ok.mpr ⟨_, more, rfl⟩⟩⟩

/-- The statements of trees come before those of the trees after them. -/
theorem Program.statementsOf_append [Letters] {first second : Forest Node}
    {statements : Forest Statement}
    {roots : List MemberRoot} (ok : statementsOf (first.append second) = .ok (statements, roots)) :
    ∃ front back own, statementsOf first = .ok (front, own) ∧ statements = front.append back := by
  induction first generalizing statements roots with
  | nil => exact ⟨.nil, statements, [], rfl, rfl⟩
  | cons node children rest _ ih =>
    rw [Forest.append, statementsOf] at ok
    obtain ⟨⟨out, own⟩, made, ok⟩ := bind_eq_ok.mp ok
    rw [statementsOf]
    cases out with
    | line text =>
      obtain ⟨⟨after, later⟩, more, ok⟩ := bind_eq_ok.mp ok
      obtain ⟨rfl, rfl⟩ := Prod.mk.inj (Except.ok.inj ok)
      obtain ⟨front, back, roots, found, rfl⟩ := ih more
      exact ⟨.cons ⟨text, .plain⟩ .nil front, back, own ++ roots,
        bind_eq_ok.mpr ⟨_, made, bind_eq_ok.mpr ⟨_, found, rfl⟩⟩, rfl⟩
    | block header form =>
      obtain ⟨⟨body, inner⟩, below, ok⟩ := bind_eq_ok.mp ok
      obtain ⟨⟨after, later⟩, more, ok⟩ := bind_eq_ok.mp ok
      obtain ⟨rfl, rfl⟩ := Prod.mk.inj (Except.ok.inj ok)
      obtain ⟨front, back, roots, found, rfl⟩ := ih more
      exact ⟨.cons ⟨header, form⟩ body front, back, own ++ inner ++ roots,
        bind_eq_ok.mpr ⟨_, made, bind_eq_ok.mpr ⟨_, below, bind_eq_ok.mpr ⟨_, found, rfl⟩⟩⟩, rfl⟩
    | children =>
      obtain ⟨⟨body, inner⟩, below, ok⟩ := bind_eq_ok.mp ok
      obtain ⟨⟨after, later⟩, more, ok⟩ := bind_eq_ok.mp ok
      obtain ⟨rfl, rfl⟩ := Prod.mk.inj (Except.ok.inj ok)
      obtain ⟨front, back, roots, found, rfl⟩ := ih more
      exact ⟨body.append front, back, own ++ inner ++ roots,
        bind_eq_ok.mpr ⟨_, made, bind_eq_ok.mpr ⟨_, below, bind_eq_ok.mpr ⟨_, found, rfl⟩⟩⟩,
        (Forest.append_assoc body front back).symm⟩

/-! ## Documents -/

/-- The lines of a source come before those of what follows it, which start again at the top
level unless they are the first. -/
theorem Line.scan_append {config : Config} {unit first second : Text} {lines : List Line}
    (given : config.sourceIndentationUnit = some unit) (ended : Text.Ended first)
    (flush : Text.StartsFlush second) (ok : scan config (first ++ second) = .ok lines) :
    ∃ front back, scan config first = .ok front ∧ lines = front ++ back ∧
      (front = [] ∨ Nest.nextDepth back = 0) := by
  have unitOf (rows : List Row) : Indent.unitOf config rows = .ok (some unit) := by
    rw [Indent.unitOf, given]
  obtain ⟨valid, found, known, made⟩ := scan_eq_ok_iff.mp ok
  obtain rfl := Except.ok.inj ((unitOf _).symm.trans known)
  by_cases filled : first = []
  · subst filled
    exact ⟨[], lines, scan_eq_ok_iff.mpr ⟨valid, some unit, unitOf _, rfl⟩, rfl, .inl rfl⟩
  · rw [Row.ofSource_append filled ended] at made
    obtain ⟨front, back, own, later, rfl⟩ := ofRows_append made
    exact ⟨front, back, scan_eq_ok_iff.mpr ⟨valid, some unit, unitOf _, own⟩, rfl,
      .inr (Nest.nextDepth_of_flush flush later)⟩

/-- What is analyzed of a source comes before what is analyzed of what follows it. -/
theorem analyze_append [Letters] {config : Config} {unit first second : Text} {analysis : Analysis}
    (given : config.sourceIndentationUnit = some unit) (ended : Text.Ended first)
    (flush : Text.StartsFlush second) (ok : analyze config (first ++ second) = .ok analysis) :
    ∃ own more, analyze config first = .ok own ∧ analysis.forest = own.forest.append more := by
  obtain ⟨lines, forest, scanned, nested, classified⟩ := analyze_eq_ok_iff.mp ok
  obtain ⟨front, back, ownLines, rfl, top⟩ := Line.scan_append given ended flush scanned
  obtain ⟨ownForest, later, ownNested, rfl⟩ := Forest.ofLines_append top nested
  obtain ⟨roles, symbols, more, ownRoles, same⟩ := Classify.siblings_append classified
  exact ⟨⟨roles, symbols⟩, more,
    analyze_eq_ok_iff.mpr ⟨front, ownForest, ownLines, ownNested, ownRoles⟩, same⟩

/-- The prefix law of a single pass, in the colon style and with a given unit of indentation. When a
source whose lines are all ended is followed by one whose first code is not indented, and the whole
makes code, then the source makes code alone, and the code of the whole starts with it. -/
theorem compile_prefix [Letters] {config : Config} {unit first second code : Text}
    (style : config.blockStyle = .colonIndent) (given : config.sourceIndentationUnit = some unit)
    (ended : Text.Ended first) (flush : Text.StartsFlush second)
    (ok : compile config (first ++ second) = .ok code) :
    ∃ front, compile config first = .ok front ∧ front <+: code := by
  obtain ⟨analysis, analyzed, ok⟩ := bind_eq_ok.mp ok
  obtain ⟨program, made, ok⟩ := bind_eq_ok.mp ok
  obtain rfl := Except.ok.inj ok
  obtain ⟨⟨statements, roots⟩, found, same⟩ := bind_eq_ok.mp made
  obtain rfl := Except.ok.inj same
  obtain ⟨own, more, ownAnalyzed, split⟩ := analyze_append given ended flush analyzed
  rw [split] at found
  obtain ⟨front, back, ownRoots, ownFound, rfl⟩ := Program.statementsOf_append found
  refine ⟨Program.code ⟨front, ownRoots⟩ config, bind_eq_ok.mpr ⟨own, ownAnalyzed,
    bind_eq_ok.mpr ⟨_, bind_eq_ok.mpr ⟨_, ownFound, rfl⟩, rfl⟩⟩, ?_⟩
  rw [Program.code_eq, Program.code_eq, style, Program.lines_colonIndent, Program.lines_colonIndent,
    Forest.colonLines_append, List.flatMap_append]
  exact List.prefix_append _ _

/-- A condition and a comment, followed by an alternative. -/
theorem compile_prefix_alternative :
    let config : Config := { sourceIndentationUnit := some [' ', ' '], keepComments := true }
    let first := "if 1 < 2:\n  x: 1\n  # note\n".toList
    let second := "else:\n  y: 2\n".toList
    let code := "if 1 < 2:\n  x = 1\n# note\nelse:\n  y = 2\n".toList
    Text.Ended first ∧ Text.StartsFlush second ∧ compile config (first ++ second) = .ok code ∧
      ∃ front, compile config first = .ok front ∧ front <+: code := by
  intro config first second code
  have ended : Text.Ended first := .inr rfl
  have flush : Text.StartsFlush second := by
    have found : (Text.lines second).find? Text.isCodeLine = some "else:".toList := by
      decide +kernel
    intro line mem
    obtain rfl := Option.some.inj (found.symm.trans mem)
    rfl
  have ok : compile config (first ++ second) = .ok code := eq_ok_of_toOption (by decide +kernel)
  exact ⟨ended, flush, ok, compile_prefix rfl rfl ended flush ok⟩

end Outline
