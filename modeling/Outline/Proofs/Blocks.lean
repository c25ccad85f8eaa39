import Outline.Header.Edition
import Outline.Proofs.Comments

/-!
# Blocks in the colon style

In the colon style the body of a header is the lines after it that are deeper. A body has a line of
code at its own depth, and an alternative follows the condition that it belongs to, with nothing but
comments and deeper lines between the two. `Forest.Blocked` says this of statements, tree by tree,
and `BlockRows` says it of the rows that they are written in.
-/

set_option autoImplicit false

namespace Outline

/-! ## Headers -/

namespace Statement

/-- Whether a statement opens a block. -/
def isHeader (statement : Statement) : Bool := statement.form != .plain

/-- A header that an alternative may follow. -/
def IsCondition (statement : Statement) : Prop :=
  statement.isHeader = true ∧
    ("if ".toList <+: statement.text ∨ "elif ".toList <+: statement.text)

/-- The header of an alternative. -/
def IsAlternative (statement : Statement) : Prop :=
  statement.isHeader = true ∧
    ("elif ".toList <+: statement.text ∨ statement.text = "else".toList)

/-- The text of a statement in the colon style. -/
def colonText (statement : Statement) : Text :=
  if statement.isHeader then statement.text ++ [':'] else statement.text

theorem IsAlternative.head? {statement : Statement} (alternative : statement.IsAlternative) :
    statement.text.head? = some 'e' := by
  rcases alternative.2 with ⟨rest, whole⟩ | whole
  · rw [← whole]
    rfl
  · rw [whole]
    rfl

theorem isCode_of_isHeader {statement : Statement} (header : statement.isHeader = true) :
    statement.isCode = true := by
  rw [isHeader] at header
  rw [isCode, header, Bool.true_or]

end Statement

/-- Rows of statements, each with its depth, whose blocks are in order. -/
structure BlockRows (rows : List (Nat × Statement)) : Prop where
  /-- The first row is not indented. -/
  first : ∀ row ∈ rows.head?, row.1 = 0
  /-- The row after a header is one step deeper, and the row after any other is not deeper. -/
  next : rows.IsChain fun row next =>
    (next.1 = row.1 + 1 ↔ row.2.isHeader = true) ∧ (row.2.isHeader = false → next.1 ≤ row.1)
  /-- Among the rows after a header that are deeper, there is code one step deeper. -/
  body : ∀ before row after, rows = before ++ row :: after → row.2.isHeader = true →
    ∃ line ∈ after.takeWhile fun other => row.1 < other.1,
      line.1 = row.1 + 1 ∧ line.2.isCode = true
  /-- The last code before an alternative that is not deeper is a condition at the same depth. -/
  alternative : ∀ before row after, rows = before ++ row :: after → row.2.IsAlternative →
    ∃ condition,
      (before.reverse.find? fun other => other.2.isCode && decide (other.1 ≤ row.1)) =
          some condition ∧
        condition.1 = row.1 ∧ condition.2.IsCondition

/-! ## From trees to rows -/

/-- A statement that may stand before its body and after the last code before it. -/
structure Statement.Heads (previous : Option Statement) (statement : Statement)
    (body : Forest Statement) : Prop where
  /-- Only a header has a body. -/
  bare : statement.isHeader = false → body = .nil
  /-- The body of a header has code. -/
  filled : statement.isHeader = true → ∃ root ∈ body.roots, root.isCode = true
  /-- An alternative follows a condition. -/
  follows : statement.IsAlternative →
    ∃ condition, previous = some condition ∧ condition.IsCondition

namespace Forest

/-- Statements whose blocks are in order, after the last code before them. -/
def Blocked (previous : Option Statement) : Forest Statement → Prop
  | .nil => True
  | .cons statement body rest =>
    statement.Heads previous body ∧ body.Blocked none ∧
      rest.Blocked (if statement.isCode then some statement else previous)

section

variable {α : Type}

theorem mem_levels_of_mem_roots {depth : Nat} {forest : Forest α} {root : α}
    (mem : root ∈ forest.roots) : (depth, root) ∈ forest.levels depth := by
  induction forest with
  | nil => cases mem
  | cons label children rest _ ih =>
    rcases List.mem_cons.mp mem with rfl | later
    · exact List.mem_cons_self
    · exact List.mem_cons_of_mem _ (List.mem_append_right _ (ih later))

theorem roots_append (left right : Forest α) :
    (left.append right).roots = left.roots ++ right.roots := by
  induction left with
  | nil => rfl
  | cons label children rest _ ih => rw [append, roots, roots, ih, List.cons_append]

end

section

variable {previous : Option Statement} {statements : Forest Statement}

/-- Well-formed blocks are laid out row by row, each at its level. -/
theorem Blocked.colonLines (blocked : statements.Blocked previous) (depth : Nat) :
    statements.colonLines depth =
      (statements.levels depth).map fun row => ⟨row.1, row.2.colonText⟩ := by
  induction statements generalizing previous depth with
  | nil => rfl
  | cons statement body rest ihBody ihRest =>
    obtain ⟨heads, inBody, inRest⟩ := blocked
    rw [Forest.colonLines, levels, List.map_cons, List.map_append, ← ihBody inBody,
      ← ihRest inRest]
    cases form : statement.form with
    | plain =>
      have plain : statement.isHeader = false := by simp [Statement.isHeader, form]
      rw [heads.bare plain, Statement.colonText, plain]
      rfl
    | header | continuation =>
      have header : statement.isHeader = true := by simp [Statement.isHeader, form]
      rw [Statement.colonText, header]
      rfl

/-- The body of a header comes right after it, before any row that is not deeper. -/
theorem Blocked.body (blocked : statements.Blocked previous) {depth : Nat} :
    ∀ before row after, statements.levels depth = before ++ row :: after →
      row.2.isHeader = true → ∃ line ∈ after.takeWhile fun other => row.1 < other.1,
        line.1 = row.1 + 1 ∧ line.2.isCode = true := by
  induction statements generalizing previous depth with
  | nil =>
    intro before row after split
    simp [levels] at split
  | cons statement body rest ihBody ihRest =>
    obtain ⟨heads, inBody, inRest⟩ := blocked
    intro before row after split header
    rw [levels] at split
    rcases List.cons_eq_append_iff.mp split with ⟨rfl, same⟩ | ⟨front, rfl, tail⟩
    · obtain ⟨rfl, rfl⟩ := List.cons.inj same
      obtain ⟨root, mem, code⟩ := heads.filled header
      refine ⟨(depth + 1, root), ?_, rfl, code⟩
      rw [List.takeWhile_append_of_pos]
      · exact List.mem_append_left _ (mem_levels_of_mem_roots mem)
      · intro other below
        exact decide_eq_true (le_of_mem_levels other below)
    · rcases append_eq_append_cons tail with ⟨more, inside, rfl⟩ | ⟨skipped, rfl, later⟩
      · obtain ⟨line, mem, found⟩ := ihBody inBody front row more inside header
        refine ⟨line, ?_, found⟩
        rw [List.takeWhile_append]
        split
        · exact List.mem_append_left _ ((List.takeWhile_sublist _).subset mem)
        · exact mem
      · exact ihRest inRest skipped row after later header

/-- The last row is no header: its body would come after it. -/
theorem Blocked.getLast?_levels (blocked : statements.Blocked previous) {depth : Nat} :
    ∀ row ∈ (statements.levels depth).getLast?, row.2.isHeader = false := by
  intro row last
  obtain ⟨before, split⟩ := List.getLast?_eq_some_iff.mp last
  rw [← Bool.not_eq_true]
  intro header
  obtain ⟨line, mem, _⟩ := blocked.body before row [] split header
  cases mem

/-- The next row is one level deeper exactly after a header, and no deeper after anything else. -/
theorem Blocked.next (blocked : statements.Blocked previous) {depth : Nat} :
    (statements.levels depth).IsChain fun row next =>
      (next.1 = row.1 + 1 ↔ row.2.isHeader = true) ∧
        (row.2.isHeader = false → next.1 ≤ row.1) := by
  induction statements generalizing previous depth with
  | nil => exact .nil
  | cons statement body rest ihBody ihRest =>
    obtain ⟨heads, inBody, inRest⟩ := blocked
    rw [levels, List.isChain_cons, List.isChain_append]
    refine ⟨?_, ihBody inBody, ihRest inRest, ?_⟩
    · intro next mem
      cases header : statement.isHeader with
      | true =>
        obtain ⟨root, isRoot, _⟩ := heads.filled header
        cases body with
        | nil => cases isRoot
        | cons first below later =>
          obtain rfl := Option.some.inj mem
          simp
      | false =>
        rw [heads.bare header] at mem
        have same := head?_levels next mem
        simp [same]
    · -- The body is over: the next row is at the depth of its header, and so above the body.
      intro last isLast next isNext
      have plain := inBody.getLast?_levels last isLast
      have below := le_of_mem_levels last (List.mem_of_getLast? isLast)
      have same := head?_levels next isNext
      constructor
      · rw [plain]
        constructor
        · omega
        · intro absurd
          cases absurd
      · omega

/-- An alternative finds its condition, if the rows before the statements end with the last code
before them. -/
theorem Blocked.alternative (blocked : statements.Blocked previous) {depth : Nat}
    (earlier : List (Nat × Statement))
    (ends : ∀ statement, previous = some statement →
      (earlier.reverse.find? fun other => other.2.isCode && decide (other.1 ≤ depth)) =
        some (depth, statement)) :
    ∀ before row after, statements.levels depth = before ++ row :: after →
      row.2.IsAlternative → ∃ condition,
        ((earlier ++ before).reverse.find? fun other =>
            other.2.isCode && decide (other.1 ≤ row.1)) = some condition ∧
          condition.1 = row.1 ∧ condition.2.IsCondition := by
  induction statements generalizing previous depth earlier with
  | nil =>
    intro before row after split
    simp [levels] at split
  | cons statement body rest ihBody ihRest =>
    obtain ⟨heads, inBody, inRest⟩ := blocked
    intro before row after split alternative
    rw [levels] at split
    rcases List.cons_eq_append_iff.mp split with ⟨rfl, same⟩ | ⟨front, rfl, tail⟩
    · obtain ⟨rfl, rfl⟩ := List.cons.inj same
      obtain ⟨condition, last, isCondition⟩ := heads.follows alternative
      rw [List.append_nil]
      exact ⟨(depth, condition), ends condition last, rfl, isCondition⟩
    · rcases append_eq_append_cons tail with ⟨more, inside, rfl⟩ | ⟨skipped, rfl, later⟩
      · have found :=
          ihBody inBody (earlier ++ [(depth, statement)]) (by simp) front row more inside
          alternative
        rwa [List.append_assoc, List.singleton_append] at found
      · have none : (body.levels (depth + 1)).reverse.find?
            (fun other => other.2.isCode && decide (other.1 ≤ depth)) = none := by
          rw [List.find?_eq_none]
          intro other mem
          have below := le_of_mem_levels other (List.mem_reverse.mp mem)
          rw [decide_eq_false (by omega), Bool.and_false]
          decide
        have found := ihRest inRest (earlier ++ (depth, statement) :: body.levels (depth + 1)) ?_
          skipped row after later alternative
        · rwa [List.append_assoc, List.cons_append] at found
        · intro last isLast
          rw [List.reverse_append, List.reverse_cons, List.find?_append, List.find?_append, none]
          cases code : statement.isCode with
          | true =>
            rw [code] at isLast
            obtain rfl := Option.some.inj isLast
            simp [code]
          | false =>
            rw [code] at isLast
            simp [code, ends last isLast]

/-- The rows of well-formed blocks keep the rules for rows. -/
theorem Blocked.blockRows (blocked : statements.Blocked none) :
    BlockRows (statements.levels 0) where
  first := head?_levels
  next := blocked.next
  body := blocked.body
  alternative := by
    intro before row after split
    exact blocked.alternative [] (by simp) before row after split

end

/-- Blocks that do not depend on what is before them can follow others. -/
theorem Blocked.append {previous : Option Statement} {left right : Forest Statement}
    (blocked : left.Blocked previous) (after : ∀ last, right.Blocked last) :
    (left.append right).Blocked previous := by
  induction left generalizing previous with
  | nil => exact after previous
  | cons statement body rest _ ih =>
    obtain ⟨heads, inBody, inRest⟩ := blocked
    exact ⟨heads, inBody, ih inRest⟩

end Forest

/-! ## From nodes to trees -/

namespace Program

/-- The header that a node contributes is an alternative only if the node is one, and a condition if
the node is one. -/
theorem Emission.of_block [Letters] {node : Node} {children : Forest Node} {header : Text}
    {form : StatementForm} (emission : Emission node children (.block header form)) :
    Statement.isHeader ⟨header, form⟩ = true ∧
      (Statement.IsAlternative ⟨header, form⟩ →
        node.role = .elseHeader ∨ ∃ condition, node.role = .elifHeader condition) ∧
      (Classify.isCondition (some node.role) = true → Statement.IsCondition ⟨header, form⟩) := by
  cases emission with
  | ifThen condition text _ role =>
    refine ⟨rfl, ?_, fun _ => ⟨rfl, .inl ⟨text, rfl⟩⟩⟩
    intro alternative
    exact absurd alternative.head? (by simp)
  | elifThen condition text _ role =>
    exact ⟨rfl, fun _ => .inr ⟨condition, role⟩, fun _ => ⟨rfl, .inr ⟨text, rfl⟩⟩⟩
  | otherwise role =>
    refine ⟨rfl, fun _ => .inl role, ?_⟩
    intro isCondition
    rw [role] at isCondition
    cases isCondition
  | whileLoop _ _ _ role | forLoop _ _ _ _ role | rangeLoop _ _ _ _ role | function _ _ role =>
    refine ⟨rfl, ?_, ?_⟩
    · intro alternative
      exact absurd (Option.some.inj alternative.head?) (by decide)
    · intro isCondition
      rw [role] at isCondition
      cases isCondition

/-- A condition contributes the header of a block. -/
theorem Emission.not_isCondition [Letters] {node : Node} {children : Forest Node} {text : Text}
    (emission : Emission node children (.line text)) :
    Classify.isCondition (some node.role) = false := by
  cases emission with
  | comment role | flow role | assignment _ _ _ role | argCall _ _ _ role | bareCall _ role
  | print _ _ role | returnPair _ _ _ role | returnBare role | importEntry _ role =>
    rw [role]
    rfl

/-- What a node other than a comment contributes is code. -/
theorem Emission.isCode [Letters] {node : Node} {children : Forest Node} {out : Output}
    {text : Text} (emission : Emission node children out) (settled : Settled node children)
    (typed : node.Typed children) (code : node.isCode = true) (own : out.text? = some text)
    (form : StatementForm) : Statement.isCode ⟨text, form⟩ = true := by
  refine Statement.isCode_of_startsName (emission.startsName settled ?_ own) form
  rw [Ne, ← typed.comment]
  simpa [Node.isCode] using code

/-- Lines of code, lists of imports among them, make code. -/
theorem exists_isCode_of_codeRoots [Letters] {forest : Forest Node} {statements : Forest Statement}
    {roots : List MemberRoot} (settled : forest.Every Settled) (typed : forest.Every Node.Typed)
    (ok : statementsOf forest = .ok (statements, roots)) (code : forest.codeRoots ≠ []) :
    ∃ root ∈ statements.roots, root.isCode = true := by
  induction forest generalizing statements roots with
  | nil => exact absurd rfl code
  | cons node children rest ihChildren ihRest =>
    obtain ⟨out, own, after, later, made, more, ways⟩ := statementsOf_cons ok
    have emission := emission_of_output made
    cases isCode : node.isCode with
    | true =>
      rcases ways with ⟨text, rfl, rfl⟩ | ⟨header, form, body, inner, rfl, below, rfl⟩ |
        ⟨body, inner, rfl, below, rfl⟩
      · exact ⟨_, List.mem_cons_self, emission.isCode settled.1 typed.1 isCode rfl .plain⟩
      · exact ⟨_, List.mem_cons_self, emission.isCode settled.1 typed.1 isCode rfl form⟩
      · cases emission with
        | importList role =>
          have filled := (typed.1.imports role).1
          obtain ⟨root, mem, found⟩ := ihChildren settled.2.1 typed.2.1 below filled
          rw [Forest.roots_append]
          exact ⟨root, List.mem_append_left _ mem, found⟩
    | false =>
      have inRest : rest.codeRoots ≠ [] := by
        rwa [Forest.codeRoots, Forest.roots, List.filter_cons_of_neg (by simp [isCode])] at code
      obtain ⟨root, mem, found⟩ := ihRest settled.2.2 typed.2.2 more inRest
      rcases ways with ⟨text, rfl, rfl⟩ | ⟨header, form, body, inner, rfl, below, rfl⟩ |
        ⟨body, inner, rfl, below, rfl⟩
      · exact ⟨root, List.mem_cons_of_mem _ mem, found⟩
      · exact ⟨root, List.mem_cons_of_mem _ mem, found⟩
      · rw [Forest.roots_append]
        exact ⟨root, List.mem_append_right _ mem, found⟩

end Program

namespace Classify

/-- An alternative stands after a condition. -/
theorem Decision.follows [Letters] {table : SymbolTable} {context : Context}
    {previous : Option Role} {node : Node} {shapes : List Shape} {role : Role}
    (decided : Decision table context previous node shapes role)
    (alternative : role = .elseHeader ∨ ∃ condition, role = .elifHeader condition) :
    isCondition previous = true := by
  cases decided with
  | header _ _ _ _ _ _ _ _ decided =>
    cases decided with
    | elifThen _ follows => exact follows
    | otherwise follows => exact follows
    | _ => rcases alternative with same | ⟨_, same⟩ <;> cases same
  | _ => rcases alternative with same | ⟨_, same⟩ <;> cases same

/-- The statements of classified siblings have their blocks in order, after any code that is a
condition if the node before the siblings is one. -/
theorem Classified.blocked [Letters] {context : Context} {previous : Option Role}
    {table table' : SymbolTable} {forest forest' : Forest Node} {statements : Forest Statement}
    {roots : List MemberRoot} (classified : Classified context previous table forest forest' table')
    (settled : forest'.Every Settled) (typed : forest'.Every Node.Typed)
    (ok : Program.statementsOf forest' = .ok (statements, roots)) (last : Option Statement)
    (agrees : isCondition previous = true →
      ∃ condition, last = some condition ∧ condition.IsCondition) :
    statements.Blocked last := by
  induction classified generalizing statements roots last with
  | nil =>
    obtain ⟨rfl, rfl⟩ := Prod.mk.inj (Except.ok.inj ok)
    trivial
  | @cons context previous table inner outer node role children children' rest rest' decided owns
      below after ihBelow ihAfter =>
    obtain ⟨out, own, later, laterRoots, made, more, ways⟩ := Program.statementsOf_cons ok
    have emission := Program.emission_of_output made
    have fits := emission.fits
    have commentRole : node.isCode = false → role = .comment := fun comment =>
      typed.1.comment.mp (by simpa [Node.isCode] using comment)
    have inAfter := ihAfter settled.2.2 typed.2.2 more
    rcases ways with ⟨text, rfl, rfl⟩ | ⟨header, form, body, bodyRoots, rfl, inside, rfl⟩ |
      ⟨body, bodyRoots, rfl, inside, rfl⟩
    · refine ⟨⟨fun _ => rfl, ?_, ?_⟩, trivial, inAfter _ ?_⟩
      · intro header
        cases header
      · intro alternative
        cases alternative.1
      · -- A comment passes on what stands before it, and other code is no condition.
        cases code : node.isCode with
        | true =>
          intro isCondition
          rw [if_pos rfl, emission.not_isCondition] at isCondition
          cases isCondition
        | false =>
          obtain rfl := commentRole code
          obtain ⟨written, _⟩ := Prod.mk.inj (Except.ok.inj made)
          obtain rfl := Program.Output.line.inj written
          exact agrees
    · -- A header starts over inside its block; an alternative needs the condition before it, which
      -- classification has asked for.
      obtain ⟨isHeader, alternative, condition⟩ := emission.of_block
      have inBody := ihBelow settled.2.1 typed.2.1 inside none (by intro none; cases none)
      refine ⟨⟨?_, ?_, ?_⟩, inBody, inAfter _ ?_⟩
      · intro plain
        rw [isHeader] at plain
        cases plain
      · intro _
        exact Program.exists_isCode_of_codeRoots settled.2.1 typed.2.1 inside
          (typed.1.block fits.2.1).1
      · intro isAlternative
        exact agrees (decided.follows (alternative isAlternative))
      · intro isCondition
        rw [Statement.isCode_of_isHeader isHeader]
        refine ⟨_, if_pos rfl, condition ?_⟩
        cases code : node.isCode with
        | true => rwa [code] at isCondition
        | false =>
          obtain rfl := commentRole code
          cases fits.2.1
    · -- Only a list of imports leaves its place to its children, and it is no condition.
      have inBody := ihBelow settled.2.1 typed.2.1 inside last (by intro none; cases none)
      refine inBody.append fun last => inAfter last ?_
      intro isCondition
      cases emission with
      | importList same =>
        obtain rfl : role = .importList := same
        cases code : node.isCode with
        | true =>
          rw [code] at isCondition
          cases isCondition
        | false => cases commentRole code

end Classify

/-- Blocks are in order. The rows of the code are the statements of the program, each indented by
its depth and a header with a colon behind it. The first row is not indented; the row after a header
is one step deeper, and the row after any other is not deeper; after a header comes code one step
deeper before any row that is not; and the last code before an alternative that is not deeper than
it is a condition at the same depth. -/
theorem compile_blockRows [Letters] {config : Config} {source code : Text}
    (style : config.blockStyle = .colonIndent) (ok : compile config source = .ok code) :
    ∃ analysis program, analyze config source = .ok analysis ∧
      Program.ofForest analysis.forest = .ok program ∧
      code = ((program.statements.levels 0).map fun row =>
        CodeLine.row config.indentationUnit ⟨row.1, row.2.colonText⟩).flatMap (· ++ ['\n']) ∧
      BlockRows (program.statements.levels 0) := by
  obtain ⟨analysis, analyzed, ok⟩ := bind_eq_ok.mp ok
  obtain ⟨program, made, ok⟩ := bind_eq_ok.mp ok
  obtain rfl := Except.ok.inj ok
  obtain ⟨⟨statements, roots⟩, found, same⟩ := bind_eq_ok.mp made
  obtain rfl := Except.ok.inj same
  obtain ⟨_, forest, _, _, given⟩ := analyze_eq_ok_iff.mp analyzed
  have blocked : statements.Blocked none :=
    (Classify.classified_of_siblings given).blocked (settled_of_analyze analyzed)
      (typed_of_analyze analyzed) found none (by intro none; cases none)
  refine ⟨analysis, _, analyzed, made, ?_, blocked.blockRows⟩
  rw [Program.code_colonIndent style, blocked.colonLines, List.map_map]
  rfl

/-- A list of imports between comments in a body, and an alternative after a comment that follows a
deeper block. -/
theorem compile_blockRows_nested :
    let config : Config := { keepComments := true }
    let source := ("if 1 < 2:\n  # first\n  packages:\n    - math\n  # last\n  if 2 < 3:\n" ++
      "    pass\n# between\nelif 3 < 4:\n  pass\nelse:\n  pass\n").toList
    let code := ("if 1 < 2:\n  # first\n  import math\n  # last\n  if 2 < 3:\n" ++
      "    pass\n# between\nelif 3 < 4:\n  pass\nelse:\n  pass\n").toList
    compile config source = .ok code ∧
      ∃ analysis program, analyze config source = .ok analysis ∧
        Program.ofForest analysis.forest = .ok program ∧
        code = ((program.statements.levels 0).map fun row =>
          CodeLine.row config.indentationUnit ⟨row.1, row.2.colonText⟩).flatMap (· ++ ['\n']) ∧
        BlockRows (program.statements.levels 0) := by
  intro config source code
  have compiled : compile config source = .ok code := eq_ok_of_toOption (by decide +kernel)
  exact ⟨compiled, compile_blockRows rfl compiled⟩

end Outline
