import Outline.Proofs.Scope
import Outline.Proofs.Typed

/-!
# Kept comments are transparent

Each stage passes comments by. Without its comments (`Forest.prune`), what a stage makes of a
document that keeps them is what it makes of the document that drops them: the same lines of code,
the same trees, the same roles and names, and the same statements. So keeping comments adds the rows
of the comments to the code, and changes nothing else (`compile_keepComments`).
-/

set_option autoImplicit false

namespace Outline

/-! ## Forests without some of their trees -/

namespace Forest

variable {α : Type}

/-- The forest without the trees whose label is not to be kept. -/
def prune (keep : α → Bool) : Forest α → Forest α
  | .nil => .nil
  | .cons label children rest =>
    if keep label then .cons label (children.prune keep) (rest.prune keep) else rest.prune keep

theorem prune_cons_of_pos {keep : α → Bool} {label : α} (kept : keep label = true)
    (children rest : Forest α) :
    (Forest.cons label children rest).prune keep =
      .cons label (children.prune keep) (rest.prune keep) := by
  rw [prune, if_pos kept]

theorem prune_cons_of_neg {keep : α → Bool} {label : α} (dropped : keep label = false)
    (children rest : Forest α) :
    (Forest.cons label children rest).prune keep = rest.prune keep := by
  rw [prune, if_neg (by rw [dropped]; decide)]

/-- Two forests side by side are pruned one by one. -/
theorem prune_append (keep : α → Bool) (left right : Forest α) :
    (left.append right).prune keep = (left.prune keep).append (right.prune keep) := by
  induction left with
  | nil => rfl
  | cons label children rest _ ih =>
    rw [append, prune, prune, ih]
    split <;> rfl

/-- The roots that are code stay when the comments go. -/
theorem codeRoots_prune (forest : Forest Node) :
    (forest.prune Node.isCode).codeRoots = forest.codeRoots := by
  induction forest with
  | nil => rfl
  | cons node children rest _ ih =>
    rw [codeRoots, codeRoots] at ih
    cases code : node.isCode with
    | true =>
      rw [prune_cons_of_pos code, codeRoots, codeRoots, roots, roots, List.filter_cons_of_pos code,
        List.filter_cons_of_pos code, ih]
    | false =>
      rw [prune_cons_of_neg code, codeRoots, codeRoots, ih, roots,
        List.filter_cons_of_neg (by rw [code]; decide)]

/-- No node stands below a comment. -/
def BareComments (forest : Forest Node) : Prop :=
  forest.Every fun node children => node.isCode = false → children = .nil

/-- The nodes that are left when comments are taken out are the lines of code. -/
theorem preorder_prune {forest : Forest Node} (bare : forest.BareComments) :
    (forest.prune Node.isCode).preorder = forest.preorder.filter Node.isCode := by
  induction forest with
  | nil => rfl
  | cons node children rest ihChildren ihRest =>
    rw [preorder, List.filter_cons, List.filter_append]
    cases code : node.isCode with
    | true =>
      rw [prune_cons_of_pos code, preorder, ihChildren bare.2.1, ihRest bare.2.2]
      rfl
    | false =>
      rw [prune_cons_of_neg code, ihRest bare.2.2, bare.1 code]
      rfl

end Forest

/-! ## Lines -/

namespace Line

/-- A row read without comments is the row read with them, and its comments dropped. -/
theorem ofRow_dropped (unit : Option Text) (row : Row) :
    ofRow false unit row = (ofRow true unit row).map Nest.codeLines := by
  rw [ofRow, ofRow]
  split
  · rfl
  · split
    · rfl
    · split <;> rfl

/-- Without comments the rows make the lines of code only. -/
theorem ofRows_dropped (unit : Option Text) (rows : List Row) :
    ofRows false unit rows = (ofRows true unit rows).map Nest.codeLines := by
  induction rows with
  | nil => rfl
  | cons row rows ih =>
    refine bind_map (ofRow_dropped unit row) fun own _ => ?_
    refine bind_map ih fun later _ => ?_
    exact congrArg Except.ok (List.filter_append own later).symm

/-- A source read without comments is the source read with them, and its comments dropped. -/
theorem scan_dropped (config : Config) (source : Text) :
    scan { config with keepComments := false } source =
      (scan { config with keepComments := true } source).map Nest.codeLines := by
  refine bind_map_right fun _ _ => ?_
  exact bind_map_right fun unit _ => ofRows_dropped unit _

end Line

/-! ## Trees -/

namespace Forest

theorem Led.tail {label : Nat × Node} {labels : List (Nat × Node)} (led : Led (label :: labels)) :
    Led labels := by
  refine ⟨led.next.tail, ?_⟩
  intro last isLast
  refine led.last last ?_
  rw [List.getLast?_cons, Option.mem_def.mp isLast]
  rfl

/-- Nothing that follows a comment is below it. -/
theorem Led.none_deeper {label : Nat × Node} {labels : List (Nat × Node)}
    (led : Led (label :: labels)) (comment : label.2.isCode = false) {depth : Nat}
    (shallow : label.1 ≤ depth) :
    (labels.takeWhile fun next => depth < next.1) = [] ∧
      (labels.dropWhile fun next => depth < next.1) = labels := by
  cases labels with
  | nil => exact ⟨rfl, rfl⟩
  | cons next more =>
    have same := (List.isChain_cons_cons.mp led.next).1 comment
    have stop : ¬ decide (depth < next.1) = true := by
      simp only [decide_eq_true_eq]
      omega
    exact ⟨List.takeWhile_cons_of_neg stop, List.dropWhile_cons_of_neg stop⟩

/-- The labels that become children, and those after them, may be found before or after comments
are taken out. -/
theorem Led.filter_isCode {labels : List (Nat × Node)} (led : Led labels) (depth : Nat) :
    ((labels.filter fun label => label.2.isCode).takeWhile fun next => depth < next.1) =
        (labels.takeWhile fun next => depth < next.1).filter (fun label => label.2.isCode) ∧
      ((labels.filter fun label => label.2.isCode).dropWhile fun next => depth < next.1) =
        (labels.dropWhile fun next => depth < next.1).filter fun label => label.2.isCode := by
  induction labels with
  | nil => exact ⟨rfl, rfl⟩
  | cons label labels ih =>
    obtain ⟨inner, outer⟩ := ih led.tail
    by_cases deeper : depth < label.1
    · rw [List.takeWhile_cons_of_pos (by simpa using deeper),
        List.dropWhile_cons_of_pos (by simpa using deeper)]
      cases code : label.2.isCode with
      | true => simp [code, deeper, inner, outer]
      | false => simp [code, inner, outer]
    · cases code : label.2.isCode with
      | true => simp [code, deeper]
      | false =>
        -- What follows the comment is as shallow as the comment itself.
        have none := led.none_deeper code (Nat.le_of_not_lt deeper)
        rw [none.1] at inner
        rw [none.2] at outer
        simp [code, deeper, inner, outer]

/-- The forest of the lines of code is the forest of all lines without its comments. -/
theorem ofLevels_filter {labels : List (Nat × Node)} (led : Led labels) :
    ofLevels (labels.filter fun label => label.2.isCode) = (ofLevels labels).prune Node.isCode := by
  fun_induction ofLevels labels with
  | case1 =>
    rw [List.filter_nil, ofLevels]
    rfl
  | case2 depth label rest ihChildren ihRest =>
    cases code : label.isCode with
    | true =>
      obtain ⟨inner, outer⟩ := led.tail.filter_isCode depth
      rw [List.filter_cons_of_pos (by exact code), ofLevels, inner, outer,
        ihChildren led.takeWhile, ihRest led.dropWhile, prune_cons_of_pos code]
    | false =>
      have none := led.none_deeper code (Nat.le_refl depth)
      rw [List.filter_cons_of_neg (by rw [code]; decide), prune_cons_of_neg code,
        ← ihRest led.dropWhile, none.2]

/-- No node stands below a comment, since a comment is at the depth of the label after it. -/
theorem bareComments_ofLevels {labels : List (Nat × Node)} (led : Led labels) :
    (ofLevels labels).BareComments := by
  fun_induction ofLevels labels with
  | case1 => trivial
  | case2 depth label rest ihChildren ihRest =>
    refine ⟨?_, ihChildren led.takeWhile, ihRest led.dropWhile⟩
    intro comment
    rw [(led.none_deeper comment (Nat.le_refl depth)).1, ofLevels]

end Forest

namespace Nest

/-- Comments break no rule of depths. -/
theorem check_codeLines (previous : Option Line) (lines : List Line) :
    check previous (codeLines lines) = check previous lines := by
  induction lines generalizing previous with
  | nil => rfl
  | cons line lines ih =>
    cases kind : line.isComment with
    | true => rw [codeLines_cons_comment kind, check_cons_comment kind, ih]
    | false =>
      rw [codeLines_cons_code kind]
      cases previous <;> rw [check, check, ih, ih]

/-- Without the comments, the nodes of code stay at their depths. -/
theorem placed_codeLines (lines : List Line) :
    placed (codeLines lines) = (placed lines).filter fun label => label.2.isCode := by
  induction lines with
  | nil => rfl
  | cons line lines ih =>
    rw [placed]
    cases kind : line.isComment with
    | true =>
      rw [codeLines_cons_comment kind, ih, List.filter_cons_of_neg]
      simp [kind]
    | false =>
      rw [codeLines_cons_code kind, placed, ih, List.filter_cons_of_pos (by simp [kind]), nextDepth,
        nextDepth, if_neg (by rw [kind]; decide), if_neg (by rw [kind]; decide)]

/-- In the forest of a document no node stands below a comment. -/
theorem bareComments_ofLines {lines : List Line} {forest : Forest Node}
    (made : Forest.ofLines lines = .ok forest) : forest.BareComments := by
  obtain ⟨_, rfl⟩ := ofLines_eq_ok_iff.mp made
  exact Forest.bareComments_ofLevels (led_placed lines)

/-- The lines of code nest as all lines do, without the comments. -/
theorem ofLines_codeLines (lines : List Line) :
    Forest.ofLines (codeLines lines) = (Forest.ofLines lines).map (Forest.prune Node.isCode) := by
  rw [ofLines_eq, ofLines_eq, check_codeLines]
  refine bind_map_right fun _ _ => ?_
  rw [placed_codeLines, Forest.ofLevels_filter (led_placed lines)]
  rfl

end Nest

/-! ## Roles -/

namespace Classify

/-- A comment is classified as one wherever it stands. -/
theorem role_of_comment [Letters] {node : Node} (comment : node.isCode = false)
    (table : SymbolTable) (context : Context) (previous : Option Role) :
    role table context previous node [] = .ok .comment := by
  have shape : node.shape = .comment := by simpa [Node.isCode] using comment
  simp only [role, decideRole, shape]
  rfl

/-- The pass over the lines of code gives the roles and the names that it gives with comments. -/
theorem siblings_prune [Letters] {forest : Forest Node} (bare : forest.BareComments)
    (context : Context) (previous : Option Role) (table : SymbolTable) :
    siblings context previous table (forest.prune Node.isCode) =
      (siblings context previous table forest).map (Prod.map (Forest.prune Node.isCode) id) := by
  induction forest generalizing context previous table with
  | nil => rfl
  | cons node children rest ihChildren ihRest =>
    cases code : node.isCode with
    | true =>
      rw [Forest.prune_cons_of_pos code, siblings, siblings, Forest.codeRoots_prune]
      refine bind_map_right fun role _ => ?_
      refine bind_map (ihChildren bare.2.1 _ _ _) fun below _ => ?_
      refine bind_map (ihRest bare.2.2 _ _ _) fun after _ => ?_
      have kept : Node.isCode { node with role } = true := code
      exact congrArg (fun pruned => Except.ok (pruned, after.2))
        (Forest.prune_cons_of_pos kept below.1 after.1).symm
    | false =>
      -- The comment leaves the names and the statement before it as they are.
      obtain rfl := bare.1 code
      rw [Forest.prune_cons_of_neg code, siblings, ihRest bare.2.2]
      show _ = ((role table context previous node [] >>= _).map _)
      rw [role_of_comment code, code]
      show _ = ((siblings context previous table rest >>= _).map _)
      cases siblings context previous table rest with
      | error error => rfl
      | ok result =>
        have dropped : Node.isCode { node with role := .comment } = false := code
        exact congrArg (fun pruned => Except.ok (pruned, result.2))
          (Forest.prune_cons_of_neg dropped .nil result.1).symm

end Classify

/-- An analysis without the comments. -/
def Analysis.uncommented (analysis : Analysis) : Analysis :=
  { analysis with forest := analysis.forest.prune Node.isCode }

/-- The analysis of a document that drops its comments is the one that keeps them, without the
comments. -/
theorem analyze_dropped [Letters] (config : Config) (source : Text) :
    analyze { config with keepComments := false } source =
      (analyze { config with keepComments := true } source).map Analysis.uncommented := by
  refine bind_map (Line.scan_dropped config source) fun lines _ => ?_
  refine bind_map (Nest.ofLines_codeLines lines) fun forest nested => ?_
  exact bind_map (Classify.siblings_prune (Nest.bareComments_ofLines nested) _ _ _) fun _ _ => rfl

/-! ## Statements -/

/-- Whether a statement is code, and not a comment on a line of its own. -/
def Statement.isCode (statement : Statement) : Bool :=
  statement.form != .plain || statement.text.head? != some '#'

/-- A statement that starts with a name is code. -/
theorem Statement.isCode_of_startsName [Letters] {text : Text} (start : Grammar.StartsName text)
    (form : StatementForm) : isCode ⟨text, form⟩ = true := by
  have noMark := (CodeLine.plain_of_startsName start 0).1
  rw [CodeLine.isComment] at noMark
  simp [isCode, bne, noMark]

namespace Program

/-- Entries of data are found among the lines of code. -/
theorem data_prune [Letters] (forest : Forest Node) :
    dictPairs (forest.prune Node.isCode) = dictPairs forest ∧
      listItems (forest.prune Node.isCode) = listItems forest := by
  induction forest with
  | nil => exact ⟨rfl, rfl⟩
  | cons node children rest ihChildren ihRest =>
    cases code : node.isCode with
    | true =>
      rw [Forest.prune_cons_of_pos code, dictPairs, dictPairs, listItems, listItems, ihChildren.1,
        ihChildren.2, ihRest.1, ihRest.2]
      exact ⟨rfl, rfl⟩
    | false =>
      rw [Forest.prune_cons_of_neg code, dictPairs, listItems, code]
      exact ihRest

/-- Comments are no part of what a node holds. -/
theorem nodeValue_prune [Letters] (aggregate : Aggregate) (node : Node) (children : Forest Node) :
    nodeValue aggregate node (children.prune Node.isCode) = nodeValue aggregate node children := by
  rw [nodeValue, nodeValue, (data_prune children).1, (data_prune children).2]

/-- Comments are no arguments of a call. -/
theorem keywordArguments_prune [Letters] (forest : Forest Node) :
    keywordArguments (forest.prune Node.isCode) = keywordArguments forest := by
  induction forest with
  | nil => rfl
  | cons node children rest _ ih =>
    cases code : node.isCode with
    | true =>
      rw [Forest.prune_cons_of_pos code, keywordArguments, keywordArguments, ih]
      simp only [nodeValue_prune]
    | false =>
      rw [Forest.prune_cons_of_neg code, keywordArguments, code]
      exact ih

/-- Comments below a node change nothing in what it writes. -/
theorem output_prune [Letters] (node : Node) (children : Forest Node) :
    output node (children.prune Node.isCode) = output node children := by
  have given (aggregate : Aggregate) : callArguments aggregate node (children.prune Node.isCode) =
      callArguments aggregate node children := by
    unfold callArguments
    rw [(data_prune children).2, keywordArguments_prune]
  unfold output
  simp only [nodeValue_prune, given]

/-- The lines of code make the statements that they make among comments, and have the same
roots. -/
theorem statementsOf_prune [Letters] {forest : Forest Node} (settled : forest.Every Settled)
    (typed : forest.Every Node.Typed) :
    statementsOf (forest.prune Node.isCode) =
      (statementsOf forest).map (Prod.map (Forest.prune Statement.isCode) id) := by
  induction forest with
  | nil => rfl
  | cons node children rest ihChildren ihRest =>
    have inChildren := ihChildren settled.2.1 typed.2.1
    have inRest := ihRest settled.2.2 typed.2.2
    have commentRole : node.isCode = false ↔ node.role = .comment := by
      rw [← typed.1.comment]
      simp [Node.isCode]
    cases code : node.isCode with
    | true =>
      have start {out : Output} {text : Text} (emission : Emission node children out)
          (own : out.text? = some text) : Grammar.StartsName text := by
        refine emission.startsName settled.1 ?_ own
        rw [Ne, ← commentRole, code]
        decide
      rw [Forest.prune_cons_of_pos code, statementsOf, statementsOf, output_prune]
      refine bind_map_right fun made emitted => ?_
      obtain ⟨out, own⟩ := made
      cases out with
      | line text =>
        have kept := Statement.isCode_of_startsName (start (emission_of_output emitted) rfl) .plain
        refine bind_map inRest fun after _ => ?_
        exact congrArg (fun pruned => Except.ok (pruned, own ++ after.2))
          (Forest.prune_cons_of_pos kept .nil after.1).symm
      | block header form =>
        have kept := Statement.isCode_of_startsName (start (emission_of_output emitted) rfl) form
        refine bind_map inChildren fun body _ => ?_
        refine bind_map inRest fun after _ => ?_
        exact congrArg (fun pruned => Except.ok (pruned, own ++ body.2 ++ after.2))
          (Forest.prune_cons_of_pos kept body.1 after.1).symm
      | children =>
        refine bind_map inChildren fun body _ => ?_
        refine bind_map inRest fun after _ => ?_
        exact congrArg (fun pruned => Except.ok (pruned, own ++ body.2 ++ after.2))
          (Forest.prune_append _ body.1 after.1).symm
    | false =>
      have written : output node children = .ok (.line ("# ".toList ++ node.valueText), []) := by
        rw [output.eq_def, commentRole.mp code]
      rw [Forest.prune_cons_of_neg code, statementsOf, written, inRest]
      show _ = ((statementsOf rest >>= _).map _)
      cases statementsOf rest with
      | error error => rfl
      | ok result =>
        have dropped : Statement.isCode ⟨"# ".toList ++ node.valueText, .plain⟩ = false := rfl
        exact congrArg (fun pruned => Except.ok (pruned, result.2))
          (Forest.prune_cons_of_neg dropped .nil result.1).symm

/-- The program without the comments. -/
def uncommented (program : Program) : Program :=
  { program with statements := program.statements.prune Statement.isCode }

/-- The program of a forest without its comments is the program without its comments. -/
theorem ofForest_prune [Letters] {forest : Forest Node} (settled : forest.Every Settled)
    (typed : forest.Every Node.Typed) :
    ofForest (forest.prune Node.isCode) = (ofForest forest).map uncommented :=
  bind_map (statementsOf_prune settled typed) fun _ _ => rfl

end Program

/-- The nodes of an analysis are typed. -/
theorem typed_of_analyze [Letters] {config : Config} {source : Text} {analysis : Analysis}
    (ok : analyze config source = .ok analysis) : analysis.forest.Every Node.Typed := by
  obtain ⟨_, forest, _, _, given⟩ := analyze_eq_ok_iff.mp ok
  exact (Classify.classified_of_siblings given).typed.2

theorem Forest.bareComments_of_typed [Letters] {forest : Forest Node}
    (settled : forest.Every Settled) (typed : forest.Every Node.Typed) : forest.BareComments := by
  induction forest with
  | nil => trivial
  | cons node children rest ihChildren ihRest =>
    refine ⟨?_, ihChildren settled.2.1 typed.2.1, ihRest settled.2.2 typed.2.2⟩
    intro comment
    refine settled.1.alone ?_
    rw [typed.1.comment.mp (by simpa [Node.isCode] using comment)]
    rfl

/-- The statements of a program are sound. -/
theorem Program.sound_ofForest [Letters] {forest : Forest Node} {program : Program}
    (settled : forest.Every Settled) (made : Program.ofForest forest = .ok program) :
    ∀ statement ∈ program.statements.preorder, statement.Sound := by
  obtain ⟨⟨statements, roots⟩, found, same⟩ := bind_eq_ok.mp made
  obtain rfl := Except.ok.inj same
  exact Program.sound_statementsOf settled found

/-- The program of a document that drops its comments is the one that keeps them, without the
comments. -/
theorem program_dropped [Letters] (config : Config) (source : Text) :
    (analyze { config with keepComments := false } source >>= fun analysis =>
        Program.ofForest analysis.forest) =
      (analyze { config with keepComments := true } source >>= fun analysis =>
        Program.ofForest analysis.forest).map Program.uncommented :=
  bind_map (analyze_dropped config source) fun _ analyzed =>
    Program.ofForest_prune (settled_of_analyze analyzed) (typed_of_analyze analyzed)

/-- Compiling is analysing, making the program of the forest, and laying it out. -/
theorem compile_eq_map [Letters] (config : Config) (source : Text) :
    compile config source =
      (analyze config source >>= fun analysis => Program.ofForest analysis.forest).map
        fun program => program.code config := by
  rw [compile]
  cases analyze config source with
  | error error => rfl
  | ok analysis =>
    show (Program.ofForest analysis.forest >>= _) = (Program.ofForest analysis.forest).map _
    cases Program.ofForest analysis.forest <;> rfl

/-- A source is analysed only with an indentation unit that is one. -/
theorem isIndentUnit_of_analyze [Letters] {config : Config} {source : Text} {analysis : Analysis}
    (ok : analyze config source = .ok analysis) :
    Text.isIndentUnit config.indentationUnit = true := by
  obtain ⟨_, _, scanned, _⟩ := analyze_eq_ok_iff.mp ok
  exact Config.isIndentUnit_of_validate (Line.scan_eq_ok_iff.mp scanned).1

/-! ## Rows -/

/-- Statements without comments are laid out as the lines that are no comments. -/
theorem Forest.colonLines_prune [Letters] {statements : Forest Statement}
    (sound : ∀ statement ∈ statements.preorder, statement.Sound) (depth : Nat) :
    (statements.prune Statement.isCode).colonLines depth =
      (statements.colonLines depth).filter fun line => !line.isComment := by
  induction statements generalizing depth with
  | nil => rfl
  | cons statement body rest ihBody ihRest =>
    have inBody := ihBody fun other mem =>
      sound other (List.mem_cons_of_mem _ (List.mem_append_left _ mem))
    have inRest := ihRest fun other mem =>
      sound other (List.mem_cons_of_mem _ (List.mem_append_right _ mem))
    rcases (sound statement List.mem_cons_self).kind with ⟨plain, mark⟩ | ⟨start, _⟩
    · have dropped : statement.isCode = false := by simp [Statement.isCode, plain, mark]
      rw [prune_cons_of_neg dropped, inRest, colonLines, plain]
      exact (List.filter_cons_of_neg (by simp [CodeLine.isComment, mark])).symm
    · have kept := Statement.isCode_of_startsName start statement.form
      rw [prune_cons_of_pos kept, colonLines, colonLines]
      cases statement.form with
      | plain =>
        rw [List.filter_cons_of_pos (by simp [CodeLine.plain_of_startsName start depth]), inRest]
      | header | continuation =>
        have noMark := (CodeLine.plain_of_startsName (start.append [':']) depth).1
        rw [List.filter_cons_of_pos (by simp [noMark]), List.filter_append, inBody, inRest]

/-- Each line of sound statements is on one row and does not start with a blank. -/
theorem Forest.clean_colonLines [Letters] {statements : Forest Statement}
    (sound : ∀ statement ∈ statements.preorder, statement.Sound) (depth : Nat) :
    ∀ line ∈ statements.colonLines depth,
      '\n' ∉ line.text ∧ ∃ c rest, line.text = c :: rest ∧ Text.isBlank c = false := by
  induction statements generalizing depth with
  | nil =>
    intro line mem
    cases mem
  | cons statement body rest ihBody ihRest =>
    have own := sound statement List.mem_cons_self
    have inBody := ihBody fun other mem =>
      sound other (List.mem_cons_of_mem _ (List.mem_append_left _ mem))
    have inRest := ihRest fun other mem =>
      sound other (List.mem_cons_of_mem _ (List.mem_append_right _ mem))
    obtain ⟨c, tail, text, ink⟩ := Program.exists_ink_of_sound own
    intro line mem
    rw [colonLines] at mem
    cases form : statement.form with
    | plain =>
      rw [form] at mem
      rcases List.mem_cons.mp mem with rfl | later
      · exact ⟨own.oneRow, c, tail, text, ink⟩
      · exact inRest depth line later
    | header | continuation =>
      rw [form] at mem
      rcases List.mem_cons.mp mem with rfl | later
      · refine ⟨by simp [own.oneRow], c, tail ++ [':'], by rw [text, List.cons_append], ink⟩
      · rcases List.mem_append.mp later with inside | later
        · exact inBody (depth + 1) line inside
        · exact inRest depth line later

/-- Indentation is blank. -/
theorem Text.blank_indentation {unit : Text} (isUnit : isIndentUnit unit = true) (depth : Nat) :
    ∀ c ∈ (List.replicate depth unit).flatten, isBlank c = true := by
  intro c mem
  obtain ⟨_, inUnits, inUnit⟩ := List.mem_flatten.mp mem
  obtain rfl := List.eq_of_mem_replicate inUnits
  obtain ⟨mark, width, kind, _, rfl⟩ := isIndentUnit_iff.mp isUnit
  obtain rfl := List.eq_of_mem_replicate inUnit
  rcases kind with rfl | rfl <;> decide

/-- Whether the first character of a row after its indentation is the mark of a comment. -/
def Text.isCommentRow (row : Text) : Bool := (trimStart row).head? == some commentMark

namespace CodeLine

/-- The row of a line: its text, indented by its depth. -/
def row (unit : Text) (line : CodeLine) : Text :=
  (List.replicate line.depth unit).flatten ++ line.text

/-- A line of code is one row, if its text is. -/
theorem row_oneRow {unit : Text} (isUnit : Text.isIndentUnit unit = true) {line : CodeLine}
    (oneRow : '\n' ∉ line.text) : '\n' ∉ line.row unit := by
  rw [row, List.mem_append, List.mem_flatten]
  rintro (⟨_, inUnits, feed⟩ | feed)
  · obtain rfl := List.eq_of_mem_replicate inUnits
    exact Text.not_mem_of_isIndentUnit isUnit feed
  · exact oneRow feed

/-- A row is a comment exactly if its line is. -/
theorem isCommentRow_row {unit : Text} (isUnit : Text.isIndentUnit unit = true) {line : CodeLine}
    (ink : ∃ c rest, line.text = c :: rest ∧ Text.isBlank c = false) :
    Text.isCommentRow (line.row unit) = line.isComment := by
  have front : ∀ c ∈ line.text.head?, Text.isBlank c = false := by
    obtain ⟨first, rest, text, blankless⟩ := ink
    intro c mem
    rw [text] at mem
    obtain rfl := Option.some.inj mem
    exact blankless
  rw [Text.isCommentRow, row, Text.trimStart_append (Text.blank_indentation isUnit line.depth),
    Text.trimStart_eq_self front]
  rfl

end CodeLine

namespace Program

variable {config : Config} (style : config.blockStyle = .colonIndent)

include style

/-- In the style with colons, the code has a row for each line, ended by a line feed. -/
theorem code_colonIndent (program : Program) :
    program.code config =
      ((program.statements.colonLines 0).map (CodeLine.row config.indentationUnit)).flatMap
        (· ++ ['\n']) := by
  rw [code_eq, style, lines_colonIndent, List.flatMap_map]
  rfl

/-- The code of a program without its comments is the code without the rows of the comments. -/
theorem code_uncommented [Letters] (isUnit : Text.isIndentUnit config.indentationUnit = true)
    {program : Program} (sound : ∀ statement ∈ program.statements.preorder, statement.Sound) :
    program.uncommented.code config =
      (((program.statements.colonLines 0).map (CodeLine.row config.indentationUnit)).filter
        fun row => !Text.isCommentRow row).flatMap (· ++ ['\n']) := by
  rw [code_colonIndent style, uncommented, Forest.colonLines_prune sound, List.filter_map]
  congr 2
  refine List.filter_congr fun line mem => ?_
  have ink := (Forest.clean_colonLines sound 0 line mem).2
  rw [Function.comp_apply, CodeLine.isCommentRow_row isUnit ink]

end Program

/-- Kept comments are transparent. Whether comments are kept or dropped, a source is refused with
the same error, or it makes code: with the same names, the same tree of lines of code with the same
roles, and the same member roots. The code without comments is the code with them, without the rows
whose first character after the indentation starts a comment. -/
theorem compile_keepComments [Letters] (config : Config) (source : Text) :
    let keeping : Config := { config with blockStyle := .colonIndent, keepComments := true }
    let dropping : Config := { config with blockStyle := .colonIndent, keepComments := false }
    (∃ error, compile keeping source = .error error ∧ compile dropping source = .error error) ∨
      ∃ (kept dropped : Analysis) (program bare : Program) (rows : List Text),
        analyze keeping source = .ok kept ∧ analyze dropping source = .ok dropped ∧
        dropped.symbols = kept.symbols ∧
        dropped.forest = kept.forest.prune Node.isCode ∧
        dropped.forest.preorder = kept.forest.preorder.filter Node.isCode ∧
        Program.ofForest kept.forest = .ok program ∧ Program.ofForest dropped.forest = .ok bare ∧
        bare.memberRoots = program.memberRoots ∧
        (∀ row ∈ rows, '\n' ∉ row) ∧
        compile keeping source = .ok (rows.flatMap (· ++ ['\n'])) ∧
        compile dropping source =
          .ok ((rows.filter fun row => !Text.isCommentRow row).flatMap (· ++ ['\n'])) := by
  intro keeping dropping
  have programs := program_dropped { config with blockStyle := .colonIndent } source
  rw [compile_eq_map keeping, compile_eq_map dropping]
  cases made : analyze keeping source >>= fun analysis => Program.ofForest analysis.forest with
  | error error =>
    refine .inl ⟨error, rfl, ?_⟩
    rw [programs, made]
    rfl
  | ok program =>
    rw [programs, made]
    obtain ⟨kept, analyzed, made⟩ := bind_eq_ok.mp made
    have settled := settled_of_analyze analyzed
    have typed := typed_of_analyze analyzed
    have sound := Program.sound_ofForest settled made
    have isUnit := isIndentUnit_of_analyze analyzed
    refine .inr ⟨kept, kept.uncommented, program, program.uncommented,
      (program.statements.colonLines 0).map (CodeLine.row config.indentationUnit), analyzed, ?_,
      rfl, rfl, Forest.preorder_prune (Forest.bareComments_of_typed settled typed), made, ?_, rfl,
      ?_, ?_, ?_⟩
    · exact (analyze_dropped { config with blockStyle := .colonIndent } source).trans
        (congrArg (Except.map Analysis.uncommented) analyzed)
    · exact (Program.ofForest_prune settled typed).trans
        (congrArg (Except.map Program.uncommented) made)
    · intro row mem
      obtain ⟨line, inLines, rfl⟩ := List.mem_map.mp mem
      exact CodeLine.row_oneRow isUnit (Forest.clean_colonLines sound 0 line inLines).1
    · rw [← Program.code_colonIndent (rfl : keeping.blockStyle = .colonIndent)]
      rfl
    · rw [← Program.code_uncommented (rfl : dropping.blockStyle = .colonIndent) isUnit sound]
      rfl

end Outline
