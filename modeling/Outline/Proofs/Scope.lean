import Mathlib.Data.List.Forall2
import Outline.Header.Edition
import Outline.Proofs.Layout

/-!
# Scope in the colon style

The nodes of a forest are listed with what stands above and below them (`Forest.places`). Some of
them make a row of their own: the statements, except below a node that holds a mapping or a list.
`compile_scope` says that the rows of a program are those nodes in order, each row indented by the
number of blocks that its node stands in.
-/

set_option autoImplicit false

namespace Outline

/-! ## Places -/

/-- A node of a forest, with the labels above it, the nearest first, and the forest below it. -/
structure Place (α : Type) where
  above : List α
  label : α
  below : Forest α

/-- The nodes of a forest in document order, given the labels above it. -/
def Forest.places {α : Type} (above : List α) : Forest α → List (Place α)
  | .nil => []
  | .cons label children rest =>
    ⟨above, label, children⟩ :: (children.places (label :: above) ++ rest.places above)

/-- The places of a forest are its nodes in document order. -/
theorem Forest.map_label_places {α : Type} (above : List α) (forest : Forest α) :
    (forest.places above).map Place.label = forest.preorder := by
  induction forest generalizing above with
  | nil => rfl
  | cons label children rest ihChildren ihRest => simp [places, preorder, ihChildren, ihRest]

/-- Whether a node with this role is a statement. -/
def Role.isStatement : Role → Bool
  | .assignment _ | .argCall _ | .bareCall _ | .print | .returnValue | .flow | .importEntry _
  | .comment => true
  | role => role.opensBlock

/-- Whether a node with this role holds a mapping or a list. -/
def Role.holdsData (role : Role) : Bool :=
  role.aggregate? == some .dict || role.aggregate? == some .list

namespace Place

/-- Whether the node makes a row of its own: it is a statement, and not part of the data of
another. -/
def makesRow (place : Place Node) : Bool :=
  place.label.role.isStatement && !place.above.any (·.role.holdsData)

/-- The number of blocks that the node stands in. -/
def scope (place : Place Node) : Nat := place.above.countP (·.role.opensBlock)

end Place

/-- The nodes of a forest that make a row of their own, in document order. -/
def Forest.rowPlaces (forest : Forest Node) : List (Place Node) :=
  (forest.places []).filter Place.makesRow

/-- The row that a contribution to a program makes in the colon style, without its indentation. -/
def Program.Output.row? : Output → Option Text
  | .line text => some text
  | .block header _ => some (header ++ [':'])
  | .children => none

/-- A row of text that a node makes: what the node contributes, on one row and not starting with a
blank. -/
structure Place.Makes [Letters] (place : Place Node) (text : Text) : Prop where
  contributed : ∃ out roots,
    Program.output place.label place.below = .ok (out, roots) ∧ out.row? = some text
  oneRow : '\n' ∉ text
  ink : ∃ c rest, text = c :: rest ∧ Text.isBlank c = false

/-! ## The rows of a forest -/

namespace Forest

/-- Nothing below data makes a row of its own. -/
theorem filter_places_of_holdsData {above : List Node}
    (data : above.any (·.role.holdsData) = true) (forest : Forest Node) :
    (forest.places above).filter Place.makesRow = [] := by
  induction forest generalizing above with
  | nil => rfl
  | cons node children rest ihChildren ihRest =>
    have inner : (node :: above).any (·.role.holdsData) = true := by simp [data]
    have own : Place.makesRow ⟨above, node, children⟩ = false := by simp [Place.makesRow, data]
    rw [places, List.filter_cons_of_neg (by rw [own]; decide), List.filter_append,
      ihChildren inner, ihRest data, List.append_nil]

/-- Outside data, a statement makes a row before those below it and those after it. -/
theorem filter_places_cons {above : List Node} (free : above.any (·.role.holdsData) = false)
    (node : Node) (children rest : Forest Node) :
    ((Forest.cons node children rest).places above).filter Place.makesRow =
      (if node.role.isStatement then [⟨above, node, children⟩] else []) ++
        ((children.places (node :: above)).filter Place.makesRow ++
          (rest.places above).filter Place.makesRow) := by
  have own : Place.makesRow ⟨above, node, children⟩ = node.role.isStatement := by
    simp [Place.makesRow, free]
  rw [places, List.filter_cons, own, List.filter_append]
  split <;> rfl

end Forest

namespace Program

/-- What the role of a node says about the form of its contribution. -/
def Output.Fits (role : Role) : Output → Prop
  | .line _ => role.isStatement = true ∧
      (Classify.mayOwnBlock role = false ∨ role.holdsData = true)
  | .block _ _ => role.isStatement = true ∧ role.opensBlock = true ∧ role.holdsData = false
  | .children => role.isStatement = false ∧ role.opensBlock = false ∧ role.holdsData = false

/-- What a node contributes has the form that its role says. -/
theorem Emission.fits [Letters] {node : Node} {children : Forest Node} {out : Output}
    (emission : Emission node children out) : out.Fits node.role := by
  cases emission with
  | assignment aggregate _ _ role | argCall aggregate _ _ role =>
    rw [role]
    cases aggregate with
    | scalar => exact ⟨rfl, .inl rfl⟩
    | dict => exact ⟨rfl, .inr rfl⟩
    | list => exact ⟨rfl, .inr rfl⟩
  | comment role | flow role | bareCall _ role | print _ _ role | returnPair _ _ _ role
  | returnBare role | importEntry _ role =>
    rw [role]
    exact ⟨rfl, .inl rfl⟩
  | ifThen _ _ _ role | elifThen _ _ _ role | otherwise role | whileLoop _ _ _ role
  | forLoop _ _ _ _ role | rangeLoop _ _ _ _ role | function _ _ role | importList role =>
    rw [role]
    exact ⟨rfl, rfl, rfl⟩

/-- A sound statement starts with ink. -/
theorem exists_ink_of_sound [Letters] {statement : Statement} (sound : statement.Sound) :
    ∃ c rest, statement.text = c :: rest ∧ Text.isBlank c = false := by
  rcases sound.kind with ⟨_, mark⟩ | ⟨⟨c, rest, text, start⟩, _⟩
  · obtain ⟨rest, text⟩ := List.head?_eq_some_iff.mp mark
    exact ⟨'#', rest, text, by decide⟩
  · exact ⟨c, rest, text, Grammar.isBlank_eq_false_of_isNameStart start⟩

theorem makes_line [Letters] {above : List Node} {node : Node} {children : Forest Node}
    {text : Text} {roots : List MemberRoot} (made : output node children = .ok (.line text, roots))
    (sound : Output.Sound (.line text)) : Place.Makes ⟨above, node, children⟩ text :=
  ⟨⟨.line text, roots, made, rfl⟩, sound.oneRow, exists_ink_of_sound sound⟩

theorem makes_block [Letters] {above : List Node} {node : Node} {children : Forest Node}
    {header : Text} {form : StatementForm} {roots : List MemberRoot}
    (made : output node children = .ok (.block header form, roots))
    (sound : Output.Sound (.block header form)) :
    Place.Makes ⟨above, node, children⟩ (header ++ [':']) := by
  obtain ⟨c, rest, text, ink⟩ := exists_ink_of_sound sound.2
  have whole : header = c :: rest := text
  refine ⟨⟨.block header form, roots, made, rfl⟩, ?_, c, rest ++ [':'], ?_, ink⟩
  · simp [show '\n' ∉ header from sound.2.oneRow]
  · rw [whole, List.cons_append]

/-- The lines of a forest in the colon style are the rows that its nodes make, in order, each at the
depth of its scope. -/
theorem forall₂_colonLines [Letters] {forest : Forest Node} {above : List Node}
    {statements : Forest Statement} {roots : List MemberRoot} (settled : forest.Every Settled)
    (free : above.any (·.role.holdsData) = false)
    (ok : statementsOf forest = .ok (statements, roots)) :
    List.Forall₂ (fun place line => line.depth = place.scope ∧ place.Makes line.text)
      ((forest.places above).filter Place.makesRow)
      (statements.colonLines (above.countP (·.role.opensBlock))) := by
  induction forest generalizing above statements roots with
  | nil =>
    obtain ⟨rfl, rfl⟩ := Prod.mk.inj (Except.ok.inj ok)
    exact .nil
  | cons node children rest ihChildren ihRest =>
    obtain ⟨out, own, after, later, made, more, ways⟩ := statementsOf_cons ok
    have sound := sound_output settled.1 settled.2.1 made
    have fits := (emission_of_output made).fits
    have afterRows := ihRest settled.2.2 free more
    rw [Forest.filter_places_cons free]
    rcases ways with ⟨text, rfl, rfl⟩ | ⟨header, form, body, inner, rfl, below, rfl⟩ |
      ⟨body, inner, rfl, below, rfl⟩
    · -- A line of its own: what is below it is nothing, or data.
      have noneBelow : (children.places (node :: above)).filter Place.makesRow = [] := by
        rcases fits.2 with mayNot | data
        · rw [settled.1.alone mayNot]
          rfl
        · exact Forest.filter_places_of_holdsData (by simp [data]) children
      rw [if_pos fits.1, noneBelow, List.nil_append, Forest.colonLines]
      exact .cons ⟨rfl, makes_line made sound⟩ afterRows
    · -- A block: the rows of its body are one level deeper, which is one more block around them.
      obtain ⟨statement, opens, noData⟩ := fits
      have freeBelow : (node :: above).any (·.role.holdsData) = false := by simp [noData, free]
      have deeper : (node :: above).countP (·.role.opensBlock) =
          above.countP (·.role.opensBlock) + 1 := List.countP_cons_of_pos opens
      have bodyRows := ihChildren settled.2.1 freeBelow below
      rw [deeper] at bodyRows
      have lines : (Forest.cons (⟨header, form⟩ : Statement) body after).colonLines
          (above.countP (·.role.opensBlock)) =
          ⟨above.countP (·.role.opensBlock), header ++ [':']⟩ ::
            (body.colonLines (above.countP (·.role.opensBlock) + 1) ++
              after.colonLines (above.countP (·.role.opensBlock))) := by
        rw [Forest.colonLines]
        cases form with
        | plain => exact absurd rfl sound.1
        | header => rfl
        | continuation => rfl
      rw [if_pos statement, lines]
      exact .cons ⟨rfl, makes_block made sound⟩ (List.rel_append bodyRows afterRows)
    · -- No row of its own: the rows of the children stay at this level.
      obtain ⟨noStatement, opensNone, noData⟩ := fits
      have freeBelow : (node :: above).any (·.role.holdsData) = false := by simp [noData, free]
      have level : (node :: above).countP (·.role.opensBlock) =
          above.countP (·.role.opensBlock) :=
        List.countP_cons_of_neg (by rw [opensNone]; decide)
      have bodyRows := ihChildren settled.2.1 freeBelow below
      rw [level] at bodyRows
      rw [if_neg (by rw [noStatement]; decide), List.nil_append, Forest.colonLines_append]
      exact List.rel_append bodyRows afterRows

end Program

theorem Config.isIndentUnit_of_validate {config : Config} (valid : config.validate = .ok ()) :
    Text.isIndentUnit config.indentationUnit = true := by
  obtain ⟨_, checked, _⟩ := bind_eq_ok.mp valid
  rw [checkUnit] at checked
  split at checked
  next unit => exact unit
  next => cases checked

/-- A unit has no line feed. -/
theorem Text.not_mem_of_isIndentUnit {unit : Text} (isUnit : isIndentUnit unit = true) :
    '\n' ∉ unit := by
  obtain ⟨c, width, kind, _, rfl⟩ := isIndentUnit_iff.mp isUnit
  intro feed
  obtain rfl := List.eq_of_mem_replicate feed
  exact absurd kind (by decide)

/-- Scope fidelity. The rows of the code are the nodes of the analyzed forest that make a row of
their own, one row for each and in document order. Each row is the indentation unit, as many times
as the node has blocks above it, and the text that the node contributes; the text is on one row and
does not start with a blank. -/
theorem compile_scope [Letters] {config : Config} {source code : Text}
    (style : config.blockStyle = .colonIndent) (ok : compile config source = .ok code) :
    ∃ analysis rows, analyze config source = .ok analysis ∧
      code = rows.flatMap (· ++ ['\n']) ∧
      List.Forall₂
        (fun place row => '\n' ∉ row ∧ ∃ text, place.Makes text ∧
          row = (List.replicate place.scope config.indentationUnit).flatten ++ text)
        analysis.forest.rowPlaces rows := by
  obtain ⟨analysis, analyzed, ok⟩ := bind_eq_ok.mp ok
  obtain ⟨program, made, ok⟩ := bind_eq_ok.mp ok
  obtain rfl := Except.ok.inj ok
  obtain ⟨⟨statements, roots⟩, found, same⟩ := bind_eq_ok.mp made
  obtain rfl := Except.ok.inj same
  have top : ([] : List Node).any (·.role.holdsData) = false := rfl
  have placed := Program.forall₂_colonLines (settled_of_analyze analyzed) top found
  have unit : '\n' ∉ config.indentationUnit := by
    obtain ⟨lines, _, scanned, _⟩ := analyze_eq_ok_iff.mp analyzed
    exact Text.not_mem_of_isIndentUnit
      (Config.isIndentUnit_of_validate (Line.scan_eq_ok_iff.mp scanned).1)
  refine ⟨analysis, (statements.colonLines 0).map fun line =>
    (List.replicate line.depth config.indentationUnit).flatten ++ line.text, analyzed, ?_, ?_⟩
  · rw [Program.code_eq, style, Program.lines_colonIndent, List.flatMap_map]
    rfl
  · rw [List.forall₂_map_right_iff]
    refine placed.imp ?_
    rintro place line ⟨depth, makes⟩
    refine ⟨?_, line.text, makes, by rw [depth]⟩
    simp only [List.mem_append, List.mem_flatten, List.mem_replicate]
    rintro (⟨_, ⟨_, rfl⟩, feed⟩ | feed)
    · exact unit feed
    · exact makes.oneRow feed

/-- An import, a comment in a block, a list with a comment inside it, and an alternative. -/
theorem compile_scope_nested :
    let config : Config := { keepComments := true }
    let source := ("packages:\n  - math\nif 1 < 2:\n  # note\n  x:\n    # inside\n    - 2\n" ++
      "else:\n  pass\n").toList
    let code := "import math\nif 1 < 2:\n  # note\n  x = [2]\nelse:\n  pass\n".toList
    compile config source = .ok code ∧
      ∃ analysis rows, analyze config source = .ok analysis ∧
        code = rows.flatMap (· ++ ['\n']) ∧
        List.Forall₂
          (fun place row => '\n' ∉ row ∧ ∃ text, place.Makes text ∧
            row = (List.replicate place.scope config.indentationUnit).flatten ++ text)
          analysis.forest.rowPlaces rows := by
  intro config source code
  have compiled : compile config source = .ok code := eq_ok_of_toOption (by decide +kernel)
  exact ⟨compiled, compile_scope rfl compiled⟩

end Outline
