import Outline.Header.Edition
import Outline.Proofs.Comments
import Outline.Proofs.Verbatim

/-!
# Rows with balanced brackets

Every row of a program in the colon style is balanced, except for comments and for an assignment to
a place that is not balanced itself (`compile_balancedRows`). Data are put together from balanced
values, what else goes into a row is a fixed word or a plain text, and only the place of an
assignment is written as it was found.
-/

set_option autoImplicit false

namespace Outline

open Nesting

theorem Text.isBalanced_word_append {word t : Text} (plain : word.all isNeutral = true)
    (back : isBalanced t = true) : isBalanced (word ++ t) = true :=
  isBalanced_neutral_append (List.all_eq_true.mp plain) back

namespace Program

/-! ## Data -/

/-- Balanced texts joined by commas are balanced. -/
theorem isBalanced_commas {texts : List Text}
    (balanced : ∀ text ∈ texts, Text.isBalanced text = true) :
    Text.isBalanced (commas texts) = true := by
  induction texts with
  | nil => exact Text.isBalanced_nil
  | cons first rest ih =>
    have own := balanced first List.mem_cons_self
    have later := ih fun text mem => balanced text (List.mem_cons_of_mem _ mem)
    rw [commas] at later ⊢
    cases rest with
    | nil =>
      rw [List.intercalate_singleton]
      exact own
    | cons second rest =>
      rw [List.intercalate_cons_cons, List.append_assoc]
      refine Text.isBalanced_append own ?_ rfl
      exact Text.isBalanced_word_append (by decide) later

/-- Data are balanced, whatever keys and values they are made of. -/
theorem composes_isBalanced [Letters] : Composes (fun _ => True) (Text.isBalanced · = true) where
  value _ read := Expression.isBalanced_ofText read
  name _ identifier := by
    refine Text.isBalanced_quoted rfl fun c mem => ?_
    have word := Text.isWordChar_of_mem_identifier identifier c mem
    constructor
    · rintro rfl
      exact absurd word (by decide +kernel)
    · rintro rfl
      exact absurd word (by decide +kernel)
  argument _ identifier inValue := by
    have word := Text.isWordChar_of_mem_identifier identifier
    refine Text.isBalanced_neutral_append (fun c mem => isNeutral_of_path (.inr (word c mem))) ?_
    exact Text.isBalanced_word_append (by decide : ['='].all isNeutral = true) inValue
  item := by decide +kernel
  pair inKey inValue := by
    rw [pair, List.append_assoc]
    refine Text.isBalanced_append inKey ?_ rfl
    exact Text.isBalanced_word_append (by decide) inValue
  commas := isBalanced_commas
  mapping balanced := Text.isBalanced_bracketed rfl (isBalanced_commas balanced)
  listing balanced := Text.isBalanced_bracketed rfl (isBalanced_commas balanced)

/-! ## Rows -/

/-- A call is balanced if its arguments are. -/
theorem isBalanced_call {callee arguments : Text} (plain : ∀ c ∈ callee, isNeutral c = true)
    (inside : Text.isBalanced arguments = true) :
    Text.isBalanced (call callee arguments) = true := by
  rw [call, List.append_assoc]
  exact Text.isBalanced_neutral_append plain (Text.isBalanced_bracketed rfl inside)

/-- What a value becomes is balanced. -/
theorem isBalanced_value [Letters] {line : Nat} {raw text : Text} {roots : List MemberRoot}
    (ok : value line raw = .ok (text, roots)) : Text.isBalanced text = true :=
  composes_isBalanced.ofValue trivial ok

/-- What is printed is balanced. -/
theorem isBalanced_printed [Letters] {node : Node} {text : Text} {roots : List MemberRoot}
    (ok : printed node = .ok (text, roots)) : Text.isBalanced text = true := by
  rw [printed] at ok
  split at ok
  next =>
    obtain ⟨rfl, rfl⟩ := Prod.mk.inj (Except.ok.inj ok)
    exact Text.isBalanced_nil
  next => exact isBalanced_value ok

/-- What a loop goes over is balanced. -/
theorem isBalanced_iterated [Letters] {line : Nat} {targets : List Text} {iterable text : Text}
    {roots : List MemberRoot} (ok : iterated line targets iterable = .ok (text, roots)) :
    Text.isBalanced text = true := by
  obtain ⟨⟨inner, found⟩, read, ok⟩ := bind_eq_ok.mp ok
  have balanced := isBalanced_value read
  change (if _ then _ else _) = _ at ok
  split at ok
  · obtain ⟨rfl, rfl⟩ := Prod.mk.inj (Except.ok.inj ok)
    exact Text.isBalanced_append balanced (by decide +kernel) rfl
  · obtain ⟨rfl, rfl⟩ := Prod.mk.inj (Except.ok.inj ok)
    exact balanced

theorem isBalanced_forHeader {targets : List Text} {iterated : Text}
    (plain : ∀ target ∈ targets, ∀ c ∈ target, isNeutral c = true)
    (balanced : Text.isBalanced iterated = true) :
    Text.isBalanced (forHeader targets iterated) = true := by
  have inTargets : ∀ c ∈ commas targets, isNeutral c = true := by
    intro c mem
    rcases Text.mem_intercalate mem with between | ⟨target, inTargets, inTarget⟩
    · exact List.all_eq_true.mp (by decide : [',', ' '].all isNeutral = true) c between
    · exact plain target inTargets c inTarget
  show Text.isBalanced ("for ".toList ++ commas targets ++ " in ".toList ++ iterated) = true
  rw [List.append_assoc, List.append_assoc]
  refine Text.isBalanced_word_append (by decide) ?_
  refine Text.isBalanced_neutral_append inTargets ?_
  exact Text.isBalanced_word_append (by decide) balanced

theorem isBalanced_importStatement {path : ImportPath}
    (plain : ∀ part ∈ path.texts, ∀ c ∈ part, isNeutral c = true) :
    Text.isBalanced (importStatement path) = true := by
  refine Text.isBalanced_of_neutral fun c mem => ?_
  rcases mem_importStatement mem with inWords | ⟨part, inPath, inPart⟩
  · exact List.all_eq_true.mp (by decide : "from import as ".toList.all isNeutral = true) c inWords
  · exact plain part inPath c inPart

/-- A row is a comment, or it is balanced, or it assigns a balanced value to a place. -/
theorem Emission.row_cases [Letters] {node : Node} {children : Forest Node} {out : Output}
    {row : Text}
    (emission : Emission node children out) (plain : node.Plain) (own : out.row? = some row) :
    row.head? = some '#' ∨ Text.isBalanced row = true ∨
      ∃ aggregate text, node.role = .assignment aggregate ∧
        row = node.keyText ++ (" = ".toList ++ text) ∧ Text.isBalanced text = true := by
  have below : ∀ other ∈ children.preorder, other.Holds fun _ => True :=
    fun _ _ => ⟨trivial, trivial⟩
  have block {header : Text} {form : StatementForm} (balanced : Text.isBalanced header = true)
      (own : (Output.block header form).row? = some row) : Text.isBalanced row = true := by
    obtain rfl := Option.some.inj own
    exact Text.isBalanced_append balanced (by decide +kernel) rfl
  have condition {word : Text} {line : Nat} {raw text : Text} {roots : List MemberRoot}
      (fixed : word.all isNeutral = true) (read : value line raw = .ok (text, roots)) :
      Text.isBalanced (word ++ ' ' :: text) = true :=
    Text.isBalanced_word_append fixed
      (Text.isBalanced_word_append (by decide : [' '].all isNeutral = true) (isBalanced_value read))
  rw [Node.Plain, Node.verbatim] at plain
  cases emission with
  | comment =>
    obtain rfl := Option.some.inj own
    exact .inl rfl
  | assignment aggregate text roots role held =>
    obtain rfl := Option.some.inj own
    refine .inr (.inr ⟨aggregate, text, role, List.append_assoc _ _ _, ?_⟩)
    exact composes_isBalanced.ofNodeValue ⟨trivial, trivial⟩ below held
  | flow role =>
    obtain rfl := Option.some.inj own
    rw [role] at plain
    exact .inr (.inl (Text.isBalanced_of_neutral (plain _ List.mem_cons_self)))
  | argCall aggregate arguments roots role given =>
    obtain rfl := Option.some.inj own
    rw [role] at plain
    have inside := composes_isBalanced.ofCallArguments ⟨trivial, trivial⟩ below given
    exact .inr (.inl (isBalanced_call (plain _ List.mem_cons_self) inside))
  | bareCall callee role =>
    obtain rfl := Option.some.inj own
    rw [role] at plain
    exact .inr (.inl (isBalanced_call (plain _ List.mem_cons_self) Text.isBalanced_nil))
  | print text roots role shown =>
    obtain rfl := Option.some.inj own
    have word : "print".toList.all isNeutral = true := by decide
    exact .inr (.inl (isBalanced_call (List.all_eq_true.mp word) (isBalanced_printed shown)))
  | returnPair raw text roots role hasValue read =>
    obtain rfl := Option.some.inj own
    exact .inr (.inl (Text.isBalanced_word_append (by decide) (isBalanced_value read)))
  | returnBare =>
    obtain rfl := Option.some.inj own
    exact .inr (.inl (by decide +kernel))
  | ifThen _ _ _ _ read | elifThen _ _ _ _ read | whileLoop _ _ _ _ read =>
    exact .inr (.inl (block (condition (by decide) read) own))
  | otherwise => exact .inr (.inl (block (by decide +kernel) own))
  | forLoop targets _ _ _ role read =>
    rw [role] at plain
    exact .inr (.inl (block (isBalanced_forHeader plain (isBalanced_iterated read)) own))
  | rangeLoop targets _ _ _ role read =>
    rw [role] at plain
    exact .inr (.inl (block (isBalanced_forHeader plain (isBalanced_value read)) own))
  | function name param role =>
    rw [role] at plain
    have inParam : Text.isBalanced (param.getD []) = true := by
      cases param with
      | none => exact Text.isBalanced_nil
      | some param =>
        exact Text.isBalanced_of_neutral (plain param (List.mem_cons_of_mem _ List.mem_cons_self))
    have whole := isBalanced_call (plain name List.mem_cons_self) inParam
    exact .inr (.inl (block (Text.isBalanced_word_append (by decide) whole) own))
  | importList => cases own
  | importEntry path role =>
    obtain rfl := Option.some.inj own
    rw [role] at plain
    exact .inr (.inl (isBalanced_importStatement plain))

end Program

/-- The row assigns a balanced value to a place that is not balanced itself. -/
structure Place.AssignsOdd (place : Place Node) (row : Text) : Prop where
  assigns : ∃ aggregate, place.label.role = .assignment aggregate
  odd : Text.isBalanced place.label.keyText = false
  written : ∃ lead value, row = lead ++ (place.label.keyText ++ (" = ".toList ++ value)) ∧
    (∀ c ∈ lead, Text.isBlank c = true) ∧ Text.isBalanced value = true

/-- A row that a plain node makes, behind blanks. -/
theorem Place.Makes.balanced [Letters] {place : Place Node} {text lead : Text}
    (makes : place.Makes text)
    (plain : place.label.Plain) (blank : ∀ c ∈ lead, Text.isBlank c = true) :
    Text.isCommentRow (lead ++ text) = true ∨ Text.isBalanced (lead ++ text) = true ∨
      place.AssignsOdd (lead ++ text) := by
  obtain ⟨out, roots, made, own⟩ := makes.contributed
  have neutral : ∀ c ∈ lead, isNeutral c = true := fun c mem => isNeutral_of_isBlank (blank c mem)
  rcases (Program.emission_of_output made).row_cases plain own with
    comment | balanced | ⟨aggregate, value, role, rfl, inValue⟩
  · have front : ∀ c ∈ text.head?, Text.isBlank c = false := by
      intro c first
      rw [comment] at first
      obtain rfl := Option.some.inj first
      decide
    left
    rw [Text.isCommentRow, Text.trimStart_append blank, Text.trimStart_eq_self front, comment]
    rfl
  · exact .inr (.inl (Text.isBalanced_neutral_append neutral balanced))
  · cases odd : Text.isBalanced place.label.keyText with
    | false => exact .inr (.inr ⟨⟨aggregate, role⟩, odd, lead, value, rfl, blank, inValue⟩)
    | true =>
      have back : Text.isBalanced (" = ".toList ++ value) = true :=
        Text.isBalanced_word_append (by decide) inValue
      have whole := Text.isBalanced_append odd back rfl
      exact .inr (.inl (Text.isBalanced_neutral_append neutral whole))

/-- Balanced rows. The rows of the code are the nodes of the analyzed forest that make a row of
their own, in document order. Each row is a comment, or each string on it ends and its brackets
outside strings are nested, each closed by its own kind; or it is an assignment to a place that is
not balanced itself, and what is assigned is balanced. -/
theorem compile_balancedRows [Letters] {config : Config} {source code : Text}
    (style : config.blockStyle = .colonIndent) (ok : compile config source = .ok code) :
    ∃ analysis rows, analyze config source = .ok analysis ∧
      code = rows.flatMap (· ++ ['\n']) ∧
      List.Forall₂
        (fun place row => '\n' ∉ row ∧ (Text.isCommentRow row = true ∨
          Text.isBalanced row = true ∨ place.AssignsOdd row))
        analysis.forest.rowPlaces rows := by
  obtain ⟨analysis, analyzed, ok⟩ := bind_eq_ok.mp ok
  obtain ⟨program, made, ok⟩ := bind_eq_ok.mp ok
  obtain rfl := Except.ok.inj ok
  obtain ⟨⟨statements, roots⟩, found, same⟩ := bind_eq_ok.mp made
  obtain rfl := Except.ok.inj same
  have isUnit := isIndentUnit_of_analyze analyzed
  have placed := Program.forall₂_colonLines (settled_of_analyze analyzed)
    (rfl : ([] : List Node).any (·.role.holdsData) = false) found
  have plain : ∀ place ∈ analysis.forest.rowPlaces, place.label.Plain := by
    obtain ⟨_, forest, _, _, given⟩ := analyze_eq_ok_iff.mp analyzed
    intro place mem
    refine Classify.plain_of_classify given place.label ?_
    rw [← Forest.map_label_places []]
    exact List.mem_map_of_mem (List.mem_of_mem_filter mem)
  refine ⟨analysis, _, analyzed, Program.code_colonIndent style _, ?_⟩
  rw [List.forall₂_map_right_iff]
  refine ((List.forall₂_and_left _ _).mpr ⟨plain, placed⟩).imp ?_
  rintro place line ⟨plain, _, makes⟩
  exact ⟨CodeLine.row_oneRow isUnit makes.oneRow,
    makes.balanced plain (Text.blank_indentation isUnit line.depth)⟩

/-- Strings that hold brackets, alone and with a placeholder, brackets in brackets, a comment with a
bracket too many, a place with a string in it, and at last a place that is not balanced. -/
theorem compile_balancedRows_mixed :
    let config : Config := { keepComments := true }
    let source := ("packages:\n  - math\nfunction f define x:\n  return: \"a\x7bx[0]\x7d]\"\n" ++
      "# note )\nfor k in [1, (2)]:\n  f: \x7b'(': k\x7d\nx[\"]\"]:\n  key: '''it's)'''\n" ++
      "a[)]: math.pi\n").toList
    let code := ("import math\ndef f(x):\n  return f\"a\x7bx[0]\x7d]\"\n" ++
      "# note )\nfor k in [1, (2)]:\n  f(\x7b'(': k\x7d)\n" ++
      "x[\"]\"] = \x7b'key': '''it's)'''\x7d\na[)] = math.pi\n").toList
    compile config source = .ok code ∧
      ∃ analysis rows, analyze config source = .ok analysis ∧
        code = rows.flatMap (· ++ ['\n']) ∧
        List.Forall₂
          (fun place row => '\n' ∉ row ∧ (Text.isCommentRow row = true ∨
            Text.isBalanced row = true ∨ place.AssignsOdd row))
          analysis.forest.rowPlaces rows := by
  intro config source code
  have compiled : compile config source = .ok code := eq_ok_of_toOption (by decide +kernel)
  exact ⟨compiled, compile_balancedRows rfl compiled⟩

/-- An assignment is accepted although a bracket in its place closes another kind, and its row is
written as it is. -/
theorem compile_odd_place :
    let config : Config := {}
    let row := "a[)] = 1".toList
    config.blockStyle = .colonIndent ∧
      compile config "a[)]: 1\n".toList = .ok (row ++ ['\n']) ∧
      Text.isCommentRow row = false ∧ Text.isBalanced row = false := by
  intro config row
  refine ⟨rfl, eq_ok_of_toOption ?_, ?_, ?_⟩ <;> decide +kernel

end Outline
