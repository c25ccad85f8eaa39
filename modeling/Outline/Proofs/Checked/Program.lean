import Outline.Program.Layout
import Outline.Proofs.Checked.Expression
import Outline.Proofs.Checked.Text
import Outline.Proofs.Statement

/-!
# Writing a program with a running depth

The code of a classified forest in one pass with checked operations. Every value is read as an
expression by offsets, and the depth of the lines is a number that goes up before the body of a
block and down by one behind it. Each pass leaves the depth as it found it, so what is taken off it
is what was added.
-/

set_option autoImplicit false

namespace Outline.Checked

open Text Program

/-! ## Data -/

/-- The expression of a value, and the names whose members it takes. -/
def value [Letters] (line : Nat) (raw : Text) : Run Error (Traced Text) := do
  let expression ← readValue line raw
  return (expression.text, expression.memberRoots.toList.map fun name => ⟨line, name⟩)

theorem value_eq [Letters] (line : Nat) (raw : Text) :
    value line raw = total (Program.value line raw) :=
  total_bind (readValue_eq line raw) fun _ _ => rfl

/-- A key of a mapping. -/
def dictKey [Letters] (line : Nat) (key : Text) : Run Error (Traced Text) :=
  if isIdentifier key then return ('\'' :: key ++ ['\''], []) else value line key

theorem dictKey_eq [Letters] (line : Nat) (key : Text) :
    dictKey line key = total (Program.dictKey line key) := by
  rw [dictKey, Program.dictKey, value_eq]
  split <;> rfl

/-- What a node holds. -/
def held [Letters] (aggregate : Aggregate) (node : Node)
    (pairs items : Unit → Run Error (Traced (List Text))) : Run Error (Traced Text) :=
  match aggregate with
  | .scalar => value node.line node.valueText
  | .dict => do
    let (pairs, roots) ← pairs ()
    return (mapping pairs, roots)
  | .list => do
    let (items, roots) ← items ()
    return (listing items, roots)

/-- The pair that the line of a list item itself gives to the mapping below it. -/
def inlinePair [Letters] (node : Node) : Run Error (Traced (List Text)) :=
  match node.key, node.value with
  | some key, some raw => do
    let (key, keyRoots) ← dictKey node.line key
    let (value, valueRoots) ← value node.line raw
    return ([pair key value], keyRoots ++ valueRoots)
  | none, some raw => do
    let (value, roots) ← value node.line raw
    return ([pair "'item'".toList value], roots)
  | _, none => return ([], [])

theorem inlinePair_eq [Letters] (node : Node) :
    inlinePair node = total (Program.inlinePair node) := by
  unfold inlinePair Program.inlinePair
  cases node.value with
  | none => cases node.key <;> rfl
  | some raw =>
    cases node.key with
    | none => exact total_bind (value_eq node.line raw) fun _ _ => rfl
    | some key =>
      refine total_bind (dictKey_eq node.line key) fun _ _ => ?_
      exact total_bind (value_eq node.line raw) fun _ _ => rfl

/-- The item that an entry of a list makes. -/
def listItem [Letters] (aggregate : Aggregate) (node : Node)
    (pairs items : Unit → Run Error (Traced (List Text))) : Run Error (Traced Text) :=
  match node.key, node.value, aggregate with
  | some key, none, _ => do
    let (key, keyRoots) ← dictKey node.line key
    let (value, valueRoots) ← held aggregate node pairs items
    return (mapping [pair key value], keyRoots ++ valueRoots)
  | _, _, .scalar => value node.line node.valueText
  | _, _, .list => do
    let (items, roots) ← items ()
    return (listing items, roots)
  | _, _, .dict => do
    let (first, firstRoots) ← inlinePair node
    let (pairs, roots) ← pairs ()
    return (mapping (first ++ pairs), firstRoots ++ roots)

section Below

variable {pairs items : Unit → Run Error (Traced (List Text))}
  {pairs' items' : Unit → Except Error (Traced (List Text))}
  (samePairs : pairs () = total (pairs' ())) (sameItems : items () = total (items' ()))

include samePairs sameItems

theorem held_eq [Letters] (aggregate : Aggregate) (node : Node) :
    held aggregate node pairs items = total (Program.held aggregate node pairs' items') := by
  cases aggregate with
  | scalar => exact value_eq node.line node.valueText
  | dict => exact total_bind samePairs fun _ _ => rfl
  | list => exact total_bind sameItems fun _ _ => rfl

theorem listItem_eq [Letters] (aggregate : Aggregate) (node : Node) :
    listItem aggregate node pairs items =
      total (Program.listItem aggregate node pairs' items') := by
  unfold listItem Program.listItem
  cases aggregate <;> cases node.key <;> cases node.value
  case scalar.some.none key | dict.some.none key | list.some.none key =>
    refine total_bind (dictKey_eq node.line key) fun _ _ => ?_
    exact total_bind (held_eq samePairs sameItems _ node) fun _ _ => rfl
  case scalar.none.none | scalar.none.some | scalar.some.some =>
    exact value_eq node.line node.valueText
  case list.none.none | list.none.some | list.some.some =>
    exact total_bind sameItems fun _ _ => rfl
  case dict.none.none | dict.none.some | dict.some.some =>
    refine total_bind (inlinePair_eq node) fun _ _ => ?_
    exact total_bind samePairs fun _ _ => rfl

end Below

mutual

/-- The pairs of a mapping, one for each entry. -/
def dictPairs [Letters] : Forest Node → Run Error (Traced (List Text))
  | .nil => return ([], [])
  | .cons node children rest =>
    match node.isCode, node.role with
    | true, .dictEntry aggregate => do
      let (key, keyRoots) ← dictKey node.line node.keyText
      let (value, valueRoots) ←
        held aggregate node (fun _ => dictPairs children) (fun _ => listItems children)
      let (pairs, roots) ← dictPairs rest
      return (pair key value :: pairs, keyRoots ++ valueRoots ++ roots)
    | _, _ => dictPairs rest

/-- The items of a list, one for each entry. -/
def listItems [Letters] : Forest Node → Run Error (Traced (List Text))
  | .nil => return ([], [])
  | .cons node children rest =>
    match node.isCode, node.role with
    | true, .listEntry aggregate => do
      let (item, itemRoots) ←
        listItem aggregate node (fun _ => dictPairs children) (fun _ => listItems children)
      let (items, roots) ← listItems rest
      return (item :: items, itemRoots ++ roots)
    | _, _ => listItems rest

end

/-- Pairs and items are written without a trap. Both hold at once, since each kind may hold the
other. -/
theorem entries_eq [Letters] (forest : Forest Node) :
    dictPairs forest = total (Program.dictPairs forest) ∧
      listItems forest = total (Program.listItems forest) := by
  -- Both at once: a pair may hold a list, and an item may hold a mapping.
  induction forest with
  | nil => exact ⟨rfl, rfl⟩
  | cons node children rest children_ih rest_ih =>
    obtain ⟨pairs, items⟩ := children_ih
    rw [dictPairs.eq_def, Program.dictPairs.eq_def, listItems.eq_def, Program.listItems.eq_def]
    dsimp only
    cases node.isCode with
    | false => exact rest_ih
    | true =>
      cases node.role with
      | dictEntry aggregate =>
        refine ⟨total_bind (dictKey_eq node.line node.keyText) fun _ _ => ?_, rest_ih.2⟩
        refine total_bind (held_eq pairs items aggregate node) fun _ _ => ?_
        exact total_bind rest_ih.1 fun _ _ => rfl
      | listEntry aggregate =>
        refine ⟨rest_ih.1, total_bind (listItem_eq pairs items aggregate node) fun _ _ => ?_⟩
        exact total_bind rest_ih.2 fun _ _ => rfl
      | _ => exact rest_ih

/-- What a node holds, given the forest below it. -/
def nodeValue [Letters] (aggregate : Aggregate) (node : Node) (children : Forest Node) :
    Run Error (Traced Text) :=
  held aggregate node (fun _ => dictPairs children) (fun _ => listItems children)

theorem nodeValue_eq [Letters] (aggregate : Aggregate) (node : Node) (children : Forest Node) :
    nodeValue aggregate node children = total (Program.nodeValue aggregate node children) := by
  obtain ⟨pairs, items⟩ := entries_eq children
  exact held_eq pairs items aggregate node

/-! ## Calls -/

/-- The keyword arguments of a call, one for each entry. -/
def keywordArguments [Letters] : Forest Node → Run Error (Traced (List Text))
  | .nil => return ([], [])
  | .cons node children rest =>
    match node.isCode, node.role with
    | true, .dictEntry aggregate =>
      if isIdentifier node.keyText then do
        let (value, valueRoots) ← nodeValue aggregate node children
        let (arguments, roots) ← keywordArguments rest
        return ((node.keyText ++ '=' :: value) :: arguments, valueRoots ++ roots)
      else throw (.expression node.line (badArgument node.keyText))
    | _, _ => keywordArguments rest

theorem keywordArguments_eq [Letters] (forest : Forest Node) :
    keywordArguments forest = total (Program.keywordArguments forest) := by
  induction forest with
  | nil => rfl
  | cons node children rest _ rest_ih =>
    rw [keywordArguments.eq_def, Program.keywordArguments.eq_def]
    dsimp only
    cases node.isCode with
    | false => exact rest_ih
    | true =>
      cases node.role with
      | dictEntry aggregate =>
        dsimp only
        split
        · refine total_bind (nodeValue_eq aggregate node children) fun _ _ => ?_
          exact total_bind rest_ih fun _ _ => rfl
        · rfl
      | _ => exact rest_ih

/-- The arguments of a call. -/
def callArguments [Letters] (aggregate : Aggregate) (node : Node) (children : Forest Node) :
    Run Error (Traced Text) :=
  match aggregate with
  | .scalar =>
    match node.value with
    | some raw => value node.line raw
    | none => return ([], [])
  | .list => do
    let (items, roots) ← listItems children
    return (commas items, roots)
  | .dict => do
    let (arguments, roots) ← keywordArguments children
    return (commas arguments, roots)

theorem callArguments_eq [Letters] (aggregate : Aggregate) (node : Node) (children : Forest Node) :
    callArguments aggregate node children =
      total (Program.callArguments aggregate node children) := by
  cases aggregate with
  | scalar =>
    unfold callArguments Program.callArguments
    cases node.value with
    | none => rfl
    | some raw => exact value_eq node.line raw
  | list => exact total_bind (entries_eq children).2 fun _ _ => rfl
  | dict => exact total_bind (keywordArguments_eq children) fun _ _ => rfl

/-! ## Printing -/

/-- The search for an opening brace stops where the characters other than such a brace do. -/
theorem find?_brace (offset : Nat) (s : Text) :
    find? ['{'] offset s =
      if (s.takeWhile (· != '{')).length < s.length then
        some (offset + byteSize (s.takeWhile (· != '{')))
      else none := by
  induction s generalizing offset with
  | nil => rfl
  | cons c rest ih =>
    rw [find?]
    by_cases brace : c = '{'
    · subst brace
      rfl
    · have absent : after? ['{'] (c :: rest) = none := by simp [after?, Ne.symm brace]
      have kept : (c :: rest).takeWhile (· != '{') = c :: rest.takeWhile (· != '{') :=
        List.takeWhile_cons_of_pos (by simpa using brace)
      rw [absent, if_neg (by simp), ih, kept, byteSize_cons, Nat.add_assoc]
      simp only [List.length_cons, Nat.add_lt_add_iff_right]

/-- Whether a printed value is a template without quotes. -/
def isBareTemplate (s : Text) : Checked Bool :=
  match s with
  | [] => .ok false
  | first :: _ =>
    if isOpening first || startsWithLiteral s then .ok false
    else
      match find? ['{'] 0 s with
      | none => .ok false
      | some offset => do
        let before ← front s offset
        if before.contains '(' || before.contains '[' then return false
        else
          let outcome ← (split s).run
          match outcome with
          | .ok segments => return Template.hasPlaceholders segments
          | .error _ => return false

/-- The part of a printed value before its first brace is cut off on a character boundary. -/
theorem isBareTemplate_eq (s : Text) : isBareTemplate s = .ok (Program.isBareTemplate s) := by
  cases s with
  | nil => rfl
  | cons first rest =>
    have parts : first :: rest = (first :: rest).takeWhile (· != '{') ++
        (first :: rest).dropWhile (· != '{') := List.takeWhile_append_dropWhile.symm
    rw [isBareTemplate, Program.isBareTemplate, find?_brace, Nat.zero_add]
    generalize (first :: rest).takeWhile (· != '{') = before at parts ⊢
    cases isOpening first <;> cases startsWithLiteral (first :: rest) <;> try rfl
    by_cases inside : before.length < (first :: rest).length
    · rw [if_pos inside, decide_eq_true inside]
      dsimp only
      rw [front_append parts rfl, ok_bind, split_eq]
      cases List.contains before '(' <;> cases List.contains before '[' <;> try rfl
      cases Template.split (first :: rest) <;> rfl
    · rw [if_neg inside, decide_eq_false inside]
      rfl

/-- What is printed: a template without quotes is quoted first. -/
def printed [Letters] (node : Node) : Run Error (Traced Text) :=
  match node.value with
  | none => return ([], [])
  | some raw => do
    let bare ← isBareTemplate raw
    value node.line (if bare then Expression.quoteTemplate raw else raw)

/-- A value is printed without a trap, also where it is quoted first. -/
theorem printed_eq [Letters] (node : Node) : printed node = total (Program.printed node) := by
  unfold printed Program.printed
  cases node.value with
  | none => rfl
  | some raw =>
    dsimp only
    rw [lift_bind (isBareTemplate_eq raw)]
    exact value_eq node.line _

/-! ## Statements -/

/-- What a loop runs over. -/
def iterated [Letters] (line : Nat) (targets : List Text) (iterable : Text) :
    Run Error (Traced Text) := do
  let (text, roots) ← value line iterable
  if targets.length = 2 && isIdentifier iterable then return (text ++ ".items()".toList, roots)
  else return (text, roots)

theorem iterated_eq [Letters] (line : Nat) (targets : List Text) (iterable : Text) :
    iterated line targets iterable = total (Program.iterated line targets iterable) := by
  refine total_bind (value_eq line iterable) fun _ _ => ?_
  dsimp only
  split <;> rfl

/-- A word and the expression after it, as the header of a block. -/
def conditionHeader [Letters] (word : String) (form : StatementForm) (line : Nat)
    (condition : Text) : Run Error (Traced Output) := do
  let (text, roots) ← value line condition
  return (.block (word.toList ++ ' ' :: text) form, roots)

theorem conditionHeader_eq [Letters] (word : String) (form : StatementForm) (line : Nat)
    (condition : Text) : conditionHeader word form line condition =
      total (Program.conditionHeader word form line condition) :=
  total_bind (value_eq line condition) fun _ _ => rfl

/-- What a node contributes, given the forest below it. -/
def output [Letters] (node : Node) (children : Forest Node) : Run Error (Traced Output) :=
  match node.role with
  | .assignment aggregate => do
    let (text, roots) ← nodeValue aggregate node children
    return (.line (node.keyText ++ " = ".toList ++ text), roots)
  | .argCall aggregate => do
    let (arguments, roots) ← callArguments aggregate node children
    return (.line (call node.keyText arguments), roots)
  | .print => do
    let (text, roots) ← printed node
    return (.line (call "print".toList text), roots)
  | .returnValue =>
    match node.shape, node.value with
    | .keyed, some raw => do
      let (text, roots) ← value node.line raw
      return (.line ("return ".toList ++ text), roots)
    | _, _ => return (.line "return".toList, [])
  | .ifHeader condition => conditionHeader "if" .header node.line condition
  | .elifHeader condition => conditionHeader "elif" .continuation node.line condition
  | .whileHeader condition => conditionHeader "while" .header node.line condition
  | .forHeader targets iterable => do
    let (text, roots) ← iterated node.line targets iterable
    return (.block (forHeader targets text) .header, roots)
  | .rangeForHeader targets range => do
    let (text, roots) ← value node.line range
    return (.block (forHeader targets text) .header, roots)
  | _ => total (Program.output node children)

/-- A node is written without a trap. -/
theorem output_eq [Letters] (node : Node) (children : Forest Node) :
    output node children = total (Program.output node children) := by
  unfold output
  cases known : node.role <;> try rfl
  all_goals
    rw [Program.output, known]
    dsimp only
  case assignment aggregate =>
    exact total_bind (nodeValue_eq aggregate node children) fun _ _ => rfl
  case argCall aggregate =>
    exact total_bind (callArguments_eq aggregate node children) fun _ _ => rfl
  case print => exact total_bind (printed_eq node) fun _ _ => rfl
  case returnValue =>
    cases node.shape <;> cases node.value <;> try rfl
    next raw => exact total_bind (value_eq node.line raw) fun _ _ => rfl
  case ifHeader condition => exact conditionHeader_eq _ _ _ condition
  case elifHeader condition => exact conditionHeader_eq _ _ _ condition
  case whileHeader condition => exact conditionHeader_eq _ _ _ condition
  case forHeader targets iterable =>
    exact total_bind (iterated_eq node.line targets iterable) fun _ _ => rfl
  case rangeForHeader targets range =>
    exact total_bind (value_eq node.line range) fun _ _ => rfl

/-! ## Writing -/

/-- What has been written so far, and the depth at which writing goes on. -/
structure Progress where
  /-- The number of open blocks. -/
  depth : Nat := 0
  /-- The lines. -/
  buffer : Buffer := {}
  /-- The names whose members have been taken. -/
  roots : List MemberRoot := []

namespace Progress

/-- More names are met. -/
def trace (state : Progress) (roots : List MemberRoot) : Progress :=
  { state with roots := state.roots ++ roots }

/-- A line is written. -/
def line (state : Progress) (text : Text) : Progress :=
  { state with buffer := state.buffer.push state.depth text }

/-- The header of a block is written, and its body is one level deeper. -/
def opened (style : BlockStyle) (state : Progress) (statement : Statement) : Progress :=
  { state with
    depth := state.depth + 1
    buffer := state.buffer.openBlock style state.depth statement }

/-- The depth goes down by one, and the block is closed there. -/
def closed (style : BlockStyle) (state : Progress) : Checked Progress := do
  let depth ← sub state.depth 1
  return { state with depth, buffer := state.buffer.closeBlock style depth }

/-- What has been written after more statements, with the names met in them. -/
def after (style : BlockStyle) (state : Progress) (made : Traced (Forest Statement)) : Progress :=
  { state with
    buffer := state.buffer.layout style state.depth made.1
    roots := state.roots ++ made.2 }

/-- What has been written after a block, with the names met in its body. -/
def afterBlock (style : BlockStyle) (state : Progress) (statement : Statement)
    (body : Traced (Forest Statement)) : Progress :=
  let opened := state.buffer.openBlock style state.depth statement
  { state with
    buffer := (opened.layout style (state.depth + 1) body.1).closeBlock style state.depth
    roots := state.roots ++ body.2 }

end Progress

/-- The statements of a forest are written. -/
def emit [Letters] (style : BlockStyle) : Forest Node → Progress → Run Error Progress
  | .nil, state => return state
  | .cons node children rest, state => do
    let (output, roots) ← output node children
    match output with
    | .line text => emit style rest ((state.trace roots).line text)
    | .block header form => do
      let inner ← emit style children ((state.trace roots).opened style ⟨header, form⟩)
      let closed ← inner.closed style
      emit style rest closed
    | .children => do
      let inner ← emit style children (state.trace roots)
      emit style rest inner

/-- Two forests of statements are laid out one after the other. -/
theorem layout_append (style : BlockStyle) (depth : Nat) (left right : Forest Statement)
    (buffer : Buffer) :
    Buffer.layout style depth (left.append right) buffer =
      Buffer.layout style depth right (Buffer.layout style depth left buffer) := by
  induction left generalizing buffer with
  | nil => rfl
  | cons statement body rest _ rest_ih =>
    rw [Forest.append, Buffer.layout, Buffer.layout]
    cases statement.form <;> exact rest_ih _

namespace Progress

variable (style : BlockStyle) (state : Progress) (roots : List MemberRoot)

theorem after_nil : state.after style (.nil, []) = state := by
  rw [after, List.append_nil]
  rfl

/-- A line and the statements after it are appended as one forest. -/
theorem after_line (text : Text) (rest : Traced (Forest Statement)) :
    ((state.trace roots).line text).after style rest =
      state.after style (.cons ⟨text, .plain⟩ .nil rest.1, roots ++ rest.2) := by
  simp only [after, line, trace, Buffer.layout, List.append_assoc]

/-- The depth that is taken off behind a body is the one that was added before it. -/
theorem closed_after (statement : Statement) (body : Traced (Forest Statement)) :
    ((state.opened style statement).after style body).closed style =
      .ok (state.afterBlock style statement body) := by
  have down : sub (state.depth + 1) 1 = .ok state.depth := sub_of_le (Nat.le_add_left 1 _)
  rw [closed]
  exact congrArg (· >>= _) down

/-- A block and the statements after it are appended as one forest. -/
theorem after_afterBlock {statement : Statement} (blocked : statement.form ≠ .plain)
    (body rest : Traced (Forest Statement)) :
    ((state.trace roots).afterBlock style statement body).after style rest =
      state.after style (.cons statement body.1 rest.1, roots ++ body.2 ++ rest.2) := by
  simp only [after, afterBlock, trace, List.append_assoc]
  rw [Buffer.layout]
  cases form : statement.form with
  | plain => exact absurd form blocked
  | header | continuation => rfl

/-- What a node without a statement of its own leaves to its children is appended before the
statements after it. -/
theorem after_children (body rest : Traced (Forest Statement)) :
    ((state.trace roots).after style body).after style rest =
      state.after style (body.1.append rest.1, roots ++ body.2 ++ rest.2) := by
  simp only [after, trace, layout_append, List.append_assoc]

end Progress

/-- The header of a block is no plain statement. -/
theorem form_ne_plain [Letters] {node : Node} {children : Forest Node} {header : Text}
    {form : StatementForm} {roots : List MemberRoot}
    (made : Program.output node children = .ok (.block header form, roots)) : form ≠ .plain := by
  rintro rfl
  cases emission_of_output made

/-- Going on from a state is going on from an earlier one with what was written in between. -/
theorem emit_rest [Letters] {style : BlockStyle} {rest : Forest Node} {earlier later : Progress}
    {joined : Traced (Forest Statement) → Traced (Forest Statement)}
    (written : ∀ state, emit style rest state =
      total ((statementsOf rest).map (Progress.after style state)))
    (same : ∀ made, later.after style made = earlier.after style (joined made)) :
    emit style rest later =
      total ((statementsOf rest >>= fun made => .ok (joined made)).map (earlier.after style)) := by
  rw [written]
  cases statementsOf rest with
  | error e => rfl
  | ok made => exact congrArg (total ∘ Except.ok) (same made)

/-- Writing a forest is writing the statements it makes, and leaves the depth as it was. -/
theorem emit_eq [Letters] (style : BlockStyle) (forest : Forest Node) (state : Progress) :
    emit style forest state = total ((statementsOf forest).map (state.after style)) := by
  -- The state is general, since the body of a block is written one level deeper.
  induction forest generalizing state with
  | nil => exact congrArg (total ∘ Except.ok) (state.after_nil style).symm
  | cons node children rest children_ih rest_ih =>
    rw [emit, output_eq, statementsOf]
    cases made : Program.output node children with
    | error e => rfl
    | ok traced =>
      obtain ⟨output, roots⟩ := traced
      cases output with
      | line text => exact emit_rest rest_ih (state.after_line style roots text)
      | block header form =>
        change emit style children _ >>= _ = _
        rw [children_ih]
        cases statementsOf children with
        | error e => rfl
        | ok body =>
          have closed := (state.trace roots).closed_after style ⟨header, form⟩ body
          refine (lift_bind closed _).trans ?_
          exact emit_rest rest_ih (state.after_afterBlock style roots (form_ne_plain made) body)
      | children =>
        change emit style children _ >>= _ = _
        rw [children_ih]
        cases statementsOf children with
        | error e => rfl
        | ok body => exact emit_rest rest_ih (state.after_children style roots body)

end Outline.Checked
