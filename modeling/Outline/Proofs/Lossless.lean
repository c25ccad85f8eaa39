import Outline.Header.Edition
import Outline.Proofs.Scope
import Outline.Proofs.Typed

/-!
# Nothing is lost on the way to a program

Where data are gathered, entries of another role than the expected one are passed over, and a node
whose role makes no statement is an error. In a classified forest neither happens: every line of
code below a node that holds data makes one part of these data (`Node.Lossless`), and what is left
to fail is a text that is read as an expression, or the name of a keyword argument.
-/

set_option autoImplicit false

namespace Outline

/-! ## Trees of a forest -/

namespace Forest

/-- The trees whose roots are lines of code, in order, each as its root and the forest below it. -/
def codeTrees : Forest Node → List (Node × Forest Node)
  | .nil => []
  | .cons node children rest =>
    if node.isCode then (node, children) :: rest.codeTrees else rest.codeTrees

/-- The roots of the code trees are the roots that are code. -/
theorem map_fst_codeTrees (forest : Forest Node) :
    forest.codeTrees.map Prod.fst = forest.codeRoots := by
  induction forest with
  | nil => rfl
  | cons node children rest _ ih =>
    rw [codeRoots] at ih
    rw [codeTrees, codeRoots, roots, List.filter_cons]
    split
    · rw [List.map_cons, ih]
    · exact ih

theorem length_codeTrees (forest : Forest Node) :
    forest.codeTrees.length = forest.codeRoots.length := by
  rw [← map_fst_codeTrees, List.length_map]

variable {α : Type} {P Q : α → Forest α → Prop}

/-- A property that some label and the forest below it have. -/
def Any (P : α → Forest α → Prop) : Forest α → Prop
  | .nil => False
  | .cons label children rest => P label children ∨ children.Any P ∨ rest.Any P

theorem Any.imp {forest : Forest α} (any : forest.Any P)
    (weaker : ∀ label children, P label children → Q label children) : forest.Any Q := by
  induction forest with
  | nil => exact any
  | cons label children rest ihChildren ihRest =>
    rcases any with own | below | after
    · exact .inl (weaker label children own)
    · exact .inr (.inl (ihChildren below))
    · exact .inr (.inr (ihRest after))

end Forest

namespace Program

/-! ## Data entry by entry -/

/-- What a node holds, by its role. -/
def heldBy [Letters] (tree : Node × Forest Node) : Except Error (Traced Text) :=
  nodeValue (tree.1.role.aggregate?.getD .scalar) tree.1 tree.2

/-- The pair that an entry of a mapping makes. -/
def dictPair [Letters] (tree : Node × Forest Node) : Except Error (Traced Text) := do
  let (key, keyRoots) ← dictKey tree.1.line tree.1.keyText
  let (value, valueRoots) ← heldBy tree
  return (pair key value, keyRoots ++ valueRoots)

/-- The item that an entry of a list makes. -/
def itemOf [Letters] (tree : Node × Forest Node) : Except Error (Traced Text) :=
  listItem (tree.1.role.aggregate?.getD .scalar) tree.1 (fun _ => dictPairs tree.2)
    (fun _ => listItems tree.2)

/-- The keyword argument that an entry makes. -/
def keywordArgument [Letters] (tree : Node × Forest Node) : Except Error (Traced Text) :=
  if Text.isIdentifier tree.1.keyText then do
    let (value, roots) ← heldBy tree
    return (tree.1.keyText ++ '=' :: value, roots)
  else .error (.expression tree.1.line (badArgument tree.1.keyText))

/-- What trees make, one text for each and in order. -/
def each (make : Node × Forest Node → Except Error (Traced Text))
    (trees : List (Node × Forest Node)) : Except Error (Traced (List Text)) :=
  (trees.mapM make).map fun made => (made.map Prod.fst, made.flatMap Prod.snd)

section

variable {make : Node × Forest Node → Except Error (Traced Text)}

theorem each_cons (tree : Node × Forest Node) (trees : List (Node × Forest Node)) :
    each make (tree :: trees) = do
      let (text, roots) ← make tree
      let (texts, more) ← each make trees
      return (text :: texts, roots ++ more) := by
  rw [each, each, List.mapM_cons]
  cases make tree with
  | error error => rfl
  | ok first => cases trees.mapM make <;> rfl

/-- One text is made for each tree. -/
theorem length_of_each {trees : List (Node × Forest Node)} {texts : List Text}
    {roots : List MemberRoot} (ok : each make trees = .ok (texts, roots)) :
    texts.length = trees.length := by
  induction trees generalizing texts roots with
  | nil =>
    obtain ⟨rfl, rfl⟩ := Prod.mk.inj (Except.ok.inj ok)
    rfl
  | cons tree trees ih =>
    rw [each_cons] at ok
    obtain ⟨⟨text, own⟩, _, ok⟩ := bind_eq_ok.mp ok
    obtain ⟨⟨later, more⟩, rest, ok⟩ := bind_eq_ok.mp ok
    obtain ⟨rfl, rfl⟩ := Prod.mk.inj (Except.ok.inj ok)
    rw [List.length_cons, List.length_cons, ih rest]

end

/-- A property of all roots that are code, at the first tree and at the others. -/
theorem forall_codeRoots_cons {p : Node → Prop} {node : Node} {children rest : Forest Node}
    (all : ∀ root ∈ (Forest.cons node children rest).codeRoots, p root) :
    (node.isCode = true → p node) ∧ ∀ root ∈ rest.codeRoots, p root := by
  rw [Forest.codeRoots, Forest.roots] at all
  constructor
  · intro code
    exact all node (List.mem_filter.mpr ⟨List.mem_cons_self, code⟩)
  · intro root mem
    obtain ⟨isRoot, code⟩ := List.mem_filter.mp mem
    exact all root (List.mem_filter.mpr ⟨List.mem_cons_of_mem _ isRoot, code⟩)

/-- Where all code is pairs, each line of code makes a pair. -/
theorem dictPairs_eq_each [Letters] {forest : Forest Node}
    (entries : ∀ child ∈ forest.codeRoots, ∃ aggregate, child.role = .dictEntry aggregate) :
    dictPairs forest = each dictPair forest.codeTrees := by
  induction forest with
  | nil => rfl
  | cons node children rest _ ih =>
    obtain ⟨own, others⟩ := forall_codeRoots_cons entries
    rw [dictPairs, Forest.codeTrees, ih others]
    cases code : node.isCode with
    | true =>
      obtain ⟨aggregate, role⟩ := own code
      rw [if_pos rfl, each_cons, dictPair, heldBy, role]
      show (dictKey node.line node.keyText >>= _) = _
      cases dictKey node.line node.keyText with
      | error error => rfl
      | ok key =>
        show (nodeValue aggregate node children >>= _) =
          ((nodeValue aggregate node children >>= _) >>= _)
        cases nodeValue aggregate node children <;> rfl
    | false => rw [if_neg (by decide)]

/-- Where all code is items, each line of code makes an item. -/
theorem listItems_eq_each [Letters] {forest : Forest Node}
    (entries : ∀ child ∈ forest.codeRoots, ∃ aggregate, child.role = .listEntry aggregate) :
    listItems forest = each itemOf forest.codeTrees := by
  induction forest with
  | nil => rfl
  | cons node children rest _ ih =>
    obtain ⟨own, others⟩ := forall_codeRoots_cons entries
    rw [listItems, Forest.codeTrees, ih others]
    cases code : node.isCode with
    | true =>
      obtain ⟨aggregate, role⟩ := own code
      rw [if_pos rfl, each_cons, itemOf, role]
      rfl
    | false => rw [if_neg (by decide)]

/-- Where all code is pairs, each line of code makes a keyword argument. -/
theorem keywordArguments_eq_each [Letters] {forest : Forest Node}
    (entries : ∀ child ∈ forest.codeRoots, ∃ aggregate, child.role = .dictEntry aggregate) :
    keywordArguments forest = each keywordArgument forest.codeTrees := by
  induction forest with
  | nil => rfl
  | cons node children rest _ ih =>
    obtain ⟨own, others⟩ := forall_codeRoots_cons entries
    rw [keywordArguments, Forest.codeTrees, ih others]
    cases code : node.isCode with
    | true =>
      obtain ⟨aggregate, role⟩ := own code
      rw [if_pos rfl, each_cons, keywordArgument, heldBy, role]
      show (if _ then _ else _) = _
      split
      · show (nodeValue aggregate node children >>= _) =
          ((nodeValue aggregate node children >>= _) >>= _)
        cases nodeValue aggregate node children <;> rfl
      · rfl
    | false => rw [if_neg (by decide)]

/-! ## Data as they are written -/

/-- A node that holds a mapping holds the pairs below it, in braces. -/
theorem nodeValue_dict [Letters] (node : Node) (children : Forest Node) :
    nodeValue .dict node children = (dictPairs children).map (Prod.map mapping id) := by
  show (dictPairs children >>= _) = _
  cases dictPairs children <;> rfl

/-- A node that holds a list holds the items below it, in brackets. -/
theorem nodeValue_list [Letters] (node : Node) (children : Forest Node) :
    nodeValue .list node children = (listItems children).map (Prod.map listing id) := by
  show (listItems children >>= _) = _
  cases listItems children <;> rfl

/-- Named arguments are those below the node, joined by commas. -/
theorem callArguments_dict [Letters] (node : Node) (children : Forest Node) :
    callArguments .dict node children =
      (keywordArguments children).map (Prod.map commas id) := by
  show (keywordArguments children >>= _) = _
  cases keywordArguments children <;> rfl

/-- Listed arguments are the items below the node, joined by commas. -/
theorem callArguments_list [Letters] (node : Node) (children : Forest Node) :
    callArguments .list node children = (listItems children).map (Prod.map commas id) := by
  show (listItems children >>= _) = _
  cases listItems children <;> rfl

/-- What an item is made of whose line is only a key. -/
theorem itemOf_of_key [Letters] {node : Node} {children : Forest Node} {key : Text}
    (hasKey : node.key = some key) (noValue : node.value = none) :
    itemOf (node, children) = (do
      let (key, keyRoots) ← dictKey node.line key
      let (value, valueRoots) ← heldBy (node, children)
      return (mapping [pair key value], keyRoots ++ valueRoots)) := by
  rw [itemOf, listItem.eq_def]
  dsimp only
  rw [hasKey, noValue]
  rfl

/-- What an item is made of that holds a list and whose line is not only a key. -/
theorem itemOf_of_list [Letters] {node : Node} {children : Forest Node}
    (role : node.role = .listEntry .list) (form : node.key = none ∨ node.value.isSome = true) :
    itemOf (node, children) = (listItems children).map (Prod.map listing id) := by
  rw [itemOf, role, listItem.eq_def]
  dsimp only
  split
  next key hasKey noValue =>
    rw [hasKey, noValue] at form
    rcases form with noKey | hasValue
    · cases noKey
    · cases hasValue
  next => contradiction
  next => cases listItems children <;> rfl
  next => contradiction

/-- What an item is made of that holds a mapping and whose line is not only a key. -/
theorem itemOf_of_dict [Letters] {node : Node} {children : Forest Node}
    (role : node.role = .listEntry .dict) (form : node.key = none ∨ node.value.isSome = true) :
    itemOf (node, children) = (do
      let (inline, inlineRoots) ← inlinePair node
      let (pairs, pairRoots) ← dictPairs children
      return (mapping (inline ++ pairs), inlineRoots ++ pairRoots)) := by
  rw [itemOf, role, listItem.eq_def]
  dsimp only
  split
  next key hasKey noValue =>
    rw [hasKey, noValue] at form
    rcases form with noKey | hasValue
    · cases noKey
    · cases hasValue
  next => contradiction
  next => contradiction
  next => rfl

/-- The line of an item gives one pair to the mapping that it holds, if it has a value. -/
theorem length_of_inlinePair [Letters] {node : Node} {pairs : List Text} {roots : List MemberRoot}
    (ok : inlinePair node = .ok (pairs, roots)) :
    pairs.length = if node.value.isSome then 1 else 0 := by
  rw [inlinePair] at ok
  split at ok
  next key raw _ hasValue =>
    obtain ⟨⟨keyText, keyRoots⟩, _, ok⟩ := bind_eq_ok.mp ok
    obtain ⟨⟨valueText, valueRoots⟩, _, ok⟩ := bind_eq_ok.mp ok
    obtain ⟨rfl, rfl⟩ := Prod.mk.inj (Except.ok.inj ok)
    rw [hasValue]
    rfl
  next raw _ hasValue =>
    obtain ⟨⟨valueText, valueRoots⟩, _, ok⟩ := bind_eq_ok.mp ok
    obtain ⟨rfl, rfl⟩ := Prod.mk.inj (Except.ok.inj ok)
    rw [hasValue]
    rfl
  next noValue =>
    obtain ⟨rfl, rfl⟩ := Prod.mk.inj (Except.ok.inj ok)
    rw [noValue]
    rfl

/-! ## What may fail -/

end Program

open Program

/-- The texts of a node that are read as expressions. -/
def Node.reads (node : Node) : List Text :=
  match node.role with
  | .assignment _ | .argCall _ | .returnValue => [node.valueText]
  | .dictEntry _ | .listEntry _ => [node.keyText, node.valueText]
  | .print => [node.valueText, Expression.quoteTemplate node.valueText]
  | .ifHeader condition | .elifHeader condition | .whileHeader condition => [condition]
  | .forHeader _ iterable => [iterable]
  | .rangeForHeader _ range => [range]
  | _ => []

/-- Of an entry of data both the key and the value are read. -/
theorem Node.reads_of_entry (node : Node)
    (entry : (∃ aggregate, node.role = .dictEntry aggregate) ∨
      ∃ aggregate, node.role = .listEntry aggregate) :
    node.reads = [node.keyText, node.valueText] := by
  rw [Node.reads]
  rcases entry with ⟨aggregate, role⟩ | ⟨aggregate, role⟩ <;> rw [role]

/-- A text of the node is refused with this error. -/
def Node.Refused [Letters] (error : Error) (node : Node) : Prop :=
  ∃ raw ∈ node.reads, Expression.read node.line raw = .error error

/-- The error is that of a text of the node, or it refuses the name of a keyword argument below
it. -/
def Node.Fails [Letters] (error : Error) (node : Node) (children : Forest Node) : Prop :=
  node.Refused error ∨
    node.role = .argCall .dict ∧ ∃ child ∈ children.codeRoots,
      Text.isIdentifier child.keyText = false ∧
        error = .expression child.line (badArgument child.keyText)

namespace Program

section

variable {error : Error}

/-- A value fails only as the expression it is. -/
theorem value_eq_error [Letters] {line : Nat} {raw : Text}
    (failed : value line raw = .error error) : Expression.read line raw = .error error := by
  rcases bind_eq_error.mp failed with failed | ⟨_, _, failed⟩
  · exact failed
  · cases failed

/-- A key of a mapping fails only as the expression it is. -/
theorem dictKey_eq_error [Letters] {line : Nat} {key : Text}
    (failed : dictKey line key = .error error) : Expression.read line key = .error error := by
  rw [dictKey] at failed
  split at failed
  · cases failed
  · exact value_eq_error failed

/-- What a node holds fails in its own value or in what is below the node. -/
theorem held_eq_error [Letters] {aggregate : Aggregate} {node : Node}
    {pairs items : Unit → Except Error (Traced (List Text))}
    (failed : held aggregate node pairs items = .error error) :
    Expression.read node.line node.valueText = .error error ∨ pairs () = .error error ∨
      items () = .error error := by
  cases aggregate with
  | scalar => exact .inl (value_eq_error failed)
  | dict =>
    rcases bind_eq_error.mp failed with failed | ⟨_, _, failed⟩
    · exact .inr (.inl failed)
    · cases failed
  | list =>
    rcases bind_eq_error.mp failed with failed | ⟨_, _, failed⟩
    · exact .inr (.inr failed)
    · cases failed

/-- A pair on a line of its own fails in its key or in its value. -/
theorem inlinePair_eq_error [Letters] {node : Node} (failed : inlinePair node = .error error) :
    Expression.read node.line node.keyText = .error error ∨
      Expression.read node.line node.valueText = .error error := by
  rw [Node.keyText, Node.valueText]
  rw [inlinePair] at failed
  split at failed
  next key raw hasKey hasValue =>
    rw [hasKey, hasValue]
    rcases bind_eq_error.mp failed with failed | ⟨_, _, failed⟩
    · exact .inl (dictKey_eq_error failed)
    · rcases bind_eq_error.mp failed with failed | ⟨_, _, failed⟩
      · exact .inr (value_eq_error failed)
      · cases failed
  next raw _ hasValue =>
    rw [hasValue]
    rcases bind_eq_error.mp failed with failed | ⟨_, _, failed⟩
    · exact .inr (value_eq_error failed)
    · cases failed
  next => cases failed

/-- An item of a list fails in its own texts or in what is below it. -/
theorem listItem_eq_error [Letters] {aggregate : Aggregate} {node : Node}
    {pairs items : Unit → Except Error (Traced (List Text))}
    (failed : listItem aggregate node pairs items = .error error) :
    (Expression.read node.line node.keyText = .error error ∨
        Expression.read node.line node.valueText = .error error) ∨
      pairs () = .error error ∨ items () = .error error := by
  unfold listItem at failed
  split at failed
  next key hasKey _ =>
    rcases bind_eq_error.mp failed with failed | ⟨_, _, failed⟩
    · rw [Node.keyText, hasKey]
      exact .inl (.inl (dictKey_eq_error failed))
    · rcases bind_eq_error.mp failed with failed | ⟨_, _, failed⟩
      · rcases held_eq_error failed with own | below
        · exact .inl (.inr own)
        · exact .inr below
      · cases failed
  next => exact .inl (.inr (value_eq_error failed))
  next =>
    rcases bind_eq_error.mp failed with failed | ⟨_, _, failed⟩
    · exact .inr (.inr failed)
    · cases failed
  next =>
    rcases bind_eq_error.mp failed with failed | ⟨_, _, failed⟩
    · exact .inl (inlinePair_eq_error failed)
    · rcases bind_eq_error.mp failed with failed | ⟨_, _, failed⟩
      · exact .inr (.inl failed)
      · cases failed

/-- An entry of data is refused for its key or for its value. -/
theorem refused_of_entry [Letters] {node : Node}
    (entry : (∃ aggregate, node.role = .dictEntry aggregate) ∨
      ∃ aggregate, node.role = .listEntry aggregate)
    (failed : Expression.read node.line node.keyText = .error error ∨
      Expression.read node.line node.valueText = .error error) : node.Refused error := by
  rw [Node.Refused, node.reads_of_entry entry]
  rcases failed with key | value
  · exact ⟨_, List.mem_cons_self, key⟩
  · exact ⟨_, List.mem_cons_of_mem _ List.mem_cons_self, value⟩

/-- Data fail when a text among them is refused. -/
theorem data_eq_error [Letters] {forest : Forest Node} :
    (dictPairs forest = .error error → forest.Any fun node _ => node.Refused error) ∧
      (listItems forest = .error error → forest.Any fun node _ => node.Refused error) := by
  induction forest with
  | nil =>
    constructor
    all_goals
      intro failed
      cases failed
  | cons node children rest ihChildren ihRest =>
    constructor
    · intro failed
      rw [dictPairs] at failed
      split at failed
      next aggregate _ role =>
        have entry : _ → node.Refused error := refused_of_entry (.inl ⟨aggregate, role⟩)
        rcases bind_eq_error.mp failed with failed | ⟨_, _, failed⟩
        · exact .inl (entry (.inl (dictKey_eq_error failed)))
        · rcases bind_eq_error.mp failed with failed | ⟨_, _, failed⟩
          · rcases held_eq_error failed with own | pairs | items
            · exact .inl (entry (.inr own))
            · exact .inr (.inl (ihChildren.1 pairs))
            · exact .inr (.inl (ihChildren.2 items))
          · rcases bind_eq_error.mp failed with failed | ⟨_, _, failed⟩
            · exact .inr (.inr (ihRest.1 failed))
            · cases failed
      next => exact .inr (.inr (ihRest.1 failed))
    · intro failed
      rw [listItems] at failed
      split at failed
      next aggregate _ role =>
        have entry : _ → node.Refused error := refused_of_entry (.inr ⟨aggregate, role⟩)
        rcases bind_eq_error.mp failed with failed | ⟨_, _, failed⟩
        · rcases listItem_eq_error failed with own | pairs | items
          · exact .inl (entry own)
          · exact .inr (.inl (ihChildren.1 pairs))
          · exact .inr (.inl (ihChildren.2 items))
        · rcases bind_eq_error.mp failed with failed | ⟨_, _, failed⟩
          · exact .inr (.inr (ihRest.2 failed))
          · cases failed
      next => exact .inr (.inr (ihRest.2 failed))

/-- What a node holds fails in a text of the node or of one below it. -/
theorem nodeValue_eq_error [Letters] {aggregate : Aggregate} {node : Node} {children : Forest Node}
    (failed : nodeValue aggregate node children = .error error) :
    Expression.read node.line node.valueText = .error error ∨
      children.Any fun node _ => node.Refused error := by
  rcases held_eq_error failed with own | pairs | items
  · exact .inl own
  · exact .inr (data_eq_error.1 pairs)
  · exact .inr (data_eq_error.2 items)

/-- Keyword arguments fail when a text among them is refused, or a name is no identifier. -/
theorem keywordArguments_eq_error [Letters] {forest : Forest Node}
    (failed : keywordArguments forest = .error error) :
    (forest.Any fun node _ => node.Refused error) ∨
      ∃ child ∈ forest.codeRoots, Text.isIdentifier child.keyText = false ∧
        error = .expression child.line (badArgument child.keyText) := by
  induction forest with
  | nil => cases failed
  | cons node children rest _ ih =>
    have later (failed : keywordArguments rest = .error error) :
        ((Forest.cons node children rest).Any fun node _ => node.Refused error) ∨
          ∃ child ∈ (Forest.cons node children rest).codeRoots,
            Text.isIdentifier child.keyText = false ∧
              error = .expression child.line (badArgument child.keyText) := by
      rcases ih failed with any | ⟨child, mem, bad⟩
      · exact .inl (.inr (.inr any))
      · obtain ⟨isRoot, code⟩ := List.mem_filter.mp mem
        exact .inr ⟨child, List.mem_filter.mpr ⟨List.mem_cons_of_mem _ isRoot, code⟩, bad⟩
    rw [keywordArguments] at failed
    split at failed
    next aggregate code role =>
      split at failed
      next =>
        rcases bind_eq_error.mp failed with failed | ⟨_, _, failed⟩
        · rcases nodeValue_eq_error failed with own | below
          · exact .inl (.inl (refused_of_entry (.inl ⟨aggregate, role⟩) (.inr own)))
          · exact .inl (.inr (.inl below))
        · rcases bind_eq_error.mp failed with failed | ⟨_, _, failed⟩
          · exact later failed
          · cases failed
      next bad =>
        refine .inr ⟨node, List.mem_filter.mpr ⟨List.mem_cons_self, code⟩, ?_, ?_⟩
        · rwa [Bool.not_eq_true] at bad
        · exact (Except.error.inj failed).symm
    next => exact later failed

/-- Arguments fail in a text of the call or of a node below it, or for a name that is no name of an
argument. -/
theorem callArguments_eq_error [Letters] {aggregate : Aggregate} {node : Node}
    {children : Forest Node} (role : node.role = .argCall aggregate)
    (failed : callArguments aggregate node children = .error error) :
    node.Fails error children ∨ children.Any fun node _ => node.Refused error := by
  cases aggregate with
  | scalar =>
    rw [callArguments] at failed
    split at failed
    next raw hasValue =>
      refine .inl (.inl ⟨node.valueText, ?_, ?_⟩)
      · rw [Node.reads, role]
        exact List.mem_cons_self
      · rw [Node.valueText, hasValue]
        exact value_eq_error failed
    next => cases failed
  | list =>
    rcases bind_eq_error.mp failed with failed | ⟨_, _, failed⟩
    · exact .inr (data_eq_error.2 failed)
    · cases failed
  | dict =>
    rcases bind_eq_error.mp failed with failed | ⟨_, _, failed⟩
    · rcases keywordArguments_eq_error failed with below | bad
      · exact .inr below
      · exact .inl (.inr ⟨role, bad⟩)
    · cases failed

theorem conditionHeader_eq_error [Letters] {word : String} {form : StatementForm} {line : Nat}
    {condition : Text} (failed : conditionHeader word form line condition = .error error) :
    Expression.read line condition = .error error := by
  rcases bind_eq_error.mp failed with failed | ⟨_, _, failed⟩
  · exact value_eq_error failed
  · cases failed

/-- A printed value fails as a text of its node. -/
theorem printed_eq_error [Letters] {node : Node} (role : node.role = .print)
    (failed : printed node = .error error) : node.Refused error := by
  rw [printed] at failed
  split at failed
  next => cases failed
  next raw hasValue =>
    have read := value_eq_error failed
    rw [Node.Refused, Node.reads, role]
    split at read
    · refine ⟨_, List.mem_cons_of_mem _ List.mem_cons_self, ?_⟩
      rwa [Node.valueText, hasValue]
    · refine ⟨_, List.mem_cons_self, ?_⟩
      rwa [Node.valueText, hasValue]

/-- What a loop goes over fails only as the expression it is. -/
theorem iterated_eq_error [Letters] {line : Nat} {targets : List Text} {iterable : Text}
    (failed : iterated line targets iterable = .error error) :
    Expression.read line iterable = .error error := by
  rcases bind_eq_error.mp failed with failed | ⟨_, _, failed⟩
  · exact value_eq_error failed
  · change (if _ then _ else _) = _ at failed
    split at failed <;> cases failed

/-- A node that makes statements, or none of its own, fails for a reason of its own or of its
data. -/
theorem output_eq_error [Letters] {node : Node} {children : Forest Node}
    (role : node.role.isStatement = true ∨ node.role = .importList)
    (failed : output node children = .error error) :
    node.Fails error children ∨ children.Any fun node _ => node.Refused error := by
  have own {raw : Text} (reads : node.reads = [raw])
      (refused : Expression.read node.line raw = .error error) :
      node.Fails error children ∨ children.Any fun node _ => node.Refused error := by
    refine .inl (.inl ⟨raw, ?_, refused⟩)
    rw [reads]
    exact List.mem_cons_self
  rw [Node.reads] at own
  rw [output] at failed
  split at failed
  next => cases failed
  next => cases failed
  next aggregate same =>
    rw [same] at own
    rcases bind_eq_error.mp failed with failed | ⟨_, _, failed⟩
    · rcases nodeValue_eq_error failed with refused | below
      · exact own rfl refused
      · exact .inr below
    · cases failed
  next aggregate same =>
    rcases bind_eq_error.mp failed with failed | ⟨_, _, failed⟩
    · exact callArguments_eq_error same failed
    · cases failed
  next => cases failed
  next same =>
    rcases bind_eq_error.mp failed with failed | ⟨_, _, failed⟩
    · exact .inl (.inl (printed_eq_error same failed))
    · cases failed
  next same =>
    rw [same] at own
    split at failed
    next raw _ hasValue =>
      rcases bind_eq_error.mp failed with failed | ⟨_, _, failed⟩
      · refine own rfl ?_
        rw [Node.valueText, hasValue]
        exact value_eq_error failed
      · cases failed
    next => cases failed
  next condition same =>
    rw [same] at own
    exact own rfl (conditionHeader_eq_error failed)
  next condition same =>
    rw [same] at own
    exact own rfl (conditionHeader_eq_error failed)
  next => cases failed
  next condition same =>
    rw [same] at own
    exact own rfl (conditionHeader_eq_error failed)
  next targets iterable same =>
    rw [same] at own
    rcases bind_eq_error.mp failed with failed | ⟨_, _, failed⟩
    · exact own rfl (iterated_eq_error failed)
    · cases failed
  next targets range same =>
    rw [same] at own
    rcases bind_eq_error.mp failed with failed | ⟨_, _, failed⟩
    · exact own rfl (value_eq_error failed)
    · cases failed
  next => cases failed
  next => cases failed
  next => cases failed
  -- Roles that make no statement are not among those of the node.
  all_goals
    next same =>
      rw [same] at role
      rcases role with statement | isList
      · cases statement
      · cases isList

end

/-- Where the code has roles of statements, all roots have: the others are comments. -/
theorem forall_roots_of_codeRoots {forest : Forest Node} (typed : forest.Every Node.Typed)
    (code : ∀ root ∈ forest.codeRoots, root.role.isStatement = true ∨ root.role = .importList) :
    ∀ root ∈ forest.roots, root.role.isStatement = true ∨ root.role = .importList := by
  induction forest with
  | nil =>
    intro root mem
    cases mem
  | cons node children rest _ ih =>
    obtain ⟨own, others⟩ := forall_codeRoots_cons code
    intro root mem
    rcases List.mem_cons.mp mem with rfl | later
    · cases isCode : root.isCode with
      | true => exact own isCode
      | false =>
        rw [typed.1.comment.mp (by simpa [Node.isCode] using isCode)]
        exact .inl rfl
    · exact ih typed.2.2 others root later

/-- What may stand in a block is a statement, or a list of imports. -/
theorem isStatement_of_standsInBlock {role : Role} (stands : role.standsInBlock = true) :
    role.isStatement = true ∨ role = .importList := by
  cases role with
  | importList => exact .inr rfl
  | unclassified | importEntry | listEntry | dictEntry | comment => cases stands
  | _ => exact .inl rfl

/-- The code below a node whose children become statements has roles of statements. -/
theorem forall_children_of_output [Letters] {node : Node} {children : Forest Node} {out : Output}
    (typed : node.Typed children) (below : children.Every Node.Typed)
    (emission : Emission node children out) (nested : ∀ text, out ≠ .line text) :
    ∀ root ∈ children.roots, root.role.isStatement = true ∨ root.role = .importList := by
  refine forall_roots_of_codeRoots below fun root mem => ?_
  have fits := emission.fits
  cases out with
  | line text => exact absurd rfl (nested text)
  | block header form => exact isStatement_of_standsInBlock ((typed.block fits.2.1).2 root mem)
  | children =>
    cases emission with
    | importList role =>
      obtain ⟨path, isEntry⟩ := (typed.imports role).2 root mem
      rw [isEntry]
      exact .inl rfl

/-- Typed statements fail only where a node of theirs does. -/
theorem statementsOf_eq_error [Letters] {forest : Forest Node} {error : Error}
    (typed : forest.Every Node.Typed)
    (roots : ∀ root ∈ forest.roots, root.role.isStatement = true ∨ root.role = .importList)
    (failed : statementsOf forest = .error error) : forest.Any (Node.Fails error) := by
  induction forest with
  | nil => cases failed
  | cons node children rest ihChildren ihRest =>
    have own := roots node List.mem_cons_self
    have inRest (failed : statementsOf rest = .error error) :
        (Forest.cons node children rest).Any (Node.Fails error) :=
      .inr (.inr (ihRest typed.2.2 (fun root mem => roots root (List.mem_cons_of_mem _ mem))
        failed))
    rw [statementsOf] at failed
    rcases bind_eq_error.mp failed with failed | ⟨⟨out, outRoots⟩, made, failed⟩
    · rcases output_eq_error own failed with fails | below
      · exact .inl fails
      · exact .inr (.inl (below.imp fun _ _ refused => .inl refused))
    · have inChildren (nested : ∀ text, out ≠ .line text)
          (failed : statementsOf children = .error error) :
          (Forest.cons node children rest).Any (Node.Fails error) :=
        .inr (.inl (ihChildren typed.2.1
          (forall_children_of_output typed.1 typed.2.1 (emission_of_output made) nested) failed))
      cases out with
      | line text =>
        rcases bind_eq_error.mp failed with failed | ⟨_, _, failed⟩
        · exact inRest failed
        · cases failed
      | block | children =>
        rcases bind_eq_error.mp failed with failed | ⟨_, _, failed⟩
        · exact inChildren (by simp) failed
        · rcases bind_eq_error.mp failed with failed | ⟨_, _, failed⟩
          · exact inRest failed
          · cases failed

/-! ## Wordings -/

/-- A message whose first character is a small letter. -/
def StartsSmall (message : String) : Prop :=
  ∃ c, message.toList.head? = some c ∧ c.isLower = true

theorem StartsSmall.append {s : String} (small : StartsSmall s) (t : String) :
    StartsSmall (s ++ t) := by
  obtain ⟨c, head, isLower⟩ := small
  refine ⟨c, ?_, isLower⟩
  rw [String.toList_append, List.head?_append, head]
  rfl

/-- The wording of every fault of an expression starts with a small letter. -/
theorem startsSmall_message (fault : Expression.Fault) : StartsSmall fault.message := by
  cases fault with
  | mismatched => exact .append (.append (.append (.append ⟨'m', rfl, rfl⟩ _) _) _) _
  | unbalanced | unclosed => exact .append (.append ⟨'u', rfl, rfl⟩ _) _
  | unterminatedLiteral => exact ⟨'u', rfl, rfl⟩
  | quoteClash => exact .append (.append ⟨'p', rfl, rfl⟩ _) _
  | range fault =>
    cases fault with
    | malformed => exact .append (.append ⟨'m', rfl, rfl⟩ _) _
    | arity => exact .append (.append (.append (.append (.append ⟨'r', rfl, rfl⟩ _) _) _) _) _
  | template fault =>
    cases fault with
    | unterminated => exact ⟨'u', rfl, rfl⟩
    | empty => exact ⟨'e', rfl, rfl⟩

theorem startsSmall_badArgument (name : Text) : StartsSmall (badArgument name) :=
  .append (.append ⟨'k', rfl, rfl⟩ _) _

/-- The error for a role that is no statement starts otherwise, so it is no fault of an expression.
-/
theorem not_startsSmall_notStatement (role : Role) : ¬ StartsSmall (notStatement role) := by
  have named : role.name.toList.head?.any (fun c => !c.isLower) = true := by
    cases role <;> simp only [Role.name] <;> decide
  obtain ⟨c, head, capital⟩ := (Option.any_eq_true _ _).mp named
  rintro ⟨d, same, small⟩
  change (role.name ++ " cannot be emitted as a statement").toList.head? = some d at same
  rw [String.toList_append, List.head?_append, head] at same
  obtain rfl : c = d := Option.some.inj same
  rw [small] at capital
  cases capital

/-- No node fails with the words for a role that makes no statement. -/
theorem ne_notStatement_of_any [Letters] {forest : Forest Node} {error : Error}
    (fails : forest.Any (Node.Fails error)) (line : Nat) (role : Role) :
    error ≠ .expression line (notStatement role) := by
  rintro rfl
  have other {message : String} (small : StartsSmall message) : message ≠ notStatement role := by
    rintro rfl
    exact not_startsSmall_notStatement role small
  induction forest with
  | nil => exact fails
  | cons node children rest ihChildren ihRest =>
    rcases fails with own | below | after
    · rcases own with ⟨raw, _, refused⟩ | ⟨_, child, _, _, same⟩
      · rw [Expression.read] at refused
        split at refused
        next => cases refused
        next fault _ =>
          exact other (startsSmall_message fault)
            (Error.expression.inj (Except.error.inj refused)).2
      · exact other (startsSmall_badArgument child.keyText) (Error.expression.inj same).2.symm
    · exact ihChildren below
    · exact ihRest after

end Program

/-! ## Classified forests -/

/-- The lines of code below a node are all in what the node makes of them: one part for each of
them, in document order, joined by commas. -/
structure Node.Lossless [Letters] (node : Node) (children : Forest Node) : Prop where
  /-- Below a node that holds a mapping, each line of code makes a pair. -/
  pairs : node.role.aggregate? = some .dict →
    dictPairs children = each dictPair children.codeTrees
  /-- Below a node that holds a list, each line of code makes an item. -/
  items : node.role.aggregate? = some .list →
    listItems children = each itemOf children.codeTrees
  /-- Below a call with pairs for arguments, each line of code makes an argument. -/
  arguments : node.role = .argCall .dict →
    keywordArguments children = each keywordArgument children.codeTrees
  /-- The mapping that a node holds is made of these pairs. -/
  heldMapping : node.role.aggregate? = some .dict →
    nodeValue .dict node children = (each dictPair children.codeTrees).map (Prod.map mapping id)
  /-- The list that a node holds is made of these items. -/
  heldList : node.role.aggregate? = some .list →
    nodeValue .list node children = (each itemOf children.codeTrees).map (Prod.map listing id)
  /-- A call with pairs for arguments has the arguments that they make. -/
  namedArguments : node.role = .argCall .dict →
    callArguments .dict node children =
      (each keywordArgument children.codeTrees).map (Prod.map commas id)
  /-- A call with items for arguments has these items. -/
  listedArguments : node.role = .argCall .list →
    callArguments .list node children = (each itemOf children.codeTrees).map (Prod.map commas id)
  /-- The mapping of an item has the pair of its own line, if there is a value on it, and one pair
  for each line of code below. -/
  item : node.role = .listEntry .dict → node.key = none ∨ node.value.isSome = true →
    ∀ text roots, itemOf (node, children) = .ok (text, roots) →
      ∃ inline inlineRoots pairs pairRoots, text = mapping (inline ++ pairs) ∧
        inlinePair node = .ok (inline, inlineRoots) ∧
        inline.length = (if node.value.isSome then 1 else 0) ∧
        each dictPair children.codeTrees = .ok (pairs, pairRoots) ∧
        pairs.length = children.codeRoots.length
  /-- The list of an item has one item for each line of code below. -/
  itemList : node.role = .listEntry .list → node.key = none ∨ node.value.isSome = true →
    itemOf (node, children) = (each itemOf children.codeTrees).map (Prod.map listing id)
  /-- An item whose line is only a key is the mapping of that key to what the item holds. -/
  itemKey : ∀ aggregate key, node.role = .listEntry aggregate → node.key = some key →
    node.value = none →
      itemOf (node, children) = (do
        let (key, keyRoots) ← dictKey node.line key
        let (value, valueRoots) ← nodeValue aggregate node children
        return (mapping [pair key value], keyRoots ++ valueRoots))

/-- A typed node loses none of the lines of code below it. -/
theorem Node.Typed.lossless [Letters] {node : Node} {children : Forest Node}
    (typed : node.Typed children) : node.Lossless children := by
  have pairs (holds : node.role.aggregate? = some .dict) :=
    dictPairs_eq_each (typed.dict holds)
  have items (holds : node.role.aggregate? = some .list) :=
    listItems_eq_each (typed.list holds)
  have arguments (role : node.role = .argCall .dict) :=
    keywordArguments_eq_each (typed.dict (by rw [role]; rfl))
  refine ⟨pairs, items, arguments, ?_, ?_, ?_, ?_, ?_, ?_, ?_⟩
  · intro holds
    rw [nodeValue_dict, pairs holds]
  · intro holds
    rw [nodeValue_list, items holds]
  · intro role
    rw [callArguments_dict, arguments role]
  · intro role
    rw [callArguments_list, items (by rw [role]; rfl)]
  · intro role form text roots ok
    rw [itemOf_of_dict role form] at ok
    obtain ⟨⟨inline, inlineRoots⟩, own, ok⟩ := bind_eq_ok.mp ok
    obtain ⟨⟨below, belowRoots⟩, made, ok⟩ := bind_eq_ok.mp ok
    obtain ⟨rfl, rfl⟩ := Prod.mk.inj (Except.ok.inj ok)
    rw [pairs (by rw [role]; rfl)] at made
    refine ⟨inline, inlineRoots, below, belowRoots, rfl, own, length_of_inlinePair own, made, ?_⟩
    rw [length_of_each made, Forest.length_codeTrees]
  · intro role form
    rw [itemOf_of_list role form, items (by rw [role]; rfl)]
  · intro aggregate key role hasKey noValue
    rw [itemOf_of_key hasKey noValue, heldBy, role]
    rfl

/-- Nothing is lost between a classified forest and its code. Every line of code below a node that
holds data makes one part of them, in document order. No program fails for a role that makes no
statement: what may fail is a text that is read as an expression, or the name of a keyword argument
that is no identifier. -/
theorem Forest.classify_lossless [Letters] {forest forest' : Forest Node} {table : SymbolTable}
    (ok : forest.classify = .ok (forest', table)) :
    forest'.Every Node.Lossless ∧
      ∀ config error,
        (Program.ofForest forest').map (fun program => program.code config) = .error error →
          forest'.Any (Node.Fails error) ∧
            ∀ line role, error ≠ .expression line (notStatement role) := by
  obtain ⟨admitted, typed⟩ := (Classify.classified_of_siblings ok).typed
  refine ⟨typed.imp fun _ _ own => own.lossless, ?_⟩
  intro config error failed
  have unmade : Program.ofForest forest' = .error error := by
    cases made : Program.ofForest forest' with
    | error other =>
      rw [made] at failed
      exact congrArg Except.error (Except.error.inj failed)
    | ok program =>
      rw [made] at failed
      cases failed
  have roots := forall_roots_of_codeRoots typed fun root mem =>
    isStatement_of_standsInBlock (admitted root mem)
  have fails : forest'.Any (Node.Fails error) := by
    rcases bind_eq_error.mp unmade with failed | ⟨_, _, failed⟩
    · exact statementsOf_eq_error typed roots failed
    · cases failed
  exact ⟨fails, ne_notStatement_of_any fails⟩

/-- A list whose items are mappings, one with a pair on its own line, a call with keyword arguments
and one with a list of arguments. All lines are in the code; and if the second keyword argument is
refused, so is the program. -/
theorem Forest.classify_lossless_nested :
    let forest (last : String) := Forest.ofLevels (Nest.placed [.code 0 "x:".toList 1,
      .code 1 "- a: 1".toList 2, .code 2 "b: 2".toList 3, .code 1 "- c:".toList 4,
      .code 2 "- 3".toList 5, .code 0 "function f define y:".toList 6, .code 1 "pass".toList 7,
      .code 0 "f:".toList 8, .code 1 "y: [4]".toList 9, .code 1 last.toList 10,
      .code 0 "f:".toList 11, .code 1 "- 6".toList 12, .code 1 "- x".toList 13])
    let error := Error.expression 10 "mismatched ']' (expected ')')"
    (∃ forest' table, (forest "z: (5)").classify = .ok (forest', table) ∧
      forest'.Every Node.Lossless ∧
      (Program.ofForest forest').map (fun program => program.code {}) =
        .ok ("x = [\x7b'a': 1, 'b': 2\x7d, \x7b'c': [3]\x7d]\ndef f(y):\n  pass\n" ++
          "f(y=[4], z=(5))\nf(6, x)\n").toList) ∧
    ∃ forest' table, (forest "z: (5]").classify = .ok (forest', table) ∧
      (Program.ofForest forest').map (fun program => program.code {}) = .error error ∧
      forest'.Every Node.Lossless ∧ forest'.Any (Node.Fails error) ∧
      ∀ line role, error ≠ .expression line (notStatement role) := by
  intro forest error
  have given : ((forest "z: (5)").classify.toOption.map fun result =>
      (Program.ofForest result.1).map fun program => program.code {}) =
        some (.ok ("x = [\x7b'a': 1, 'b': 2\x7d, \x7b'c': [3]\x7d]\ndef f(y):\n  pass\n" ++
          "f(y=[4], z=(5))\nf(6, x)\n").toList) := by
    decide +kernel
  have refused : ((forest "z: (5]").classify.toOption.map fun result =>
      (Program.ofForest result.1).map fun program => program.code {}) = some (.error error) := by
    decide +kernel
  constructor
  · obtain ⟨⟨forest', table⟩, found, made⟩ := Option.map_eq_some_iff.mp given
    have ok := eq_ok_of_toOption found
    exact ⟨forest', table, ok, (Forest.classify_lossless ok).1, made⟩
  · obtain ⟨⟨forest', table⟩, found, failed⟩ := Option.map_eq_some_iff.mp refused
    have ok := eq_ok_of_toOption found
    obtain ⟨lossless, fails⟩ := Forest.classify_lossless ok
    exact ⟨forest', table, ok, failed, lossless, fails {} error failed⟩

end Outline
