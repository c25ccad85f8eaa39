import Outline.Header.Edition
import Outline.Proofs.Commas
import Outline.Proofs.Lossless

/-!
# One element for each entry

The items of a list and the pairs of a mapping are written one after the other with commas between
them, each as it comes out of its line. `Forest.classify_elements` says of every node of a document
that holds a list or a mapping that this gives one element for each line of code, and when these
elements come apart again at the commas. Values are not put in brackets, so a value that is a tuple
without brackets is spliced into the data around it.
-/

set_option autoImplicit false

namespace Outline

/-! ## Data -/

namespace Program

open Text

theorem closed_commas {texts : List Text} (closed : ∀ text ∈ texts, Closed text) :
    Closed (commas texts) := by
  induction texts with
  | nil => exact closed_nil
  | cons first texts ih =>
    obtain ⟨own, others⟩ := List.forall_mem_cons.mp closed
    cases texts with
    | nil =>
      rw [commas, List.intercalate_singleton]
      exact own
    | cons second texts =>
      have between : Closed [',', ' '] := closed_of_neutral (List.all_eq_true.mp (by decide))
      rw [commas, List.intercalate_cons_cons]
      exact (own.append between).append (ih others)

/-- The name of an identifier is solid. -/
theorem solid_name {s : Text} (identifier : isIdentifier s = true) :
    Solid ('\'' :: s ++ ['\'']) := by
  refine solid_string (d := ⟨'\'', false⟩) rfl (Delimiter.keeps_of_forall fun c mem => ?_)
  have word := isWordChar_of_mem_identifier identifier c mem
  constructor
  · rintro rfl
    exact absurd word (by decide)
  · rintro rfl
    exact absurd word (by decide)

/-- Data made of keys and values whose strings hold none of their own quotes unprotected are
closed. -/
theorem composes_closed [Letters] : Composes SimpleStrings Closed where
  value simple read := Expression.closed_ofText simple read
  name _ identifier := (solid_name identifier).closed
  argument _ identifier inValue := by
    have word := isWordChar_of_mem_identifier identifier
    have own := (solid_of_tame fun c mem => Token.isTame_of_isWordChar (word c mem)).closed
    have equals : Closed ['='] := closed_of_neutral (List.all_eq_true.mp (by decide))
    exact own.append (equals.append inValue)
  item := closed_string (d := ⟨'\'', false⟩) rfl (show Delimiter.Keeps _ "item".toList from rfl)
  pair inKey inValue :=
    (inKey.append (closed_of_neutral (List.all_eq_true.mp (by decide)))).append inValue
  commas := closed_commas
  mapping closed := closed_bracketed rfl rfl (closed_commas closed)
  listing closed := closed_bracketed rfl rfl (closed_commas closed)

/-- What is made of each tree stands in the order of the trees. -/
theorem forall₂_of_each {make : Node × Forest Node → Except Error (Traced Text)}
    {trees : List (Node × Forest Node)} {texts : List Text} {roots : List MemberRoot}
    (ok : each make trees = .ok (texts, roots)) :
    List.Forall₂ (fun tree text => ∃ own, make tree = .ok (text, own)) trees texts := by
  induction trees generalizing texts roots with
  | nil =>
    obtain ⟨rfl, rfl⟩ := Prod.mk.inj (Except.ok.inj ok)
    exact .nil
  | cons tree trees ih =>
    rw [each_cons] at ok
    obtain ⟨⟨text, own⟩, made, ok⟩ := bind_eq_ok.mp ok
    obtain ⟨⟨later, more⟩, rest, ok⟩ := bind_eq_ok.mp ok
    obtain ⟨rfl, rfl⟩ := Prod.mk.inj (Except.ok.inj ok)
    exact .cons ⟨own, made⟩ (ih rest)

/-- An item without a key of its own that holds a value is that value. -/
theorem itemOf_scalar [Letters] {tree : Node × Forest Node} {text : Text} {roots : List MemberRoot}
    (scalar : tree.1.role = .listEntry .scalar) (noKey : tree.1.key = none)
    (made : itemOf tree = .ok (text, roots)) :
    ∃ e, Expression.ofText tree.1.valueText = .ok e ∧ text = e.text := by
  rw [itemOf, scalar, listItem.eq_def, noKey] at made
  exact value_eq_ok made

end Program

namespace Classify

theorem nestedAggregate_ne_scalar (shapes : List Shape) :
    nestedAggregate shapes ≠ .ok .scalar := by
  rw [nestedAggregate.eq_def]
  split
  · split <;> simp
  · split <;> simp
  · simp

theorem key_of_itemAggregate {node : Node} {shapes : List Shape}
    (held : itemAggregate node shapes = .ok .scalar) : node.key = none := by
  rw [itemAggregate.eq_def] at held
  split at held
  next => cases held
  next => split at held <;> cases held
  next => cases held
  next => exact absurd held (nestedAggregate_ne_scalar _)
  next noKey _ => exact noKey
  next noKey _ => exact noKey
  next noKey _ => exact noKey
  next noKey _ => exact noKey

/-- An entry of a list that holds nothing but a value has no key. -/
theorem Decision.key_of_scalar [Letters] {table : SymbolTable} {context : Context}
    {previous : Option Role} {node : Node} {shapes : List Shape} {role : Role}
    (decided : Decision table context previous node shapes role)
    (scalar : role = .listEntry .scalar) : node.key = none := by
  cases decided with
  | listEntry aggregate _ _ held =>
    obtain rfl := Role.listEntry.inj scalar
    exact key_of_itemAggregate held
  | header _ _ _ _ _ _ _ _ decided =>
    subst scalar
    cases decided
  | _ => cases scalar

/-- The pass gives the role of an entry with nothing but a value only to nodes without a key. -/
theorem Classified.keyless [Letters] {context : Context} {previous : Option Role}
    {table table' : SymbolTable} {forest forest' : Forest Node}
    (classified : Classified context previous table forest forest' table') :
    (∀ root ∈ forest'.codeRoots, root.role = .listEntry .scalar → root.key = none) ∧
      forest'.Every fun _ children =>
        ∀ child ∈ children.codeRoots, child.role = .listEntry .scalar → child.key = none := by
  induction classified with
  | nil =>
    refine ⟨?_, trivial⟩
    intro root mem
    cases mem
  | @cons context previous table inner outer node role children children' rest rest' decided owns
      below after ihBelow ihAfter =>
    refine ⟨?_, ihBelow.1, ihBelow.2, ihAfter.2⟩
    intro root mem scalar
    obtain ⟨isRoot, code⟩ := List.mem_filter.mp mem
    rcases List.mem_cons.mp isRoot with rfl | later
    · exact decided.key_of_scalar scalar
    · exact ihAfter.1 root (List.mem_filter.mpr ⟨later, code⟩) scalar

end Classify

/-! ## Entries that stay in one piece -/

namespace Text

/-- A value that is one element wherever it is put. -/
def IsOne (raw : Text) : Prop := NoComma raw ∧ trim raw ≠ []

theorem trimmed_between {first last : Char} (front : isBlank first = false)
    (back : isBlank last = false) (s : Text) : Trimmed (first :: s ++ [last]) := by
  refine ⟨fun c mem => ?_, fun c mem => ?_⟩
  · obtain rfl : first = c := Option.some.inj mem
    exact front
  · rw [List.getLast?_concat] at mem
    obtain rfl : last = c := Option.some.inj mem
    exact back

/-- Closed texts that are not empty come apart if each of them is in one piece. -/
theorem separate_iff {texts : List Text} (closed : ∀ text ∈ texts, Closed text ∧ text ≠ []) :
    Separate texts ↔ ∀ text ∈ texts, Trimmed text ∧ NoComma text := by
  constructor
  · intro separate text mem
    exact ⟨separate.trimmed text mem, separate.whole text mem⟩
  · intro each
    refine ⟨fun text mem => (each text mem).1, fun text mem => (each text mem).2,
      fun text mem => (closed text (List.dropLast_subset texts mem)).1.endsTop, fun last => ?_⟩
    exact (closed [] (List.mem_of_getLast? last)).2 rfl

end Text

open Text

/-- An entry of a mapping whose key, and whose value if it has one on its line, is in one piece. -/
def Node.OnePair (node : Node) : Prop :=
  NoComma node.keyText ∧ (node.role = .dictEntry .scalar → IsOne node.valueText)

namespace Program

section

variable {key text : Text}

theorem noComma_pair (closed : Closed key) :
    NoComma (pair key text) ↔ NoComma key ∧ NoComma text := by
  have colon : ": ".toList.foldl Nesting.step .start = .start := rfl
  have front : key.foldl Nesting.step .start = .start := closed 0
  have free : NoCommaFrom .start ": ".toList := noCommaFrom_of_not_mem (by decide)
  rw [NoComma, pair, noCommaFrom_append, noCommaFrom_append, List.foldl_append, front, colon]
  exact and_congr_left fun _ => and_iff_left free

theorem trimmed_pair (trimmedKey : Trimmed key) (trimmedText : Trimmed text) :
    Trimmed (pair key text) ↔ text ≠ [] := by
  constructor
  · rintro trimmed rfl
    have blank := trimmed.back ' ' (by simp [pair])
    cases blank
  · intro filled
    refine ⟨fun c mem => ?_, fun c mem => ?_⟩
    · rw [pair, List.append_assoc] at mem
      cases key with
      | nil =>
        obtain rfl : ':' = c := Option.some.inj mem
        decide
      | cons d key => exact trimmedKey.front c mem
    · rw [pair, List.getLast?_append_of_ne_nil _ filled] at mem
      exact trimmedText.back c mem

theorem pair_ne_nil : pair key text ≠ [] := by simp [pair]

theorem one_pair_iff (closed : Closed key) (trimmedKey : Trimmed key) (trimmedText : Trimmed text) :
    Trimmed (pair key text) ∧ NoComma (pair key text) ↔
      NoComma key ∧ NoComma text ∧ text ≠ [] := by
  rw [noComma_pair closed, trimmed_pair trimmedKey trimmedText, and_comm, and_assoc]

end

/-- A key of a mapping is in one piece as it is written. -/
theorem dictKey_one [Letters] {line : Nat} {key text : Text} {roots : List MemberRoot}
    (simple : SimpleStrings key) (ok : dictKey line key = .ok (text, roots)) :
    Closed text ∧ Trimmed text ∧ (NoComma text ↔ NoComma key) := by
  refine ⟨composes_closed.ofDictKey simple ok, ?_⟩
  rw [dictKey] at ok
  split at ok
  next identifier =>
    obtain ⟨rfl, rfl⟩ := Prod.mk.inj (Except.ok.inj ok)
    have word := isWordChar_of_mem_identifier identifier
    refine ⟨trimmed_between rfl rfl key, iff_of_true ((solid_name identifier).free 0) ?_⟩
    exact noCommaFrom_of_not_mem fun mem => absurd (word ',' mem) (by decide)
  next =>
    obtain ⟨e, read, rfl⟩ := value_eq_ok ok
    exact ⟨Expression.trimmed_of_ofText read, Expression.noComma_ofText simple read⟩

/-- A value is in one piece as it is written. -/
theorem value_one [Letters] {line : Nat} {raw text : Text} {roots : List MemberRoot}
    (simple : SimpleStrings raw) (ok : value line raw = .ok (text, roots)) :
    Closed text ∧ Trimmed text ∧ (NoComma text ∧ text ≠ [] ↔ IsOne raw) := by
  obtain ⟨e, read, rfl⟩ := value_eq_ok ok
  refine ⟨Expression.closed_ofText simple read, Expression.trimmed_of_ofText read, ?_⟩
  exact and_congr (Expression.noComma_ofText simple read)
    (not_congr (Expression.text_eq_nil_iff read))

/-- A list or a mapping in brackets is in one piece. -/
theorem bracketed_one {opening closing : Char} (opens : isOpening opening = true)
    (closes : isClosing closing = true) {text : Text} (closed : Closed text) :
    Closed (opening :: text ++ [closing]) ∧ Trimmed (opening :: text ++ [closing]) ∧
      NoComma (opening :: text ++ [closing]) ∧ opening :: text ++ [closing] ≠ [] := by
  have solid := solid_bracketed opens closes closed
  refine ⟨solid.closed, trimmed_between ?_ ?_ text, solid.free 0, List.cons_ne_nil _ _⟩
  · rcases isOpening_cases opens with rfl | rfl | rfl <;> rfl
  · rcases isClosing_cases closes with rfl | rfl | rfl <;> rfl

/-- What an entry of a mapping holds is in one piece, unless it is a value that is not. -/
theorem heldBy_one [Letters] {tree : Node × Forest Node} {aggregate : Aggregate} {text : Text}
    {roots : List MemberRoot} (role : tree.1.role = .dictEntry aggregate)
    (simple : SimpleStrings tree.1.valueText)
    (below : ∀ node ∈ tree.2.preorder, node.Holds SimpleStrings)
    (made : heldBy tree = .ok (text, roots)) :
    Closed text ∧ Trimmed text ∧ (NoComma text ∧ text ≠ [] ↔
      (tree.1.role = .dictEntry .scalar → IsOne tree.1.valueText)) := by
  rw [heldBy, role] at made
  rw [role]
  obtain ⟨pairsBelow, itemsBelow⟩ := composes_closed.ofData below
  cases aggregate with
  | scalar =>
    obtain ⟨closed, trimmed, same⟩ := value_one simple made
    exact ⟨closed, trimmed, same.trans (by simp)⟩
  | dict =>
    obtain ⟨⟨pairs, found⟩, gathered, made⟩ := bind_eq_ok.mp made
    obtain ⟨rfl, rfl⟩ := Prod.mk.inj (Except.ok.inj made)
    obtain ⟨closed, trimmed, one⟩ := @bracketed_one '{' '}' rfl rfl _
      (closed_commas (pairsBelow pairs _ gathered))
    exact ⟨closed, trimmed, iff_of_true one (by simp)⟩
  | list =>
    obtain ⟨⟨items, found⟩, gathered, made⟩ := bind_eq_ok.mp made
    obtain ⟨rfl, rfl⟩ := Prod.mk.inj (Except.ok.inj made)
    obtain ⟨closed, trimmed, one⟩ := @bracketed_one '[' ']' rfl rfl _
      (closed_commas (itemsBelow items _ gathered))
    exact ⟨closed, trimmed, iff_of_true one (by simp)⟩

/-- The pair of an entry is one if its key is in one piece and a value on its line is. -/
theorem dictPair_one [Letters] {tree : Node × Forest Node} {text : Text} {roots : List MemberRoot}
    (entry : ∃ aggregate, tree.1.role = .dictEntry aggregate)
    (simple : tree.1.Holds SimpleStrings)
    (below : ∀ node ∈ tree.2.preorder, node.Holds SimpleStrings)
    (made : dictPair tree = .ok (text, roots)) :
    Closed text ∧ text ≠ [] ∧ (Trimmed text ∧ NoComma text ↔ tree.1.OnePair) := by
  obtain ⟨⟨key, keyRoots⟩, named, made⟩ := bind_eq_ok.mp made
  obtain ⟨⟨inside, insideRoots⟩, held, made⟩ := bind_eq_ok.mp made
  obtain ⟨rfl, rfl⟩ := Prod.mk.inj (Except.ok.inj made)
  obtain ⟨aggregate, role⟩ := entry
  obtain ⟨closedKey, trimmedKey, sameKey⟩ := dictKey_one simple.1 named
  obtain ⟨closed, trimmed, same⟩ := heldBy_one role simple.2 below held
  refine ⟨composes_closed.pair closedKey closed, pair_ne_nil, ?_⟩
  rw [one_pair_iff closedKey trimmedKey trimmed, sameKey, same]
  rfl

/-- The pair on the line of an item. -/
theorem inlinePair_one [Letters] {node : Node} {text : Text} {roots : List MemberRoot}
    (simple : node.Holds SimpleStrings) (made : inlinePair node = .ok ([text], roots)) :
    Closed text ∧ text ≠ [] ∧
      (Trimmed text ∧ NoComma text ↔ NoComma node.keyText ∧ IsOne node.valueText) := by
  rw [Node.Holds, Node.keyText, Node.valueText] at simple
  rw [Node.keyText, Node.valueText]
  rw [inlinePair] at made
  split at made
  next key raw hasKey hasValue =>
    rw [hasKey, hasValue] at simple ⊢
    obtain ⟨⟨keyText, keyRoots⟩, named, made⟩ := bind_eq_ok.mp made
    obtain ⟨⟨valueText, valueRoots⟩, read, made⟩ := bind_eq_ok.mp made
    obtain ⟨same, rfl⟩ := Prod.mk.inj (Except.ok.inj made)
    obtain rfl := List.singleton_inj.mp same
    obtain ⟨closedKey, trimmedKey, sameKey⟩ := dictKey_one simple.1 named
    obtain ⟨closed, trimmed, same⟩ := value_one simple.2 read
    refine ⟨composes_closed.pair closedKey closed, pair_ne_nil, ?_⟩
    rw [one_pair_iff closedKey trimmedKey trimmed, sameKey, same]
  next raw hasKey hasValue =>
    rw [hasKey, hasValue] at simple ⊢
    obtain ⟨⟨valueText, valueRoots⟩, read, made⟩ := bind_eq_ok.mp made
    obtain ⟨same, rfl⟩ := Prod.mk.inj (Except.ok.inj made)
    obtain rfl := List.singleton_inj.mp same
    obtain ⟨closed, trimmed, same⟩ := value_one simple.2 read
    have name : Solid "'item'".toList := @solid_name "item".toList (by decide)
    refine ⟨composes_closed.pair name.closed closed, pair_ne_nil, ?_⟩
    rw [one_pair_iff name.closed (trimmed_between rfl rfl "item".toList) trimmed, same]
    exact and_congr_left fun _ => iff_of_true (name.free 0) (noCommaFrom_of_not_mem (by decide))
  next =>
    obtain ⟨none, _⟩ := Prod.mk.inj (Except.ok.inj made)
    cases none

/-! ## Entries between commas -/

/-- A line of a list and the expression of its value. -/
def IsValueOf [Letters] (tree : Node × Forest Node) (item : Text) : Prop :=
  ∃ e, Expression.ofText tree.1.valueText = .ok e ∧ item = e.text

/-- A line of a mapping and its pair. -/
def IsPairOf [Letters] (tree : Node × Forest Node) (text : Text) : Prop :=
  ∃ roots, dictPair tree = .ok (text, roots)

section

variable {trees : List (Node × Forest Node)}

/-- Pairs come apart if each line stays one pair. -/
theorem one_pairs [Letters] {pairs : List Text} (made : List.Forall₂ IsPairOf trees pairs)
    (entries : ∀ tree ∈ trees, ∃ aggregate, tree.1.role = .dictEntry aggregate)
    (simple : ∀ tree ∈ trees, tree.1.Holds SimpleStrings ∧
      ∀ node ∈ tree.2.preorder, node.Holds SimpleStrings) :
    (∀ text ∈ pairs, Closed text ∧ text ≠ []) ∧
      ((∀ text ∈ pairs, Trimmed text ∧ NoComma text) ↔ ∀ tree ∈ trees, tree.1.OnePair) := by
  induction made with
  | nil => simp
  | @cons tree text trees pairs own _ ih =>
    obtain ⟨roots, own⟩ := own
    obtain ⟨entry, entries⟩ := List.forall_mem_cons.mp entries
    obtain ⟨simpleOwn, simple⟩ := List.forall_mem_cons.mp simple
    obtain ⟨closed, filled, same⟩ := dictPair_one entry simpleOwn.1 simpleOwn.2 own
    obtain ⟨closedLater, sameLater⟩ := ih entries simple
    refine ⟨List.forall_mem_cons.mpr ⟨⟨closed, filled⟩, closedLater⟩, ?_⟩
    rw [List.forall_mem_cons, List.forall_mem_cons, same, sameLater]

theorem one_values [Letters] {items : List Text} (values : List.Forall₂ IsValueOf trees items)
    (simple : ∀ tree ∈ trees, SimpleStrings tree.1.valueText) :
    (∀ item ∈ items, Closed item ∧ Trimmed item) ∧
      ((∀ item ∈ items, NoComma item) ↔ ∀ tree ∈ trees, NoComma tree.1.valueText) ∧
        (items.getLast? ≠ some [] ↔ ∀ tree ∈ trees.getLast?, trim tree.1.valueText ≠ []) := by
  induction values with
  | nil => simp
  | @cons tree item trees items own later ih =>
    obtain ⟨e, read, rfl⟩ := own
    obtain ⟨simpleOwn, simple⟩ := List.forall_mem_cons.mp simple
    obtain ⟨closed, sameCommas, sameLast⟩ := ih simple
    refine ⟨List.forall_mem_cons.mpr ⟨⟨Expression.closed_ofText simpleOwn read,
      Expression.trimmed_of_ofText read⟩, closed⟩, ?_, ?_⟩
    · rw [List.forall_mem_cons, List.forall_mem_cons, Expression.noComma_ofText simpleOwn read,
        sameCommas]
    · cases later with
      | nil => simp [Expression.text_eq_nil_iff read]
      | cons => rwa [List.getLast?_cons_cons, List.getLast?_cons_cons]

/-- Values come apart if each of them is in one piece as it is written and the last is not blank. -/
theorem separate_values [Letters] {items : List Text} (values : List.Forall₂ IsValueOf trees items)
    (simple : ∀ tree ∈ trees, SimpleStrings tree.1.valueText) :
    Separate items ↔ (∀ tree ∈ trees, NoComma tree.1.valueText) ∧
      ∀ tree ∈ trees.getLast?, trim tree.1.valueText ≠ [] := by
  obtain ⟨closed, sameCommas, sameLast⟩ := one_values values simple
  rw [← sameCommas, ← sameLast]
  constructor
  · intro separate
    exact ⟨separate.whole, separate.last⟩
  · rintro ⟨whole, last⟩
    refine ⟨fun item mem => (closed item mem).2, whole, fun item mem => ?_, last⟩
    exact (closed item (List.dropLast_subset items mem)).1.endsTop

end

end Program

open Program

namespace Forest

theorem preorder_of_mem_codeTrees {forest : Forest Node} {tree : Node × Forest Node}
    (mem : tree ∈ forest.codeTrees) :
    tree.1 ∈ forest.preorder ∧ tree.2.preorder ⊆ forest.preorder := by
  induction forest with
  | nil => cases mem
  | cons node children rest _ ih =>
    have later (mem : tree ∈ rest.codeTrees) :
        tree.1 ∈ (Forest.cons node children rest).preorder ∧
          tree.2.preorder ⊆ (Forest.cons node children rest).preorder := by
      obtain ⟨own, below⟩ := ih mem
      have inside : rest.preorder ⊆ (Forest.cons node children rest).preorder := fun other inRest =>
        List.mem_cons_of_mem _ (List.mem_append_right _ inRest)
      exact ⟨inside own, fun other inTree => inside (below inTree)⟩
    rw [codeTrees] at mem
    split at mem
    · rcases List.mem_cons.mp mem with rfl | inRest
      · refine ⟨List.mem_cons_self, fun other inChildren => ?_⟩
        exact List.mem_cons_of_mem _ (List.mem_append_left _ inChildren)
      · exact later inRest
    · exact later mem

/-- A property of all roots that are code is one of all trees. -/
theorem forall_codeTrees {p : Node → Prop} {forest : Forest Node}
    (all : ∀ root ∈ forest.codeRoots, p root) : ∀ tree ∈ forest.codeTrees, p tree.1 := by
  intro tree mem
  refine all tree.1 ?_
  rw [← map_fst_codeTrees]
  exact List.mem_map_of_mem mem

theorem Every.and {α : Type} {P Q : α → Forest α → Prop} {forest : Forest α}
    (first : forest.Every P) (second : forest.Every Q) :
    forest.Every fun label children => P label children ∧ Q label children := by
  induction forest with
  | nil => trivial
  | cons label children rest ihChildren ihRest =>
    exact ⟨⟨first.1, second.1⟩, ihChildren first.2.1 second.2.1, ihRest first.2.2 second.2.2⟩

end Forest

/-! ## Lists and mappings of a document -/

/-- What is between the brackets of the lists and mappings that a node and the code below it make:
one element for each line of code. The elements come apart again at the commas if and only if they
are separate, which the lines as written decide unless a string holds one of its own quotes
unprotected. -/
structure Node.Elements [Letters] (node : Node) (children : Forest Node) : Prop where
  /-- A list of values is their expressions, in order. -/
  list : node.role.aggregate? = some .list →
    (∀ tree ∈ children.codeTrees, tree.1.role = .listEntry .scalar) →
    ∀ text roots, nodeValue .list node children = .ok (text, roots) →
      ∃ items, text = listing items ∧ List.Forall₂ IsValueOf children.codeTrees items ∧
        (splitCommas (commas items) = items ↔ Separate items) ∧
        ((∀ tree ∈ children.codeTrees, SimpleStrings tree.1.valueText) →
          (Separate items ↔ (∀ tree ∈ children.codeTrees, NoComma tree.1.valueText) ∧
            ∀ tree ∈ children.codeTrees.getLast?, trim tree.1.valueText ≠ []))
  /-- A mapping is the pairs of the lines below, in order. -/
  dict : node.role.aggregate? = some .dict →
    ∀ text roots, nodeValue .dict node children = .ok (text, roots) →
      ∃ pairs, text = mapping pairs ∧ List.Forall₂ IsPairOf children.codeTrees pairs ∧
        (splitCommas (commas pairs) = pairs ↔ Separate pairs) ∧
        ((∀ below ∈ children.preorder, below.Holds SimpleStrings) →
          (Separate pairs ↔ ∀ tree ∈ children.codeTrees, tree.1.OnePair))
  /-- The mapping of an item with a value on its line starts with the pair of that line. -/
  item : node.role = .listEntry .dict → node.value.isSome = true →
    ∀ text roots, itemOf (node, children) = .ok (text, roots) →
      ∃ first own pairs, text = mapping (first :: pairs) ∧ inlinePair node = .ok ([first], own) ∧
        List.Forall₂ IsPairOf children.codeTrees pairs ∧
        (splitCommas (commas (first :: pairs)) = first :: pairs ↔ Separate (first :: pairs)) ∧
        (node.Holds SimpleStrings → (∀ below ∈ children.preorder, below.Holds SimpleStrings) →
          (Separate (first :: pairs) ↔ (NoComma node.keyText ∧ IsOne node.valueText) ∧
            ∀ tree ∈ children.codeTrees, tree.1.OnePair))

theorem Node.Typed.elements [Letters] {node : Node} {children : Forest Node}
    (typed : node.Typed children)
    (keyless : ∀ child ∈ children.codeRoots, child.role = .listEntry .scalar → child.key = none) :
    node.Elements children := by
  have lossless := typed.lossless
  have simpleTrees (simple : ∀ below ∈ children.preorder, below.Holds SimpleStrings) :
      ∀ tree ∈ children.codeTrees, tree.1.Holds SimpleStrings ∧
        ∀ node ∈ tree.2.preorder, node.Holds SimpleStrings := by
    intro tree mem
    obtain ⟨own, below⟩ := Forest.preorder_of_mem_codeTrees mem
    exact ⟨simple tree.1 own, fun node inTree => simple node (below inTree)⟩
  refine ⟨?_, ?_, ?_⟩
  · intro holds scalars text roots ok
    obtain ⟨⟨items, found⟩, gathered, ok⟩ := bind_eq_ok.mp ok
    obtain ⟨rfl, rfl⟩ := Prod.mk.inj (Except.ok.inj ok)
    rw [lossless.items holds] at gathered
    have plain : ∀ tree ∈ children.codeTrees, tree.1.role = .listEntry .scalar ∧
        tree.1.key = none := fun tree mem =>
      ⟨scalars tree mem, Forest.forall_codeTrees keyless tree mem (scalars tree mem)⟩
    have values : List.Forall₂ IsValueOf children.codeTrees items := by
      refine ((List.forall₂_and_left _ _).mpr ⟨plain, forall₂_of_each gathered⟩).imp ?_
      rintro tree item ⟨⟨scalar, noKey⟩, own, made⟩
      exact itemOf_scalar scalar noKey made
    exact ⟨items, rfl, values, splitCommas_commas_iff, separate_values values⟩
  · intro holds text roots ok
    obtain ⟨⟨pairs, found⟩, gathered, ok⟩ := bind_eq_ok.mp ok
    obtain ⟨rfl, rfl⟩ := Prod.mk.inj (Except.ok.inj ok)
    rw [lossless.pairs holds] at gathered
    refine ⟨pairs, rfl, forall₂_of_each gathered, splitCommas_commas_iff, fun simple => ?_⟩
    obtain ⟨closed, same⟩ := one_pairs (forall₂_of_each gathered)
      (Forest.forall_codeTrees (typed.dict holds)) (simpleTrees simple)
    rw [separate_iff closed, same]
  · intro role hasValue text roots ok
    have holds : node.role.aggregate? = some .dict := by rw [role]; rfl
    obtain ⟨inline, own, pairs, more, rfl, read, one, gathered, _⟩ :=
      lossless.item role (.inr hasValue) text roots ok
    rw [if_pos hasValue] at one
    obtain ⟨first, rfl⟩ := List.length_eq_one_iff.mp one
    refine ⟨first, own, pairs, rfl, read, forall₂_of_each gathered, splitCommas_commas_iff,
      fun simpleOwn simple => ?_⟩
    obtain ⟨closed, same⟩ := one_pairs (forall₂_of_each gathered)
      (Forest.forall_codeTrees (typed.dict holds)) (simpleTrees simple)
    obtain ⟨closedFirst, filledFirst, sameFirst⟩ := inlinePair_one simpleOwn read
    have all : ∀ text ∈ first :: pairs, Closed text ∧ text ≠ [] :=
      List.forall_mem_cons.mpr ⟨⟨closedFirst, filledFirst⟩, closed⟩
    rw [separate_iff all, List.forall_mem_cons, sameFirst, same]

/-- Lists and mappings have one element for each entry. Of every node of a classified document, the
list of the values below it and the mapping of the pairs below it are these values and pairs, one
for each line of code, joined by commas. They are the parts between the commas at top level again
exactly when none of them has such a comma or a blank at an end, all but the last end at top level,
and the last is not empty. If no string holds one of its own quotes unprotected, that is so exactly
when no key and no value has a comma at top level as it is written, and neither the value of a pair
nor the last value of a list is blank. -/
theorem Forest.classify_elements [Letters] {forest forest' : Forest Node} {table : SymbolTable}
    (ok : forest.classify = .ok (forest', table)) : forest'.Every Node.Elements := by
  have classified := Classify.classified_of_siblings ok
  refine (classified.typed.2.and classified.keyless.2).imp ?_
  rintro node children ⟨typed, keyless⟩
  exact typed.elements keyless

/-- A list with a comma inside a string, and one with a mapping that has a comma inside a call. -/
theorem Forest.classify_elements_quoted :
    let forest := Forest.ofLevels (Nest.placed [.code 0 "x:".toList 1, .code 1 "- 1".toList 2,
      .code 1 "- \"a, b\"".toList 3, .code 0 "y:".toList 4, .code 1 "- k: f(1, 2)".toList 5,
      .code 2 "l:".toList 6, .code 3 "- 3".toList 7])
    ∃ forest' table, forest.classify = .ok (forest', table) ∧
      (Program.ofForest forest').map (fun program => program.code {}) =
        .ok "x = [1, \"a, b\"]\ny = [\x7b'k': f(1, 2), 'l': [3]\x7d]\n".toList ∧
      forest'.Every Node.Elements := by
  intro forest
  have given : (forest.classify.toOption.map fun result =>
      (Program.ofForest result.1).map fun program => program.code {}) =
      some (.ok "x = [1, \"a, b\"]\ny = [\x7b'k': f(1, 2), 'l': [3]\x7d]\n".toList) := by
    decide +kernel
  obtain ⟨⟨forest', table⟩, found, code⟩ := Option.map_eq_some_iff.mp given
  have ok := eq_ok_of_toOption found
  exact ⟨forest', table, ok, code, Forest.classify_elements ok⟩

/-- Values with a comma at top level are spliced into the data around them: two items make a list of
three elements, and the value of a pair loses what stands behind its comma. -/
theorem Forest.classify_elements_spliced :
    let list := Forest.ofLevels (Nest.placed [.code 0 "x:".toList 1, .code 1 "- 1, 2".toList 2,
      .code 1 "- 3".toList 3])
    let mapping := Forest.ofLevels (Nest.placed [.code 0 "d:".toList 1,
      .code 1 "a: 1, 2".toList 2, .code 1 "b: 3".toList 3])
    (∃ forest' table, list.classify = .ok (forest', table) ∧
      (Program.ofForest forest').map (fun program => program.code {}) =
        .ok "x = [1, 2, 3]\n".toList ∧
      splitCommas "1, 2, 3".toList = ["1".toList, "2".toList, "3".toList]) ∧
    ∃ forest' table, mapping.classify = .ok (forest', table) ∧
      (Program.ofForest forest').map (fun program => program.code {}) =
        .ok "d = \x7b'a': 1, 2, 'b': 3\x7d\n".toList ∧
      splitCommas "'a': 1, 2, 'b': 3".toList =
        ["'a': 1".toList, "2".toList, "'b': 3".toList] := by
  intro list mapping
  have ofList : (list.classify.toOption.map fun result =>
      (Program.ofForest result.1).map fun program => program.code {}) =
      some (.ok "x = [1, 2, 3]\n".toList) := by
    decide +kernel
  have ofMapping : (mapping.classify.toOption.map fun result =>
      (Program.ofForest result.1).map fun program => program.code {}) =
      some (.ok "d = \x7b'a': 1, 2, 'b': 3\x7d\n".toList) := by
    decide +kernel
  constructor
  · obtain ⟨⟨forest', table⟩, found, code⟩ := Option.map_eq_some_iff.mp ofList
    exact ⟨forest', table, eq_ok_of_toOption found, code, by decide +kernel⟩
  · obtain ⟨⟨forest', table⟩, found, code⟩ := Option.map_eq_some_iff.mp ofMapping
    exact ⟨forest', table, eq_ok_of_toOption found, code, by decide +kernel⟩

end Outline
