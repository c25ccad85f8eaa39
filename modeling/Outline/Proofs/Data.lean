import Outline.Proofs.Outcome
import Outline.Program.Data

/-!
# What data are made of

The data below a node are put together from the keys and values of the nodes there, in few ways. A
property of texts that these ways keep (`Program.Composes`) holds of all data.
-/

set_option autoImplicit false

namespace Outline

/-- A property that the key and the value of a node have. -/
def Node.Holds (raw : Text → Prop) (node : Node) : Prop := raw node.keyText ∧ raw node.valueText

namespace Program

theorem value_eq_ok [Letters] {line : Nat} {raw text : Text} {roots : List MemberRoot}
    (ok : value line raw = .ok (text, roots)) :
    ∃ e, Expression.ofText raw = .ok e ∧ text = e.text := by
  obtain ⟨e, read, ok⟩ := bind_eq_ok.mp ok
  obtain ⟨rfl, rfl⟩ := Prod.mk.inj (Except.ok.inj ok)
  rw [Expression.read] at read
  split at read
  next e' found =>
    obtain rfl := Except.ok.inj read
    exact ⟨e', found, rfl⟩
  next => cases read

/-- The ways in which data are put together lead from one property of keys and values to another of
the texts that are made of them. -/
structure Composes [Letters] (raw made : Text → Prop) : Prop where
  value : ∀ {s : Text} {e : Expression}, raw s → Expression.ofText s = .ok e → made e.text
  name : ∀ {s : Text}, raw s → Text.isIdentifier s = true → made ('\'' :: s ++ ['\''])
  argument : ∀ {s text : Text}, raw s → Text.isIdentifier s = true → made text →
    made (s ++ '=' :: text)
  item : made "'item'".toList
  pair : ∀ {key text : Text}, made key → made text → made (pair key text)
  commas : ∀ {texts : List Text}, (∀ text ∈ texts, made text) → made (commas texts)
  mapping : ∀ {pairs : List Text}, (∀ text ∈ pairs, made text) → made (mapping pairs)
  listing : ∀ {items : List Text}, (∀ text ∈ items, made text) → made (listing items)

/-- An outcome whose texts all have a property. -/
def Yields (made : Text → Prop) (outcome : Except Error (Traced (List Text))) : Prop :=
  ∀ texts roots, outcome = .ok (texts, roots) → ∀ text ∈ texts, made text

namespace Composes

variable [Letters] {raw made : Text → Prop} (rules : Composes raw made)

include rules

/-- A value that has the first property becomes a text that has the second. -/
theorem ofValue {line : Nat} {s text : Text} {roots : List MemberRoot} (own : raw s)
    (ok : Program.value line s = .ok (text, roots)) : made text := by
  obtain ⟨e, read, rfl⟩ := value_eq_ok ok
  exact rules.value own read

/-- So does a key of a mapping. -/
theorem ofDictKey {line : Nat} {key text : Text} {roots : List MemberRoot} (own : raw key)
    (ok : dictKey line key = .ok (text, roots)) : made text := by
  rw [dictKey] at ok
  split at ok
  next identifier =>
    obtain ⟨rfl, rfl⟩ := Prod.mk.inj (Except.ok.inj ok)
    exact rules.name own identifier
  next => exact rules.ofValue own ok

/-- So does what a node holds, if the pairs and the items below it do. -/
theorem ofHeld {aggregate : Aggregate} {node : Node}
    {pairs items : Unit → Except Error (Traced (List Text))} {text : Text}
    {roots : List MemberRoot} (own : node.Holds raw) (inPairs : Yields made (pairs ()))
    (inItems : Yields made (items ())) (ok : held aggregate node pairs items = .ok (text, roots)) :
    made text := by
  cases aggregate with
  | scalar => exact rules.ofValue own.2 ok
  | dict =>
    obtain ⟨⟨texts, found⟩, gathered, ok⟩ := bind_eq_ok.mp ok
    obtain ⟨rfl, rfl⟩ := Prod.mk.inj (Except.ok.inj ok)
    exact rules.mapping (inPairs texts _ gathered)
  | list =>
    obtain ⟨⟨texts, found⟩, gathered, ok⟩ := bind_eq_ok.mp ok
    obtain ⟨rfl, rfl⟩ := Prod.mk.inj (Except.ok.inj ok)
    exact rules.listing (inItems texts _ gathered)

theorem ofInlinePair {node : Node} (own : node.Holds raw) :
    Yields made (inlinePair node) := by
  intro texts roots ok text mem
  rw [inlinePair] at ok
  split at ok
  next key content hasKey hasValue =>
    obtain ⟨⟨keyText, keyRoots⟩, named, ok⟩ := bind_eq_ok.mp ok
    obtain ⟨⟨valueText, valueRoots⟩, read, ok⟩ := bind_eq_ok.mp ok
    obtain ⟨rfl, rfl⟩ := Prod.mk.inj (Except.ok.inj ok)
    obtain rfl := List.mem_singleton.mp mem
    rw [Node.Holds, Node.keyText, Node.valueText, hasKey, hasValue] at own
    exact rules.pair (rules.ofDictKey own.1 named) (rules.ofValue own.2 read)
  next content _ hasValue =>
    obtain ⟨⟨valueText, valueRoots⟩, read, ok⟩ := bind_eq_ok.mp ok
    obtain ⟨rfl, rfl⟩ := Prod.mk.inj (Except.ok.inj ok)
    obtain rfl := List.mem_singleton.mp mem
    rw [Node.Holds, Node.valueText, hasValue] at own
    exact rules.pair rules.item (rules.ofValue own.2 read)
  next =>
    obtain ⟨rfl, rfl⟩ := Prod.mk.inj (Except.ok.inj ok)
    cases mem

/-- So does an item of a list, if the pairs and the items below it do. -/
theorem ofListItem {aggregate : Aggregate} {node : Node}
    {pairs items : Unit → Except Error (Traced (List Text))} {text : Text}
    {roots : List MemberRoot} (own : node.Holds raw) (inPairs : Yields made (pairs ()))
    (inItems : Yields made (items ()))
    (ok : listItem aggregate node pairs items = .ok (text, roots)) : made text := by
  unfold listItem at ok
  split at ok
  next key hasKey _ =>
    obtain ⟨⟨keyText, keyRoots⟩, named, ok⟩ := bind_eq_ok.mp ok
    obtain ⟨⟨value, valueRoots⟩, inside, ok⟩ := bind_eq_ok.mp ok
    obtain ⟨rfl, rfl⟩ := Prod.mk.inj (Except.ok.inj ok)
    have inKey : raw key := by
      have := own.1
      rwa [Node.keyText, hasKey] at this
    have one := rules.pair (rules.ofDictKey inKey named) (rules.ofHeld own inPairs inItems inside)
    exact rules.mapping fun other isPair => List.mem_singleton.mp isPair ▸ one
  next => exact rules.ofValue own.2 ok
  next =>
    obtain ⟨⟨nested, found⟩, inside, ok⟩ := bind_eq_ok.mp ok
    obtain ⟨rfl, rfl⟩ := Prod.mk.inj (Except.ok.inj ok)
    exact rules.listing (inItems nested _ inside)
  next =>
    obtain ⟨⟨front, frontRoots⟩, inline, ok⟩ := bind_eq_ok.mp ok
    obtain ⟨⟨rest, found⟩, inside, ok⟩ := bind_eq_ok.mp ok
    obtain ⟨rfl, rfl⟩ := Prod.mk.inj (Except.ok.inj ok)
    refine rules.mapping fun other isPair => ?_
    rcases List.mem_append.mp isPair with inFront | inRest
    · exact rules.ofInlinePair own front _ inline other inFront
    · exact inPairs rest _ inside other inRest

/-- The data below a node, whatever they are taken for. -/
theorem ofData {forest : Forest Node} (rows : ∀ node ∈ forest.preorder, node.Holds raw) :
    Yields made (dictPairs forest) ∧ Yields made (listItems forest) := by
  induction forest with
  | nil =>
    constructor
    all_goals
      intro texts roots ok text mem
      obtain ⟨rfl, rfl⟩ := Prod.mk.inj (Except.ok.inj ok)
      cases mem
  | cons node children rest ihChildren ihRest =>
    have own : node.Holds raw := rows node List.mem_cons_self
    obtain ⟨pairsBelow, itemsBelow⟩ := ihChildren fun other mem =>
      rows other (List.mem_cons_of_mem _ (List.mem_append_left _ mem))
    obtain ⟨pairsAfter, itemsAfter⟩ := ihRest fun other mem =>
      rows other (List.mem_cons_of_mem _ (List.mem_append_right _ mem))
    constructor
    · intro texts roots ok text mem
      rw [dictPairs] at ok
      split at ok
      next aggregate _ _ =>
        obtain ⟨⟨key, keyRoots⟩, named, ok⟩ := bind_eq_ok.mp ok
        obtain ⟨⟨value, valueRoots⟩, inside, ok⟩ := bind_eq_ok.mp ok
        obtain ⟨⟨pairs, more⟩, later, ok⟩ := bind_eq_ok.mp ok
        obtain ⟨rfl, rfl⟩ := Prod.mk.inj (Except.ok.inj ok)
        rcases List.mem_cons.mp mem with rfl | after
        · exact rules.pair (rules.ofDictKey own.1 named)
            (rules.ofHeld own pairsBelow itemsBelow inside)
        · exact pairsAfter pairs more later text after
      next => exact pairsAfter texts roots ok text mem
    · intro texts roots ok text mem
      rw [listItems] at ok
      split at ok
      next aggregate _ _ =>
        obtain ⟨⟨item, itemRoots⟩, first, ok⟩ := bind_eq_ok.mp ok
        obtain ⟨⟨items, more⟩, later, ok⟩ := bind_eq_ok.mp ok
        obtain ⟨rfl, rfl⟩ := Prod.mk.inj (Except.ok.inj ok)
        rcases List.mem_cons.mp mem with rfl | after
        · exact rules.ofListItem own pairsBelow itemsBelow first
        · exact itemsAfter items more later text after
      next => exact itemsAfter texts roots ok text mem

/-- So do the named arguments of a call. -/
theorem ofKeywordArguments {forest : Forest Node}
    (rows : ∀ node ∈ forest.preorder, node.Holds raw) : Yields made (keywordArguments forest) := by
  induction forest with
  | nil =>
    intro texts roots ok text mem
    obtain ⟨rfl, rfl⟩ := Prod.mk.inj (Except.ok.inj ok)
    cases mem
  | cons node children rest ihChildren ihRest =>
    have own : node.Holds raw := rows node List.mem_cons_self
    have inChildren : ∀ other ∈ children.preorder, other.Holds raw := fun other mem =>
      rows other (List.mem_cons_of_mem _ (List.mem_append_left _ mem))
    have below := rules.ofData inChildren
    have after := ihRest fun other mem =>
      rows other (List.mem_cons_of_mem _ (List.mem_append_right _ mem))
    intro texts roots ok text mem
    rw [keywordArguments] at ok
    split at ok
    next aggregate _ _ =>
      split at ok
      next identifier =>
        obtain ⟨⟨value, valueRoots⟩, inside, ok⟩ := bind_eq_ok.mp ok
        obtain ⟨⟨arguments, more⟩, later, ok⟩ := bind_eq_ok.mp ok
        obtain ⟨rfl, rfl⟩ := Prod.mk.inj (Except.ok.inj ok)
        rcases List.mem_cons.mp mem with rfl | inRest
        · exact rules.argument own.1 identifier (rules.ofHeld own below.1 below.2 inside)
        · exact after arguments more later text inRest
      next => cases ok
    next => exact after texts roots ok text mem

theorem ofNodeValue {aggregate : Aggregate} {node : Node} {children : Forest Node}
    {text : Text} {roots : List MemberRoot} (own : node.Holds raw)
    (below : ∀ node ∈ children.preorder, node.Holds raw)
    (ok : nodeValue aggregate node children = .ok (text, roots)) : made text :=
  rules.ofHeld own (rules.ofData below).1 (rules.ofData below).2 ok

/-- So do the arguments of a call, whichever way they are given. -/
theorem ofCallArguments {aggregate : Aggregate} {node : Node} {children : Forest Node}
    {text : Text} {roots : List MemberRoot} (own : node.Holds raw)
    (below : ∀ node ∈ children.preorder, node.Holds raw)
    (ok : callArguments aggregate node children = .ok (text, roots)) : made text := by
  cases aggregate with
  | scalar =>
    rw [callArguments] at ok
    split at ok
    next content hasValue =>
      rw [Node.Holds, Node.valueText, hasValue] at own
      exact rules.ofValue own.2 ok
    next =>
      obtain ⟨rfl, rfl⟩ := Prod.mk.inj (Except.ok.inj ok)
      have none : ∀ text ∈ ([] : List Text), made text := fun _ mem => absurd mem List.not_mem_nil
      exact rules.commas none
  | list =>
    obtain ⟨⟨items, found⟩, gathered, ok⟩ := bind_eq_ok.mp ok
    obtain ⟨rfl, rfl⟩ := Prod.mk.inj (Except.ok.inj ok)
    exact rules.commas ((rules.ofData below).2 items _ gathered)
  | dict =>
    obtain ⟨⟨arguments, found⟩, gathered, ok⟩ := bind_eq_ok.mp ok
    obtain ⟨rfl, rfl⟩ := Prod.mk.inj (Except.ok.inj ok)
    exact rules.commas (rules.ofKeywordArguments below arguments _ gathered)

end Composes
end Program
end Outline
