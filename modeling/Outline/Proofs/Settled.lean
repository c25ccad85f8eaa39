import Outline.Document
import Outline.Proofs.Anchored
import Outline.Proofs.Names
import Outline.Proofs.Scan

/-!
# What analysis promises of a node

Every text of an analyzed node, its key, its value and what its role holds, is a piece of one row of
the source. A statement that starts with a text of its node starts as a name does, and below a node
that may not own a block there is nothing (`Settled`). The promises are followed from the lines
(`Node.Clean`) over the pass of classification (`Classified.settled`).
-/

set_option autoImplicit false

namespace Outline

/-! ## Nodes of lines -/

namespace Node

/-- The texts of a node are trimmed and on one row. -/
def Clean (node : Node) : Prop :=
  ∀ text, node.key = some text ∨ node.value = some text → Text.Trimmed text ∧ '\n' ∉ text

theorem trimmed_subset_of_nonBlank {s text : Text} (cut : Text.nonBlank? s = some text) :
    Text.Trimmed text ∧ text ⊆ s := by
  obtain ⟨rfl, _⟩ := Text.nonBlank?_eq_some_iff.mp cut
  exact ⟨Text.trimmed_trim s, fun _ mem => Text.mem_of_mem_trim mem⟩

/-- The key and the value of an item are trimmed pieces of it. -/
theorem splitItem_parts {item text : Text}
    (part : (splitItem item).1 = some text ∨ (splitItem item).2 = some text) :
    Text.Trimmed text ∧ text ⊆ item := by
  rw [splitItem] at part
  split at part
  next before after cut =>
    have whole := Text.eq_append_of_cutAt cut
    split at part
    · rcases part with key | value
      · obtain rfl := Option.some.inj key
        refine ⟨Text.trimmed_trim before, ?_⟩
        intro c mem
        rw [whole]
        exact List.mem_append_left _ (Text.mem_of_mem_trim mem)
      · obtain ⟨trimmed, inAfter⟩ := trimmed_subset_of_nonBlank value
        refine ⟨trimmed, ?_⟩
        intro c mem
        rw [whole]
        exact List.mem_append_right _ (List.mem_cons_of_mem _ (inAfter mem))
    · rcases part with key | value
      · cases key
      · exact trimmed_subset_of_nonBlank value
  next =>
    rcases part with key | value
    · cases key
    · exact trimmed_subset_of_nonBlank value

/-- The key and the value of a line are trimmed pieces of it. -/
theorem splitContent_parts {content text : Text}
    (part : (splitContent content).2.1 = some text ∨ (splitContent content).2.2 = some text) :
    Text.Trimmed text ∧ text ⊆ content := by
  unfold splitContent at part
  split at part
  next =>
    rcases part with key | value
    · cases key
    · cases value
  next item =>
    obtain ⟨trimmed, inItem⟩ := splitItem_parts part
    refine ⟨trimmed, ?_⟩
    intro c mem
    exact List.mem_cons_of_mem _ (List.mem_cons_of_mem _ (Text.mem_of_mem_trim (inItem mem)))
  next =>
    split at part
    next before after cut =>
      have whole := Text.eq_append_of_cutAt cut
      rcases part with key | value
      · obtain rfl := Option.some.inj key
        refine ⟨Text.trimmed_trim before, ?_⟩
        intro c mem
        rw [whole]
        exact List.mem_append_left _ (Text.mem_of_mem_trim mem)
      · obtain ⟨trimmed, inAfter⟩ := trimmed_subset_of_nonBlank value
        refine ⟨trimmed, ?_⟩
        intro c mem
        rw [whole]
        exact List.mem_append_right _ (List.mem_cons_of_mem _ (inAfter mem))
    next =>
      rcases part with key | value
      · cases key
      · exact trimmed_subset_of_nonBlank value

/-- The node of a clean line is clean. -/
theorem clean_ofLine {line : Line} (clean : line.Clean) : (ofLine line).Clean := by
  intro text part
  rw [ofLine] at part
  split at part
  next =>
    rcases part with key | value
    · cases key
    · obtain rfl := Option.some.inj value
      exact ⟨clean.trimmed, clean.oneRow⟩
  next =>
    obtain ⟨trimmed, inLine⟩ := splitContent_parts part
    exact ⟨trimmed, fun feed => clean.oneRow (inLine feed)⟩

variable {node : Node}

theorem Clean.keyText (clean : node.Clean) : Text.Trimmed node.keyText ∧ '\n' ∉ node.keyText := by
  rw [Node.keyText]
  cases key : node.key with
  | none => exact ⟨Text.trimmed_nil, List.not_mem_nil⟩
  | some text => exact clean text (.inl key)

theorem Clean.valueText (clean : node.Clean) : '\n' ∉ node.valueText := by
  rw [Node.valueText]
  cases value : node.value with
  | none => exact List.not_mem_nil
  | some text => exact (clean text (.inr value)).2

end Node

/-! ## Roles -/

/-- The texts that a role holds. -/
def Role.texts : Role → List Text
  | .bareCall callee => [callee]
  | .ifHeader condition | .elifHeader condition | .whileHeader condition => [condition]
  | .forHeader targets iterable => iterable :: targets
  | .rangeForHeader targets range => range :: targets
  | .functionDef name param => name :: param.toList
  | .importEntry path => path.texts
  | _ => []

/-- The text of the document that the statement of a node starts with, if it starts with one. -/
def Node.lead? (node : Node) : Option Text :=
  match node.role with
  | .assignment _ | .argCall _ => some node.keyText
  | .bareCall callee => some callee
  | .flow => some node.valueText
  | _ => none

namespace Classify

open Grammar

theorem beforeSemicolon?_subset {s callee : Text} (cut : beforeSemicolon? s = some callee) :
    callee ⊆ s := by
  rw [beforeSemicolon?] at cut
  split at cut
  · obtain rfl := Option.some.inj cut
    intro c mem
    exact List.dropLast_subset s (Text.mem_of_mem_trim mem)
  · cases cut

/-- The words of control flow start as names do. -/
theorem startsName_of_mem_flowWords [Letters] {word : Text} (mem : word ∈ flowWords) :
    StartsName word := by
  simp only [flowWords, List.mem_cons, List.not_mem_nil, or_false] at mem
  rcases mem with rfl | rfl | rfl
  · exact ⟨'b', _, rfl, isNameStart_of_isWordStart (by decide)⟩
  · exact ⟨'c', _, rfl, isNameStart_of_isWordStart (by decide)⟩
  · exact ⟨'p', _, rfl, isNameStart_of_isWordStart (by decide)⟩

section

variable {table : SymbolTable} {context : Context} {previous : Option Role} {node : Node}
  {shapes : List Shape} {role : Role}

/-- The texts of a header's role are those of the header. -/
theorem HeaderDecision.texts_subset [Letters] {header : Header}
    (decided : HeaderDecision table previous header role) : role.texts ⊆ header.texts := by
  cases decided with
  | function name param =>
    intro text mem
    rcases List.mem_cons.mp mem with rfl | later
    · exact List.mem_cons_self
    · split at later
      · cases later
      · exact List.mem_cons_of_mem _ later
  | _ => exact List.Subset.refl _

/-- The texts of a role are pieces of the key or of the value. -/
theorem Decision.texts_subset [Letters]
    (decided : Decision table context previous node shapes role) :
    ∀ text ∈ role.texts, text ⊆ node.keyText ∨ text ⊆ node.valueText := by
  intro text mem
  cases decided with
  | importEntry raw path _ _ _ value read =>
    right
    rw [Node.valueText, value]
    exact (importPath?_texts read text mem).1
  | header keyword header _ _ _ _ _ read decided =>
    left
    exact Header.texts_subset read text (decided.texts_subset mem)
  | bareCall callee _ _ cut =>
    right
    obtain rfl := List.mem_singleton.mp mem
    exact beforeSemicolon?_subset cut
  | _ => cases mem

/-- The text that a statement starts with starts as a name does. -/
theorem Decision.startsName_lead [Letters]
    (decided : Decision table context previous node shapes role)
    (clean : node.Clean) (named : table.Named) :
    ∀ text ∈ ({ node with role } : Node).lead?, StartsName text := by
  intro text lead
  cases decided with
  | argCall aggregate _ _ _ _ callable =>
    obtain rfl := Option.some.inj lead
    exact named.startsName_of_isCallableKey callable
  | assignment aggregate _ _ _ _ _ place =>
    obtain rfl := Option.some.inj lead
    exact Text.startsName_of_isPlace clean.keyText.1 place
  | bareCall callee _ _ _ path =>
    obtain rfl := Option.some.inj lead
    exact Text.startsName_of_isDottedPath path
  | flow _ _ word =>
    obtain rfl := Option.some.inj lead
    exact startsName_of_mem_flowWords word
  | header _ header _ _ _ _ _ _ decided => cases decided <;> cases lead
  | _ => cases lead

end

end Classify

/-! ## Analyzed forests -/

open Grammar Classify

/-- What analysis promises of a node and the forest below it. -/
structure Settled [Letters] (node : Node) (children : Forest Node) : Prop where
  /-- The texts of the node are on one row. -/
  oneRow : ∀ text ∈ node.keyText :: node.valueText :: node.role.texts, '\n' ∉ text
  /-- The text that the statement starts with starts as a name does. -/
  lead : ∀ text ∈ node.lead?, StartsName text
  /-- A flow statement is a word of the language. -/
  word : node.role = .flow → node.valueText ∈ flowWords
  /-- An import is made of dots and characters of words. -/
  path : ∀ path, node.role = .importEntry path →
    ∀ part ∈ path.texts, ∀ c ∈ part, c = '.' ∨ Text.isWordChar c = true
  /-- Only some nodes have a forest below them. -/
  alone : mayOwnBlock node.role = false → children = .nil

namespace Classify

/-- However a node comes to its role, what analysis promises of it holds. -/
theorem Decision.settled [Letters] {table : SymbolTable} {context : Context}
    {previous : Option Role}
    {node : Node} {shapes : List Shape} {role : Role} {children : Forest Node}
    (decided : Decision table context previous node shapes role) (clean : node.Clean)
    (named : table.Named) (alone : mayOwnBlock role = false → children = .nil) :
    Settled { node with role } children := by
  refine ⟨?_, decided.startsName_lead clean named, ?_, ?_, alone⟩
  · intro text mem feed
    rcases List.mem_cons.mp mem with rfl | mem
    · exact clean.keyText.2 feed
    rcases List.mem_cons.mp mem with rfl | mem
    · exact clean.valueText feed
    rcases decided.texts_subset text mem with inKey | inValue
    · exact clean.keyText.2 (inKey feed)
    · exact clean.valueText (inValue feed)
  · rintro rfl
    cases decided with
    | flow _ _ word => exact word
    | header _ _ _ _ _ _ _ _ decided => cases decided
  · rintro path rfl
    cases decided with
    | importEntry raw _ _ _ _ _ read => exact fun part mem => (importPath?_texts read part mem).2
    | header _ _ _ _ _ _ _ _ decided => cases decided

/-- The pass over a forest settles every node, and keeps the names of the table names. -/
theorem Classified.settled [Letters] {context : Context} {previous : Option Role}
    {table table' : SymbolTable} {forest forest' : Forest Node}
    (classified : Classified context previous table forest forest' table')
    (clean : ∀ node ∈ forest.preorder, node.Clean) (anchored : forest.Anchored)
    (named : table.Named) : forest'.Every Settled ∧ table'.Named := by
  induction classified with
  | nil => exact ⟨trivial, named⟩
  | @cons context previous table inner outer node role children children' rest rest' decided owns
      below after ihBelow ihAfter =>
    have own : node.Clean := clean node List.mem_cons_self
    obtain ⟨settledBelow, namedBelow⟩ := ihBelow
      (fun other mem => clean other (List.mem_cons_of_mem _ (List.mem_append_left _ mem)))
      anchored.2.1 (named.declare decided)
    obtain ⟨settledAfter, namedAfter⟩ := ihAfter
      (fun other mem => clean other (List.mem_cons_of_mem _ (List.mem_append_right _ mem)))
      anchored.2.2 namedBelow
    refine ⟨⟨decided.settled own named ?_, settledBelow, settledAfter⟩, namedAfter⟩
    intro mayNot
    rcases owns with may | noCode
    · rw [mayNot] at may
      cases may
    · have empty := anchored.1 (List.map_eq_nil_iff.mp noCode)
      subst empty
      cases below
      rfl

end Classify

/-- The steps of an analysis that succeeds. -/
theorem analyze_eq_ok_iff [Letters] {config : Config} {source : Text} {analysis : Analysis} :
    analyze config source = .ok analysis ↔
      ∃ lines forest, Line.scan config source = .ok lines ∧ Forest.ofLines lines = .ok forest ∧
        forest.classify = .ok (analysis.forest, analysis.symbols) := by
  rw [analyze]
  constructor
  · intro ok
    obtain ⟨lines, scanned, ok⟩ := bind_eq_ok.mp ok
    obtain ⟨forest, nested, ok⟩ := bind_eq_ok.mp ok
    obtain ⟨⟨classified, symbols⟩, given, ok⟩ := bind_eq_ok.mp ok
    obtain rfl := Except.ok.inj ok
    exact ⟨lines, forest, scanned, nested, given⟩
  · rintro ⟨lines, forest, scanned, nested, given⟩
    rw [scanned]
    show (Forest.ofLines lines >>= _) = _
    rw [nested]
    show (forest.classify >>= _) = _
    rw [given]
    rfl

/-- Every node of an analyzed document is settled. -/
theorem settled_of_analyze [Letters] {config : Config} {source : Text} {analysis : Analysis}
    (ok : analyze config source = .ok analysis) : analysis.forest.Every Settled := by
  obtain ⟨lines, forest, scanned, nested, given⟩ := analyze_eq_ok_iff.mp ok
  have clean : ∀ node ∈ forest.preorder, node.Clean := by
    intro node mem
    rw [Nest.preorder_of_ofLines nested] at mem
    obtain ⟨line, inLines, rfl⟩ := List.mem_map.mp mem
    exact Node.clean_ofLine (Line.clean_of_mem_scan scanned inLines).1
  exact ((classified_of_siblings given).settled clean (Nest.anchored_ofLines nested)
    SymbolTable.named_empty).1

end Outline
