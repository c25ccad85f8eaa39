import Outline.Proofs.Balance
import Outline.Proofs.Declared

/-!
# Texts that are written as they are

Values are read as expressions, but some texts of a node go into the program as they are: what is
called, the targets of a loop, the name and the parameter of a function, an import, a word. All of
these are names or paths, in which no character is a quote or a bracket (`Node.Plain`). For the key
of a call this holds because the key was declared by a node before it. The place of an assignment is
left out: it is looked at by a search of its own that knows only one kind of bracket.
-/

set_option autoImplicit false

namespace Outline

open Nesting

/-! ## Names in headers -/

namespace Grammar

/-- What starts a name can also go on with it. -/
theorem isNameChar_of_isNameStart [Letters] {c : Char} (start : isNameStart c = true) :
    isNameChar c = true := by
  simp only [isNameStart, Bool.or_eq_true] at start
  simp only [isNameChar, Bool.or_eq_true]
  rcases start with letter | underscore
  · exact .inl (.inl letter)
  · exact .inr underscore

/-- A character of a name is neither a quote nor a bracket. -/
theorem isNeutral_of_isNameChar [Letters] {c : Char} (inName : isNameChar c = true) :
    isNeutral c = true := by
  have other (d : Char) (small : d.toNat < 0x80) (outside : Text.isWordChar d = false) :
      (c == d) = false := by
    rw [beq_eq_false_iff_ne]
    exact ne_of_isNameChar inName small outside
  simp only [isNeutral, Text.isQuote, Text.isOpening, Text.isClosing]
  rw [other '"' (by decide) (by decide), other '\'' (by decide) (by decide),
    other '(' (by decide) (by decide), other '[' (by decide) (by decide),
    other '{' (by decide) (by decide), other ')' (by decide) (by decide),
    other ']' (by decide) (by decide), other '}' (by decide) (by decide)]
  rfl

theorem isNameChar_of_readName? [Letters] {s name rest : Text}
    (read : readName? s = some (name, rest)) : ∀ c ∈ name, isNameChar c = true := by
  cases s with
  | nil => cases read
  | cons first tail =>
    rw [readName?] at read
    split at read
    next start =>
      obtain ⟨rfl, rfl⟩ := Prod.mk.inj (Option.some.inj read)
      intro c mem
      rcases List.mem_cons.mp mem with rfl | later
      · exact isNameChar_of_isNameStart start
      · exact List.all_eq_true.mp List.all_takeWhile c later
    next => cases read

end Grammar

namespace Header

open Grammar

/-- The names that a header introduces. -/
def names : Header → List Text
  | .forLoop targets _ => targets
  | .function name param => [name, param]
  | _ => []

theorem isNameChar_of_readMoreTargets [Letters] (s : Text) :
    ∀ name ∈ (readMoreTargets s).1, ∀ c ∈ name, isNameChar c = true := by
  fun_induction readMoreTargets s with
  | case1 s name rest read names after more ih =>
    rw [more] at ih
    intro other mem
    rcases List.mem_cons.mp mem with rfl | later
    · rw [readNextTarget?] at read
      split at read
      next => exact isNameChar_of_readName? read
      next => cases read
    · exact ih other later
  | case2 s none =>
    intro name mem
    cases mem

/-- The targets of a loop are made of characters of names. -/
theorem isNameChar_of_readFor? [Letters] {s : Text} {header : Header}
    (read : readFor? s = some header) : ∀ name ∈ header.names, ∀ c ∈ name, isNameChar c = true := by
  obtain ⟨rest, _, more⟩ := Option.bind_eq_some_iff.mp read
  obtain ⟨⟨targets, rest₁⟩, found, more⟩ := Option.bind_eq_some_iff.mp more
  obtain ⟨rest₂, _, more⟩ := Option.bind_eq_some_iff.mp more
  obtain ⟨iterable, _, more⟩ := Option.bind_eq_some_iff.mp more
  obtain rfl := Option.some.inj more
  obtain ⟨⟨first, after⟩, named, others⟩ := Option.bind_eq_some_iff.mp found
  obtain ⟨rfl, rfl⟩ := Prod.mk.inj (Option.some.inj others)
  intro name mem
  rcases List.mem_cons.mp mem with rfl | later
  · exact isNameChar_of_readName? named
  · exact isNameChar_of_readMoreTargets after name later

/-- The name and the parameter of a function are made of characters of names. -/
theorem isNameChar_of_readFunction? [Letters] {s : Text} {header : Header}
    (read : readFunction? s = some header) :
    ∀ name ∈ header.names, ∀ c ∈ name, isNameChar c = true := by
  obtain ⟨rest, _, more⟩ := Option.bind_eq_some_iff.mp read
  obtain ⟨⟨function, rest₁⟩, named, more⟩ := Option.bind_eq_some_iff.mp more
  obtain ⟨rest₂, _, more⟩ := Option.bind_eq_some_iff.mp more
  obtain ⟨⟨param, rest₃⟩, last, more⟩ := Option.bind_eq_some_iff.mp more
  change (if _ then some (Header.function function param) else none) = some header at more
  split at more
  next =>
    obtain rfl := Option.some.inj more
    intro name mem
    rcases List.mem_cons.mp mem with rfl | later
    · exact isNameChar_of_readName? named
    · obtain rfl := List.mem_singleton.mp later
      exact isNameChar_of_readName? last
  next => cases more

/-- A header introduces names only. -/
theorem isNameChar_of_read? [Letters] {s : Text} {header : Header} (read : read? s = some header) :
    ∀ name ∈ header.names, ∀ c ∈ name, isNameChar c = true := by
  have noNames (none : header.names = []) : ∀ name ∈ header.names, ∀ c ∈ name,
      isNameChar c = true := by
    rw [none]
    intro name mem
    cases mem
  rcases read?_cases read with found | found | ⟨condition, found, rfl⟩ |
    ⟨condition, found, rfl⟩ | ⟨condition, found, rfl⟩ | found
  · exact isNameChar_of_readFunction? found
  · exact isNameChar_of_readFor? found
  · exact noNames rfl
  · exact noNames rfl
  · exact noNames rfl
  · obtain rfl := readElse?_eq_some found
    exact noNames rfl

end Header

/-! ## What a node puts into its row -/

/-- The texts of a node that go into the program as they are, the place of an assignment left
out. -/
def Node.verbatim (node : Node) : List Text :=
  match node.role with
  | .argCall _ => [node.keyText]
  | .bareCall callee => [callee]
  | .flow => [node.valueText]
  | .forHeader targets _ | .rangeForHeader targets _ => targets
  | .functionDef name param => name :: param.toList
  | .importEntry path => path.texts
  | _ => []

/-- No text that goes into the program as it is has a quote or a bracket. -/
def Node.Plain (node : Node) : Prop := ∀ text ∈ node.verbatim, ∀ c ∈ text, isNeutral c = true

theorem isNeutral_of_path {c : Char} (inPath : c = '.' ∨ Text.isWordChar c = true) :
    isNeutral c = true := by
  rcases inPath with rfl | word
  · rfl
  · exact Expression.isNeutral_of_isTame (Token.isTame_of_isWordChar word)

theorem ImportPath.boundName_mem_texts (path : ImportPath) : path.boundName ∈ path.texts := by
  rw [boundName, texts]
  cases path.nickname with
  | some name => simp
  | none => cases path.member <;> simp

namespace Classify

/-- What a decision puts into the program as it is is plain, if the key of a call is. -/
theorem Decision.plain [Letters] {table : SymbolTable} {context : Context} {previous : Option Role}
    {node : Node} {shapes : List Shape} {role : Role}
    (decided : Decision table context previous node shapes role)
    (called : ∀ aggregate, role = .argCall aggregate → ∀ c ∈ node.keyText, isNeutral c = true) :
    ({ node with role } : Node).Plain := by
  intro text mem c inText
  cases decided with
  | argCall aggregate =>
    obtain rfl := List.mem_singleton.mp mem
    exact called aggregate rfl c inText
  | bareCall callee _ _ _ path =>
    obtain rfl := List.mem_singleton.mp mem
    exact isNeutral_of_path (Text.mem_isDottedPath path c inText)
  | flow _ _ word =>
    obtain rfl := List.mem_singleton.mp mem
    have plain : flowWords.all (fun word => word.all isNeutral) = true := by decide
    exact List.all_eq_true.mp (List.all_eq_true.mp plain _ word) c inText
  | importEntry _ path _ _ _ _ read =>
    exact isNeutral_of_path ((importPath?_texts read text mem).2 c inText)
  | header _ header _ _ _ _ _ read decided =>
    have names := Header.isNameChar_of_read? read
    refine Grammar.isNeutral_of_isNameChar ?_
    cases decided with
    | forLoop | rangeLoop => exact names text mem c inText
    | function name param =>
      rcases List.mem_cons.mp mem with rfl | later
      · exact names text List.mem_cons_self c inText
      · have isParam : text = param := by
          split at later
          · cases later
          · exact List.mem_singleton.mp later
        exact names text (isParam ▸ List.mem_cons_of_mem _ List.mem_cons_self) c inText
    | _ => cases mem
  | _ => cases mem

/-- A name that was imported is plain, if the nodes that are no calls are. -/
theorem isNeutral_of_lastImport {nodes : List Node} {name : Text} {path : ImportPath}
    (plain : ∀ node ∈ nodes, (∀ aggregate, node.role ≠ .argCall aggregate) → node.Plain)
    (imported : LastImport nodes name path) : ∀ c ∈ name, isNeutral c = true := by
  obtain ⟨before, node, after, rfl, role, rfl, _⟩ := imported
  have own : node.Plain := by
    refine plain node (List.mem_append_right _ List.mem_cons_self) fun aggregate call => ?_
    rw [role] at call
    cases call
  refine own path.boundName ?_
  rw [Node.verbatim, role]
  exact path.boundName_mem_texts

/-- A name that can be called is plain, if the nodes before that are no calls are. -/
theorem isNeutral_of_callable {nodes : List Node} {name : Text}
    (plain : ∀ node ∈ nodes, (∀ aggregate, node.role ≠ .argCall aggregate) → node.Plain)
    (callable : Callable nodes name) : ∀ c ∈ name, isNeutral c = true := by
  rcases callable with ⟨node, mem, param, role⟩ | ⟨path, imported, _⟩
  · have own : node.Plain := by
      refine plain node mem fun aggregate call => ?_
      rw [role] at call
      cases call
    refine own name ?_
    rw [Node.verbatim, role]
    exact List.mem_cons_self
  · exact isNeutral_of_lastImport plain imported

/-- Every node of a classified forest is plain. -/
theorem plain_of_classify [Letters] {forest forest' : Forest Node} {table : SymbolTable}
    (ok : forest.classify = .ok (forest', table)) : ∀ node ∈ forest'.preorder, node.Plain := by
  -- Nodes that are no calls come first, because what is called goes back to them.
  have others : ∀ node ∈ forest'.preorder,
      (∀ aggregate, node.role ≠ .argCall aggregate) → node.Plain := by
    intro node mem noCall
    obtain ⟨before, after, split⟩ := List.append_of_mem mem
    obtain ⟨_, _, plain, _, decided, same⟩ := decision_of_classify ok split
    rw [same]
    exact decided.plain fun aggregate role => absurd role (noCall aggregate)
  intro node mem
  obtain ⟨before, after, split⟩ := List.append_of_mem mem
  obtain ⟨_, _, plain, _, decided, same⟩ := decision_of_classify ok split
  have earlier : ∀ node ∈ before, (∀ aggregate, node.role ≠ .argCall aggregate) → node.Plain := by
    intro other inBefore
    exact others other (by rw [split]; exact List.mem_append_left _ inBefore)
  rw [same]
  refine decided.plain fun aggregate role => ?_
  rw [role] at decided
  rcases decided.argCall_declared with callable | ⟨root, rest, path, key, dotted, imported, _⟩
  · exact isNeutral_of_callable earlier callable
  · intro c inKey
    rw [key, List.mem_append, List.mem_cons] at inKey
    rcases inKey with inRoot | rfl | inRest
    · exact isNeutral_of_lastImport earlier imported c inRoot
    · rfl
    · exact isNeutral_of_path (Text.mem_isDottedPath dotted c inRest)

end Classify
end Outline
