import Outline.Header.Edition
import Outline.Proofs.Anchored
import Outline.Proofs.Classify

/-!
# Roles fit their parents

Classification changes nothing but roles, and the roles it gives fit together. What a parent expects
of the lines of code below it is its context, and a context admits some roles only
(`Context.Admits`). `Node.Typed` says at one node what this means for the code below it.
`Forest.classify_typed` says that every node of a classified forest is typed.
-/

set_option autoImplicit false

namespace Outline

/-! ## Forests but for their roles -/

/-- A node with its role taken out. -/
def Node.unroled (node : Node) : Node := { node with role := .unclassified }

theorem Forest.codeRoots_map {f : Node → Node} (keeps : ∀ node, (f node).isCode = node.isCode)
    (forest : Forest Node) : (forest.map f).codeRoots = forest.codeRoots.map f := by
  induction forest with
  | nil => rfl
  | cons node children rest _ ih =>
    rw [codeRoots, codeRoots] at ih
    rw [codeRoots, codeRoots, Forest.map, roots, roots, List.filter_cons, List.filter_cons, keeps]
    split
    · rw [List.map_cons, ih]
    · exact ih

/-- Forests that differ in roles only have lines of code of the same shapes as roots. -/
theorem Forest.shapes_of_map_unroled {forest other : Forest Node}
    (same : other.map Node.unroled = forest.map Node.unroled) :
    other.codeRoots.map Node.shape = forest.codeRoots.map Node.shape := by
  have shapes (forest : Forest Node) :
      forest.codeRoots.map Node.shape = (forest.map Node.unroled).codeRoots.map Node.shape := by
    rw [codeRoots_map (f := Node.unroled) fun _ => rfl, List.map_map]
    rfl
  rw [shapes other, same, ← shapes forest]

/-! ## What a context admits -/

/-- Whether a node with this role is a statement of a block, or a list of imports. -/
def Role.standsInBlock : Role → Bool
  | .assignment _ | .argCall _ | .bareCall _ | .print | .returnValue | .flow | .importList => true
  | role => role.opensBlock

namespace Classify

/-- The roles that a line of code may have where a context expects something of it. -/
def Context.Admits : Context → Role → Prop
  | .block, role => role.standsInBlock = true
  | .imports, role => ∃ path, role = .importEntry path
  | .dict, role => ∃ aggregate, role = .dictEntry aggregate
  | .list, role => ∃ aggregate, role = .listEntry aggregate

/-- What is expected of the lines of code that make up data. -/
def Context.holding : Aggregate → Context
  | .scalar => .block
  | .dict => .dict
  | .list => .list

end Classify

open Classify

/-- What classification promises of a node and the lines of code below it. -/
structure Node.Typed (node : Node) (children : Forest Node) : Prop where
  /-- The node has been given a role. -/
  classified : node.role ≠ .unclassified
  /-- The comments are the nodes with the role of a comment. -/
  comment : node.shape = .comment ↔ node.role = .comment
  /-- A block has a body, and its body is statements. -/
  block : node.role.opensBlock = true → children.codeRoots ≠ [] ∧
    ∀ child ∈ children.codeRoots, child.role.standsInBlock = true
  /-- A list of imports has entries, and only entries. -/
  imports : node.role = .importList → children.codeRoots ≠ [] ∧
    ∀ child ∈ children.codeRoots, ∃ path, child.role = .importEntry path
  /-- No code stands below an entry of a list of imports. -/
  entry : ∀ path, node.role = .importEntry path → children.codeRoots = []
  /-- A mapping holds pairs. -/
  dict : node.role.aggregate? = some .dict →
    ∀ child ∈ children.codeRoots, ∃ aggregate, child.role = .dictEntry aggregate
  /-- A list holds items. -/
  list : node.role.aggregate? = some .list →
    ∀ child ∈ children.codeRoots, ∃ aggregate, child.role = .listEntry aggregate
  /-- No code stands below any other node. -/
  leaf : node.role.opensBlock = false → node.role ≠ .importList →
    node.role.aggregate? ≠ some .dict → node.role.aggregate? ≠ some .list → children.codeRoots = []

namespace Classify

/-! ## The role of one node -/

section

variable {table : SymbolTable} {context : Context} {previous : Option Role} {node : Node}
  {shapes : List Shape} {role : Role}

/-- A line of code is given a role that its context admits. -/
theorem Decision.admits [Letters] (decided : Decision table context previous node shapes role)
    (code : node.isCode = true) : context.Admits role := by
  cases decided with
  | comment shape =>
    rw [Node.isCode, shape] at code
    cases code
  | importEntry _ path inside =>
    subst inside
    exact ⟨path, rfl⟩
  | dictEntry aggregate inside | listEntry aggregate inside =>
    subst inside
    exact ⟨aggregate, rfl⟩
  | header _ _ _ inside _ _ _ _ decided =>
    subst inside
    cases decided <;> rfl
  | print inside | returnPair inside | importList inside | argCall _ inside | assignment _ inside
  | bareCall _ inside | flow inside | returnBare inside =>
    subst inside
    rfl

/-- The role of a comment goes to comments, and only to them. -/
theorem Decision.comment_iff [Letters]
    (decided : Decision table context previous node shapes role) :
    node.shape = .comment ↔ role = .comment := by
  cases decided with
  | comment shape => exact ⟨fun _ => rfl, fun _ => shape⟩
  | header _ _ _ _ shape _ _ _ decided =>
    rw [shape]
    cases decided <;> exact ⟨nofun, nofun⟩
  | importEntry _ _ _ shape | dictEntry _ _ shape | listEntry _ _ shape | print _ shape
  | returnPair _ shape | importList _ shape | argCall _ _ shape | assignment _ _ shape
  | bareCall _ _ shape | flow _ shape | returnBare _ shape =>
    rw [shape]
    exact ⟨nofun, nofun⟩

theorem Decision.ne_unclassified [Letters]
    (decided : Decision table context previous node shapes role) : role ≠ .unclassified := by
  cases decided with
  | header _ _ _ _ _ _ _ _ decided => cases decided <;> exact nofun
  | _ => exact nofun

/-- A block and a list of imports have lines of code below them. -/
theorem Decision.body [Letters] (decided : Decision table context previous node shapes role)
    (needs : role.opensBlock = true ∨ role = .importList) : shapes ≠ [] := by
  cases decided with
  | header _ _ _ _ _ _ _ _ _ body => exact body
  | importList _ _ _ _ body => exact body
  | _ => rcases needs with opens | same <;> contradiction

end

theorem Context.below_of_opensBlock {role : Role} (opens : role.opensBlock = true) :
    Context.below role = .block := by
  cases role with
  | ifHeader | elifHeader | elseHeader | whileHeader | forHeader | rangeForHeader | functionDef =>
    rfl
  | _ => cases opens

theorem Context.below_of_aggregate {role : Role} {aggregate : Aggregate}
    (holds : role.aggregate? = some aggregate) :
    Context.below role = .holding aggregate := by
  have noImports : role ≠ .importList := by
    rintro rfl
    cases holds
  rw [Context.below, if_neg noImports, holds]
  cases aggregate <;> rfl

/-- A node is typed when its role comes from a decision and the code below it is admitted by what
the role expects. -/
theorem Decision.typed [Letters] {table : SymbolTable} {context : Context} {previous : Option Role}
    {node : Node} {shapes : List Shape} {role : Role} {children : Forest Node}
    (decided : Decision table context previous node shapes role)
    (owns : mayOwnBlock role = true ∨ shapes = [])
    (sameShapes : children.codeRoots.map Node.shape = shapes)
    (admitted : ∀ child ∈ children.codeRoots, (Context.below role).Admits child.role) :
    Node.Typed { node with role } children := by
  have body (needs : role.opensBlock = true ∨ role = .importList) : children.codeRoots ≠ [] := by
    intro none
    rw [none] at sameShapes
    exact decided.body needs sameShapes.symm
  have alone (mayNot : mayOwnBlock role = false) : children.codeRoots = [] := by
    rcases owns with may | none
    · rw [mayNot] at may
      cases may
    · rw [none] at sameShapes
      exact List.map_eq_nil_iff.mp sameShapes
  refine ⟨decided.ne_unclassified, decided.comment_iff, ?_, ?_, ?_, ?_, ?_, ?_⟩
  · intro opens
    rw [Context.below_of_opensBlock opens] at admitted
    exact ⟨body (.inl opens), admitted⟩
  · intro same
    obtain rfl : role = .importList := same
    exact ⟨body (.inr rfl), admitted⟩
  · intro path same
    obtain rfl : role = .importEntry path := same
    exact alone rfl
  · intro holds
    rwa [Context.below_of_aggregate holds] at admitted
  · intro holds
    rwa [Context.below_of_aggregate holds] at admitted
  · intro opensNone notImports notDict notList
    refine alone ?_
    rw [mayOwnBlock, opensNone, beq_false_of_ne notImports, beq_false_of_ne notDict,
      beq_false_of_ne notList]
    rfl

/-! ## The pass over a forest -/

section

variable {context : Context} {previous : Option Role} {table table' : SymbolTable}
  {forest forest' : Forest Node}

/-- The pass changes nothing but roles. -/
theorem Classified.map_unroled [Letters]
    (classified : Classified context previous table forest forest' table') :
    forest'.map Node.unroled = forest.map Node.unroled := by
  induction classified with
  | nil => rfl
  | cons _ _ _ _ ihBelow ihAfter =>
    rw [Forest.map, Forest.map, ihBelow, ihAfter]
    rfl

/-- The pass gives the roots of code roles that the context admits, and types every node. -/
theorem Classified.typed [Letters]
    (classified : Classified context previous table forest forest' table') :
    (∀ root ∈ forest'.codeRoots, context.Admits root.role) ∧ forest'.Every Node.Typed := by
  induction classified with
  | nil =>
    refine ⟨?_, trivial⟩
    intro root mem
    cases mem
  | @cons context previous table inner outer node role children children' rest rest' decided owns
      below after ihBelow ihAfter =>
    have shapes := Forest.shapes_of_map_unroled below.map_unroled
    refine ⟨?_, decided.typed owns shapes ihBelow.1, ihBelow.2, ihAfter.2⟩
    intro root mem
    obtain ⟨isRoot, code⟩ := List.mem_filter.mp mem
    rcases List.mem_cons.mp isRoot with rfl | later
    · exact decided.admits code
    · exact ihAfter.1 root (List.mem_filter.mpr ⟨later, code⟩)

end

end Classify

/-- Classification changes nothing but roles: the tree, the shapes, the keys, the values and the
lines stay. The code at the top level is statements, and every node is typed: it has a role, and the
roles of the lines of code below it are the ones that its own role expects. -/
theorem Forest.classify_typed [Letters] {forest forest' : Forest Node} {table : SymbolTable}
    (ok : forest.classify = .ok (forest', table)) :
    forest'.map Node.unroled = forest.map Node.unroled ∧
      (∀ root ∈ forest'.codeRoots, root.role.standsInBlock = true) ∧
      forest'.Every Node.Typed := by
  have classified := classified_of_siblings ok
  exact ⟨classified.map_unroled, classified.typed⟩

/-- An import below a comment, a list whose item is continued by a pair, and a block. -/
theorem Forest.classify_typed_nested :
    let forest := Forest.ofLevels (Nest.placed [.code 0 "packages:".toList 1,
      .comment 1 "standard".toList 2, .code 1 "- math".toList 3, .code 0 "x:".toList 4,
      .code 1 "- a: 1".toList 5, .code 2 "b: 2".toList 6, .code 0 "if 1 < 2:".toList 7,
      .code 1 "pass".toList 8])
    ∃ forest' table, forest.classify = .ok (forest', table) ∧
      forest'.preorder.map Node.role = [.importList, .comment,
        .importEntry ⟨"math".toList, none, none⟩, .assignment .list, .listEntry .dict,
        .dictEntry .scalar, .ifHeader "1 < 2".toList, .flow] ∧
      forest'.map Node.unroled = forest.map Node.unroled ∧
      (∀ root ∈ forest'.codeRoots, root.role.standsInBlock = true) ∧
      forest'.Every Node.Typed := by
  intro forest
  have given : (forest.classify.toOption.map fun result => result.1.preorder.map Node.role) =
      some [.importList, .comment, .importEntry ⟨"math".toList, none, none⟩, .assignment .list,
        .listEntry .dict, .dictEntry .scalar, .ifHeader "1 < 2".toList, .flow] := by
    decide +kernel
  obtain ⟨⟨forest', table⟩, found, roles⟩ := Option.map_eq_some_iff.mp given
  have ok := eq_ok_of_toOption found
  exact ⟨forest', table, ok, roles, Forest.classify_typed ok⟩

end Outline
