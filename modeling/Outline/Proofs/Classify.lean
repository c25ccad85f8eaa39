import Outline.Classify.Basic
import Outline.Proofs.Outcome

/-!
# What classification decides

Classification is read here as two relations. `Decision` says in which ways a node comes to a role,
one rule for each, with everything that was checked on the way. `Classified` follows the pass over a
forest: each node has its role by a decision, and the names it introduces are known to the nodes
after it. Laws about classified documents are proved by induction on `Classified` and, at a node, by
cases on `Decision`.
-/

set_option autoImplicit false

namespace Outline.Classify

/-! ## Deciding the role of a node -/

/-- The role that a header has, by its form and by what stands before it. -/
inductive HeaderDecision [Letters] (table : SymbolTable) (previous : Option Role) :
    Header → Role → Prop
  | ifThen (condition : Text) :
      HeaderDecision table previous (.ifThen condition) (.ifHeader condition)
  | elifThen (condition : Text) (follows : isCondition previous = true) :
      HeaderDecision table previous (.elifThen condition) (.elifHeader condition)
  | otherwise (follows : isCondition previous = true) :
      HeaderDecision table previous .otherwise .elseHeader
  | whileLoop (condition : Text) :
      HeaderDecision table previous (.whileLoop condition) (.whileHeader condition)
  | forLoop (targets : List Text) (iterable : Text)
      (plain : Text.after? "range.".toList iterable = none) :
      HeaderDecision table previous (.forLoop targets iterable) (.forHeader targets iterable)
  | rangeLoop (targets : List Text) (range after : Text) (bounds : List Text)
      (sugar : Text.after? "range.".toList range = some after)
      (read : RangeSugar.bounds range = .ok bounds) :
      HeaderDecision table previous (.forLoop targets range) (.rangeForHeader targets range)
  | function (name param : Text) (fresh : table.assignmentLine? name = none) :
      HeaderDecision table previous (.function name param)
        (.functionDef name (if param = ['_'] then none else some param))

/-- The ways in which a node comes to a role. -/
inductive Decision [Letters] (table : SymbolTable) (context : Context) (previous : Option Role)
    (node : Node) (shapes : List Shape) : Role → Prop
  | comment (shape : node.shape = .comment) : Decision table context previous node shapes .comment
  | importEntry (text : Text) (path : ImportPath) (inside : context = .imports)
      (shape : node.shape = .item) (noKey : node.key = none) (value : node.value = some text)
      (read : importPath? text = some path) :
      Decision table context previous node shapes (.importEntry path)
  | dictEntry (aggregate : Aggregate) (inside : context = .dict) (shape : node.shape = .keyed)
      (key : node.keyText ≠ []) (held : pairAggregate node.keyText node shapes = .ok aggregate) :
      Decision table context previous node shapes (.dictEntry aggregate)
  | listEntry (aggregate : Aggregate) (inside : context = .list) (shape : node.shape = .item)
      (held : itemAggregate node shapes = .ok aggregate) :
      Decision table context previous node shapes (.listEntry aggregate)
  | header (keyword : Text) (header : Header) (role : Role) (inside : context = .block)
      (shape : node.shape = .keyed) (noValue : node.value = none)
      (found : Header.keyword? node.keyText = some keyword)
      (read : Header.read? node.keyText = some header)
      (decided : HeaderDecision table previous header role) (body : shapes ≠ []) :
      Decision table context previous node shapes role
  | print (inside : context = .block) (shape : node.shape = .keyed)
      (key : node.keyText = "print".toList) : Decision table context previous node shapes .print
  | returnPair (inside : context = .block) (shape : node.shape = .keyed)
      (key : node.keyText = "return".toList) :
      Decision table context previous node shapes .returnValue
  | importList (inside : context = .block) (shape : node.shape = .keyed)
      (key : node.keyText = "packages".toList) (noValue : node.value = none) (body : shapes ≠ []) :
      Decision table context previous node shapes .importList
  | argCall (aggregate : Aggregate) (inside : context = .block) (shape : node.shape = .keyed)
      (noHeader : Header.keyword? node.keyText = none) (key : node.keyText ≠ [])
      (callable : isCallableKey table node.keyText = true)
      (held : callAggregate node shapes = .ok aggregate) :
      Decision table context previous node shapes (.argCall aggregate)
  | assignment (aggregate : Aggregate) (inside : context = .block) (shape : node.shape = .keyed)
      (noHeader : Header.keyword? node.keyText = none) (key : node.keyText ≠ [])
      (notCallable : isCallableKey table node.keyText = false)
      (place : Text.isPlace node.keyText = true)
      (held : pairAggregate node.keyText node shapes = .ok aggregate) :
      Decision table context previous node shapes (.assignment aggregate)
  | bareCall (callee : Text) (inside : context = .block) (shape : node.shape = .bare)
      (cut : beforeSemicolon? node.valueText = some callee)
      (path : Text.isDottedPath callee = true) (known : resolves table callee = true) :
      Decision table context previous node shapes (.bareCall callee)
  | flow (inside : context = .block) (shape : node.shape = .bare)
      (word : node.valueText ∈ flowWords) : Decision table context previous node shapes .flow
  | returnBare (inside : context = .block) (shape : node.shape = .bare)
      (word : node.valueText = "return".toList) :
      Decision table context previous node shapes .returnValue

theorem report_eq_ok {α : Type} {line : Nat} {outcome : Except Fault α} {a : α}
    (ok : report line outcome = .ok a) : outcome = .ok a := by
  cases outcome with
  | error fault => cases ok
  | ok b =>
    obtain rfl := Except.ok.inj ok
    rfl

/-- The role of a header comes from its form and from what stands before it. -/
theorem headerDecision_of_headerRole [Letters] {table : SymbolTable} {previous : Option Role}
    {line : Nat}
    {header : Header} {role : Role} (ok : headerRole table previous line header = .ok role) :
    HeaderDecision table previous header role := by
  cases header with
  | ifThen condition =>
    obtain rfl := Except.ok.inj ok
    exact .ifThen condition
  | elifThen condition =>
    rw [headerRole] at ok
    split at ok
    next follows =>
      obtain rfl := Except.ok.inj ok
      exact .elifThen condition follows
    next => cases ok
  | otherwise =>
    rw [headerRole] at ok
    split at ok
    next follows =>
      obtain rfl := Except.ok.inj ok
      exact .otherwise follows
    next => cases ok
  | whileLoop condition =>
    obtain rfl := Except.ok.inj ok
    exact .whileLoop condition
  | forLoop targets iterable =>
    rw [headerRole] at ok
    split at ok
    next after sugar =>
      obtain ⟨bounds, read, same⟩ := bind_eq_ok.mp ok
      obtain rfl := Except.ok.inj same
      rw [RangeSugar.read] at read
      split at read
      next found bounded =>
        obtain rfl := Except.ok.inj read
        exact .rangeLoop targets iterable after found sugar bounded
      next => cases read
    next plain =>
      obtain rfl := Except.ok.inj ok
      exact .forLoop targets iterable plain
  | function name param =>
    rw [headerRole] at ok
    split at ok
    next => cases ok
    next fresh =>
      obtain rfl := Except.ok.inj ok
      exact .function name param fresh

section

variable {table : SymbolTable} {context : Context} {previous : Option Role} {node : Node}
  {shapes : List Shape} {role : Role}

theorem decision_of_importEntry [Letters] (inside : context = .imports)
    (ok : importEntry node = .ok role) : Decision table context previous node shapes role := by
  rw [importEntry] at ok
  split at ok
  next text shape noKey value =>
    split at ok
    next path read =>
      obtain rfl := Except.ok.inj ok
      exact .importEntry text path inside shape noKey value read
    next => cases ok
  next => cases ok

theorem decision_of_dictEntry [Letters] (inside : context = .dict)
    (ok : dictEntry node shapes = .ok role) : Decision table context previous node shapes role := by
  rw [dictEntry] at ok
  split at ok
  next => cases ok
  next shape =>
    split at ok
    next => cases ok
    next key =>
      obtain ⟨aggregate, held, rfl⟩ := map_eq_ok.mp ok
      rw [List.isEmpty_iff] at key
      exact .dictEntry aggregate inside (Decidable.not_not.mp shape) key held

theorem decision_of_listEntry [Letters] (inside : context = .list)
    (ok : listEntry node shapes = .ok role) : Decision table context previous node shapes role := by
  rw [listEntry] at ok
  split at ok
  next => cases ok
  next shape =>
    obtain ⟨aggregate, held, rfl⟩ := map_eq_ok.mp ok
    exact .listEntry aggregate inside (Decidable.not_not.mp shape) held

/-- A node under a keyword comes to its role as a header. -/
theorem decision_of_headerStatement [Letters] {keyword : Text} (inside : context = .block)
    (shape : node.shape = .keyed) (found : Header.keyword? node.keyText = some keyword)
    (ok : headerStatement table previous keyword node (!shapes.isEmpty) = .ok role) :
    Decision table context previous node shapes role := by
  rw [headerStatement] at ok
  split at ok
  next => cases ok
  next noValue =>
    obtain ⟨header, read, ok⟩ := bind_eq_ok.mp ok
    obtain ⟨given, decided, ok⟩ := bind_eq_ok.mp ok
    split at ok
    next body =>
      obtain rfl := Except.ok.inj ok
      rw [Header.read] at read
      split at read
      next header' whole =>
        obtain rfl := Except.ok.inj read
        refine .header keyword header' given inside shape ?_ found whole
          (headerDecision_of_headerRole decided) ?_
        · simpa using noValue
        · simpa using body
      next => cases read
    next => cases ok

/-- A pair whose key is no header and no word of the language comes to its role as a call or an
assignment. -/
theorem decision_of_plainStatement [Letters] (inside : context = .block)
    (shape : node.shape = .keyed)
    (noHeader : Header.keyword? node.keyText = none) (key : node.keyText ≠ [])
    (ok : plainStatement table node shapes = .ok role) :
    Decision table context previous node shapes role := by
  rw [plainStatement] at ok
  split at ok
  next callable =>
    obtain ⟨aggregate, held, rfl⟩ := map_eq_ok.mp ok
    exact .argCall aggregate inside shape noHeader key callable held
  next notCallable =>
    split at ok
    next place =>
      obtain ⟨aggregate, held, rfl⟩ := map_eq_ok.mp ok
      exact .assignment aggregate inside shape noHeader key
        (Bool.not_eq_true _ ▸ notCallable) place held
    next => cases ok

/-- A pair in a block comes to its role by its keyword, by a word of the language, or as a call or
an assignment. -/
theorem decision_of_keyedStatement [Letters] (inside : context = .block)
    (shape : node.shape = .keyed) (ok : keyedStatement table previous node shapes = .ok role) :
    Decision table context previous node shapes role := by
  rw [keyedStatement] at ok
  split at ok
  next keyword found => exact decision_of_headerStatement inside shape found ok
  next noHeader =>
    split at ok
    next key =>
      obtain rfl := Except.ok.inj ok
      exact .print inside shape key
    next =>
      split at ok
      next key =>
        obtain rfl := Except.ok.inj ok
        exact .returnPair inside shape key
      next =>
        split at ok
        next key =>
          split at ok
          next => cases ok
          next form =>
            obtain rfl := Except.ok.inj ok
            rw [Bool.not_eq_true, Bool.or_eq_false_iff] at form
            refine .importList inside shape key ?_ ?_
            · simpa using form.1
            · simpa using form.2
        next =>
          split at ok
          next => cases ok
          next key =>
            rw [List.isEmpty_iff] at key
            exact decision_of_plainStatement inside shape noHeader key (report_eq_ok ok)

/-- A line without a colon comes to its role as a call, or as a word that is a statement on its
own. -/
theorem decision_of_bareStatement [Letters] (inside : context = .block) (shape : node.shape = .bare)
    (ok : bareStatement table node = .ok role) :
    Decision table context previous node shapes role := by
  rw [bareStatement] at ok
  split at ok
  next callee cut =>
    split at ok
    next => cases ok
    next path =>
      split at ok
      next known =>
        obtain rfl := Except.ok.inj ok
        exact .bareCall callee inside shape cut (by simpa using path) known
      next => cases ok
  next =>
    split at ok
    next word =>
      obtain rfl := Except.ok.inj ok
      exact .flow inside shape (List.contains_iff_mem.mp word)
    next =>
      split at ok
      next word =>
        obtain rfl := Except.ok.inj ok
        exact .returnBare inside shape word
      next => split at ok <;> cases ok

/-- Whatever role a node is given, one of the rules gives it. -/
theorem decision_of_decideRole [Letters]
    (ok : decideRole table context previous node shapes = .ok role) :
    Decision table context previous node shapes role := by
  unfold decideRole at ok
  split at ok
  next shape =>
    obtain rfl := Except.ok.inj ok
    exact .comment shape
  next => exact decision_of_importEntry rfl (report_eq_ok ok)
  next => exact decision_of_dictEntry rfl (report_eq_ok ok)
  next => exact decision_of_listEntry rfl (report_eq_ok ok)
  next shape => exact decision_of_keyedStatement rfl shape ok
  next shape => exact decision_of_bareStatement rfl shape ok
  next => cases ok

/-- A role is given by a decision, and only some roles may have lines of code below. -/
theorem role_eq_ok [Letters] (ok : Classify.role table context previous node shapes = .ok role) :
    Decision table context previous node shapes role ∧ (mayOwnBlock role = true ∨ shapes = []) := by
  rw [Classify.role] at ok
  obtain ⟨given, decided, ok⟩ := bind_eq_ok.mp ok
  split at ok
  next allowed =>
    obtain rfl := Except.ok.inj ok
    rw [Bool.or_eq_true, List.isEmpty_iff] at allowed
    exact ⟨decision_of_decideRole decided, allowed⟩
  next => cases ok

end

/-! ## The pass over a forest -/

/-- The pass over a forest: from what is expected of its roots, the role of the statement before
them and the names known there, to the forest with roles and the names known after it. -/
inductive Classified [Letters] :
    Context → Option Role → SymbolTable → Forest Node → Forest Node → SymbolTable → Prop
  | nil (context : Context) (previous : Option Role) (table : SymbolTable) :
      Classified context previous table .nil .nil table
  | cons {context : Context} {previous : Option Role} {table inner outer : SymbolTable}
      {node : Node} {role : Role} {children children' rest rest' : Forest Node}
      (decided : Decision table context previous node (children.codeRoots.map Node.shape) role)
      (owns : mayOwnBlock role = true ∨ children.codeRoots.map Node.shape = [])
      (below : Classified (.below role) none (table.declare node role) children children' inner)
      (after : Classified context (if node.isCode then some role else previous) inner rest rest'
        outer) :
      Classified context previous table (.cons node children rest)
        (.cons { node with role } children' rest') outer

/-- Siblings that are classified went through the pass. -/
theorem classified_of_siblings [Letters] {context : Context} {previous : Option Role}
    {table table' : SymbolTable} {forest forest' : Forest Node}
    (ok : siblings context previous table forest = .ok (forest', table')) :
    Classified context previous table forest forest' table' := by
  induction forest generalizing context previous table forest' table' with
  | nil =>
    obtain ⟨rfl, rfl⟩ := Prod.mk.inj (Except.ok.inj ok)
    exact .nil context previous table
  | cons node children rest ihChildren ihRest =>
    rw [siblings] at ok
    obtain ⟨role, given, ok⟩ := bind_eq_ok.mp ok
    obtain ⟨⟨children', inner⟩, below, ok⟩ := bind_eq_ok.mp ok
    obtain ⟨⟨rest', outer⟩, after, ok⟩ := bind_eq_ok.mp ok
    obtain ⟨rfl, rfl⟩ := Prod.mk.inj (Except.ok.inj ok)
    obtain ⟨decided, owns⟩ := role_eq_ok given
    exact .cons decided owns (ihChildren below) (ihRest after)

end Outline.Classify
