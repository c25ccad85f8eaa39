import Outline.Proofs.Nest

/-!
# Comments are never alone below a node

`Forest.Every` says that a property holds at each node of a forest, of its label and of the forest
below it. A comment nests like the line of code after it. So in a forest of lines, whatever node has
children has a line of code among them (`Forest.Anchored`).
-/

set_option autoImplicit false

namespace Outline

namespace Forest

variable {α : Type} {P Q : α → Forest α → Prop}

/-! ## Properties of every node -/

/-- A property of each label and the forest below it. -/
def Every (P : α → Forest α → Prop) : Forest α → Prop
  | .nil => True
  | .cons label children rest => P label children ∧ children.Every P ∧ rest.Every P

/-- What holds for every node of a forest holds for each in document order. -/
theorem Every.of_mem_preorder {p : α → Prop} {forest : Forest α}
    (every : forest.Every fun label _ => p label) : ∀ label ∈ forest.preorder, p label := by
  induction forest with
  | nil =>
    intro label mem
    cases mem
  | cons own children rest ihChildren ihRest =>
    intro label mem
    rcases List.mem_cons.mp mem with rfl | inner
    · exact every.1
    · rcases List.mem_append.mp inner with below | after
      · exact ihChildren every.2.1 label below
      · exact ihRest every.2.2 label after

theorem Every.imp {forest : Forest α} (every : forest.Every P)
    (weaker : ∀ label children, P label children → Q label children) : forest.Every Q := by
  induction forest with
  | nil => trivial
  | cons label children rest ihChildren ihRest =>
    exact ⟨weaker label children every.1, ihChildren every.2.1, ihRest every.2.2⟩

/-! ## Children with code -/

/-- Every node has no children, or a line of code among them. -/
def Anchored (forest : Forest Node) : Prop :=
  forest.Every fun _ children => children.codeRoots = [] → children = .nil

/-- Labels in which a comment is followed by a label at its own depth, or comes last at the top
level. -/
structure Led (labels : List (Nat × Node)) : Prop where
  /-- A comment is at the depth of the label after it. -/
  next : labels.IsChain fun label next => label.2.isCode = false → next.1 = label.1
  /-- A comment that comes last is at the top level. -/
  last : ∀ label ∈ labels.getLast?, label.2.isCode = true ∨ label.1 = 0

/-- The labels that become children end in code. -/
theorem Led.takeWhile {label : Nat × Node} {rest : List (Nat × Node)} (led : Led (label :: rest)) :
    Led (rest.takeWhile fun next => label.1 < next.1) := by
  refine ⟨ led.next.tail.prefix (List.takeWhile_prefix _), ?_⟩
  intro last isLast
  have split :
      (rest.takeWhile fun next => label.1 < next.1) ++
          (rest.dropWhile fun next => label.1 < next.1) =
        rest := List.takeWhile_append_dropWhile
  have deeper : label.1 < last.1 := by
    have inside := List.mem_of_mem_getLast? isLast
    simpa using List.all_eq_true.mp List.all_takeWhile last inside
  cases after : rest.dropWhile fun next => decide (label.1 < next.1) with
  | nil =>
    rw [after, List.append_nil] at split
    refine led.last last ?_
    rw [split] at isLast
    rw [List.getLast?_cons, Option.mem_def.mp isLast]
    rfl
  | cons next more =>
    left
    have stop := List.head?_dropWhile_not (fun next => decide (label.1 < next.1)) rest
    have chain := led.next.tail
    rw [List.tail_cons, ← split, List.isChain_append] at chain
    rw [after] at stop chain
    cases code : last.2.isCode with
    | true => rfl
    | false =>
      have same := chain.2.2 last isLast next rfl code
      simp only [List.head?_cons, decide_eq_false_iff_not] at stop
      omega

/-- The labels behind those that become children are in such an order again. -/
theorem Led.dropWhile {label : Nat × Node} {rest : List (Nat × Node)} (led : Led (label :: rest)) :
    Led (rest.dropWhile fun next => label.1 < next.1) := by
  have suffix := List.dropWhile_suffix (l := rest) fun next => decide (label.1 < next.1)
  refine ⟨led.next.tail.suffix suffix, ?_⟩
  intro last isLast
  obtain ⟨front, split⟩ := suffix
  refine led.last last ?_
  rw [← split, ← List.cons_append, List.getLast?_append, Option.mem_def.mp isLast]
  rfl

/-- Labels below the top level have code among their roots. -/
theorem codeRoots_ofLevels_ne_nil {labels : List (Nat × Node)} (led : Led labels)
    (some : labels ≠ []) (below : ∀ label ∈ labels, 0 < label.1) :
    (ofLevels labels).codeRoots ≠ [] := by
  fun_induction ofLevels labels with
  | case1 => exact absurd rfl some
  | case2 depth label rest ihChildren ihRest =>
    rw [codeRoots, roots]
    cases code : label.isCode with
    | true =>
      rw [List.filter_cons_of_pos code]
      exact List.cons_ne_nil _ _
    | false =>
      -- The label is a comment, so the next one exists and is a root too.
      rw [List.filter_cons_of_neg (by rw [code]; decide)]
      cases rest with
      | nil =>
        have top := led.last (depth, label) rfl
        have := below (depth, label) List.mem_cons_self
        rw [code] at top
        rcases top with isCode | isTop
        · cases isCode
        · omega
      | cons next more =>
        have same := (List.isChain_cons_cons.mp led.next).1 code
        have kept : (next :: more).dropWhile (fun other => decide (depth < other.1)) =
            next :: more := by
          refine List.dropWhile_cons_of_neg ?_
          simp only [decide_eq_true_eq]
          omega
        have lastOnes := led.dropWhile
        simp only [kept] at ihRest lastOnes ⊢
        exact ihRest lastOnes (List.cons_ne_nil _ _) fun other mem =>
          below other (List.mem_cons_of_mem _ mem)

/-- A forest of such labels has no node with comments alone below it. -/
theorem anchored_ofLevels {labels : List (Nat × Node)} (led : Led labels) :
    (ofLevels labels).Anchored := by
  fun_induction ofLevels labels with
  | case1 => trivial
  | case2 depth label rest ihChildren ihRest =>
    refine ⟨?_, ihChildren led.takeWhile, ihRest led.dropWhile⟩
    intro noCode
    cases inner : rest.takeWhile fun next => decide (depth < next.1) with
    | nil => rw [ofLevels]
    | cons next more =>
      refine absurd noCode (codeRoots_ofLevels_ne_nil led.takeWhile ?_ ?_)
      · simp only [inner]
        exact List.cons_ne_nil _ _
      · intro other mem
        have deeper := List.all_eq_true.mp List.all_takeWhile other mem
        simp only [decide_eq_true_eq] at deeper
        omega

end Forest

namespace Node

theorem shape_splitContent (content : Text) : (splitContent content).1 ≠ .comment := by
  unfold splitContent
  split
  · exact nofun
  · exact nofun
  · split <;> exact nofun

@[simp]
theorem isCode_ofLine (line : Line) : (ofLine line).isCode = !line.isComment := by
  rw [ofLine]
  split
  next kind =>
    rw [Line.isComment, kind]
    rfl
  next kind =>
    rw [Line.isComment, kind, isCode, bne_iff_ne.mpr (shape_splitContent line.content)]
    rfl

end Node

namespace Nest

/-- The nodes of lines are such labels: a comment waits for the line of code after it. -/
theorem led_placed (lines : List Line) : Forest.Led (placed lines) := by
  induction lines with
  | nil =>
    refine ⟨.nil, ?_⟩
    intro label isLast
    cases isLast
  | cons line lines ih =>
    cases lines with
    | nil =>
      refine ⟨.singleton _, ?_⟩
      intro label isLast
      obtain rfl := Option.some.inj isLast
      show (Node.ofLine line).isCode = true ∨ nextDepth [line] = 0
      rw [Node.isCode_ofLine, nextDepth]
      cases line.isComment with
      | true => exact .inr rfl
      | false => exact .inl rfl
    | cons next more =>
      rw [placed, placed]
      refine ⟨List.isChain_cons_cons.mpr ⟨?_, ih.next⟩, ih.last⟩
      intro comment
      rw [Node.isCode_ofLine, Bool.not_eq_false'] at comment
      show nextDepth (next :: more) = nextDepth (line :: next :: more)
      rw [nextDepth.eq_def (line :: next :: more)]
      exact (if_pos comment).symm

/-- In a forest of lines, comments are never alone below a node. -/
theorem anchored_ofLines {lines : List Line} {forest : Forest Node}
    (made : Forest.ofLines lines = .ok forest) : forest.Anchored := by
  obtain ⟨_, rfl⟩ := ofLines_eq_ok_iff.mp made
  exact Forest.anchored_ofLevels (led_placed lines)

end Nest
end Outline
