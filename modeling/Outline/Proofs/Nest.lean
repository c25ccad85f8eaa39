import Mathlib.Data.List.Chain
import Outline.Node.Nest
import Outline.Proofs.Outcome

/-!
# Lines that nest

The depth rule is stated apart from the pass that decides it: the first line of code is not
indented, and each later one is at most one level below the line of code before it. Comments have
no part in the rule. `Nest.check` looks for the first line that breaks it, and `Nest.placed` gives
each line the depth at which it nests.

The pass is followed through the labels of its state (`State.labels`): the nodes that have their
place so far, in document order, each with its depth. Closing nodes leaves the labels as they are,
and a line of code adds the comments that wait and itself (`State.step_code`). So the pass makes the
forest of the placed lines (`State.run_eq`), and it refuses what the check refuses (`ofLines_eq`).

`ofLines_outcome` says that the lines that nest are those that keep the rule, that their forest
lists them in order, each with the number of ancestors that its depth asks for, and that a refusal
names the first line that breaks the rule. The forest is followed through its levels: labels that
step down at most one level at a time are the levels of the forest they make (`levels_ofLevels`),
and a forest is made by its levels (`ofLevels_levels`).
-/

set_option autoImplicit false

namespace Outline

/-- An element of two joined lists stands in the first, or behind it in the second. -/
theorem append_eq_append_cons {α : Type} {front back before after : List α} {a : α}
    (same : front ++ back = before ++ a :: after) :
    (∃ more, front = before ++ a :: more ∧ after = more ++ back) ∨
      ∃ skipped, before = front ++ skipped ∧ back = skipped ++ a :: after := by
  rcases List.append_eq_append_iff.mp same with ⟨skipped, inBefore, rest⟩ | ⟨own, inFront, rest⟩
  · exact .inr ⟨skipped, inBefore, rest⟩
  · cases own with
    | nil => exact .inr ⟨[], by simpa using inFront.symm, by simpa using rest.symm⟩
    | cons first own =>
      obtain ⟨rfl, later⟩ := List.cons.inj rest
      exact .inl ⟨own, inFront, later⟩

namespace Forest

variable {α : Type}

/-! ## The levels of a forest -/

/-- The forest in which each label is followed by its children, the labels of greater depth up to
the next one that is not deeper. -/
def ofLevels (labels : List (Nat × α)) : Forest α :=
  match labels with
  | [] => .nil
  | (depth, label) :: rest =>
    .cons label (ofLevels (rest.takeWhile fun next => depth < next.1))
      (ofLevels (rest.dropWhile fun next => depth < next.1))
termination_by labels.length
decreasing_by
  · exact Nat.lt_succ_of_le (List.takeWhile_sublist _).length_le
  · exact Nat.lt_succ_of_le (List.dropWhile_sublist _).length_le

/-- The first label of a forest is at the depth of its roots. -/
theorem head?_levels {depth : Nat} {forest : Forest α} :
    ∀ row ∈ (forest.levels depth).head?, row.1 = depth := by
  cases forest with
  | nil =>
    intro row mem
    cases mem
  | cons label children rest =>
    intro row mem
    obtain rfl := Option.some.inj mem
    rfl

/-- No label of a forest is above its roots. -/
theorem le_of_mem_levels {depth : Nat} {forest : Forest α} :
    ∀ row ∈ forest.levels depth, depth ≤ row.1 := by
  induction forest generalizing depth with
  | nil =>
    intro row mem
    cases mem
  | cons label children rest ihChildren ihRest =>
    intro row mem
    rcases List.mem_cons.mp mem with rfl | mem
    · exact Nat.le_refl depth
    · rcases List.mem_append.mp mem with below | after
      · exact Nat.le_of_succ_le (ihChildren row below)
      · exact ihRest row after

/-- None of the labels is a child of one before them if the first is not deeper than that one. -/
theorem takeWhile_deeper_eq_nil {depth : Nat} {labels : List (Nat × α)}
    (top : ∀ label ∈ labels.head?, label.1 ≤ depth) :
    (labels.takeWhile fun next => depth < next.1) = [] ∧
      (labels.dropWhile fun next => depth < next.1) = labels := by
  cases labels with
  | nil => exact ⟨rfl, rfl⟩
  | cons label labels =>
    have shallow : ¬ decide (depth < label.1) = true := by
      rw [decide_eq_true_eq, Nat.not_lt]
      exact top label rfl
    exact ⟨List.takeWhile_cons_of_neg shallow, List.dropWhile_cons_of_neg shallow⟩

/-- A forest is the one that its levels make. -/
theorem ofLevels_levels (depth : Nat) (forest : Forest α) :
    ofLevels (forest.levels depth) = forest := by
  induction forest generalizing depth with
  | nil => rw [levels, ofLevels]
  | cons label children rest ihChildren ihRest =>
    have deeper : ∀ row ∈ children.levels (depth + 1), decide (depth < row.1) = true := by
      intro row mem
      rw [decide_eq_true_eq]
      exact le_of_mem_levels row mem
    have top : ∀ row ∈ (rest.levels depth).head?, row.1 ≤ depth := fun row head =>
      Nat.le_of_eq (head?_levels row head)
    have stops := takeWhile_deeper_eq_nil top
    rw [levels, ofLevels, List.takeWhile_append_of_pos deeper, stops.1, List.append_nil,
      List.dropWhile_append_of_pos deeper, stops.2, ihChildren, ihRest]

/-- Labels that start at a depth, stay below it, and step down at most one level at a time. -/
structure Stepped (depth : Nat) (labels : List (Nat × α)) : Prop where
  /-- The first label is at the depth. -/
  first : ∀ label ∈ labels.head?, label.1 = depth
  /-- No label is above the depth. -/
  within : ∀ label ∈ labels, depth ≤ label.1
  /-- Each label is at most one level below the one before it. -/
  steps : labels.IsChain fun above label => label.1 ≤ above.1 + 1

/-- The labels that become children step down from the level of the children. -/
theorem Stepped.takeWhile {depth : Nat} {label : Nat × α} {rest : List (Nat × α)}
    (stepped : Stepped depth (label :: rest)) :
    Stepped (depth + 1) (rest.takeWhile fun next => label.1 < next.1) := by
  have top : label.1 = depth := stepped.first label rfl
  have deeper : ∀ next ∈ rest.takeWhile fun next => label.1 < next.1, depth + 1 ≤ next.1 := by
    intro next mem
    have below := List.all_eq_true.mp List.all_takeWhile next mem
    simp only [decide_eq_true_eq] at below
    omega
  refine ⟨?_, deeper, ?_⟩
  · intro next head
    have mem := List.mem_of_mem_head? head
    have inRest : next ∈ rest.head? := by
      obtain ⟨after, split⟩ := List.takeWhile_prefix (l := rest) fun next => label.1 < next.1
      rw [← split, List.head?_append, Option.mem_def.mp head]
      rfl
    cases rest with
    | nil => cases inRest
    | cons second rest =>
      obtain rfl := Option.some.inj inRest
      have step := (List.isChain_cons_cons.mp stepped.steps).1
      have := deeper _ mem
      omega
  · exact stepped.steps.tail.prefix (List.takeWhile_prefix _)

/-- The labels after the children step down from the level of their parent. -/
theorem Stepped.dropWhile {depth : Nat} {label : Nat × α} {rest : List (Nat × α)}
    (stepped : Stepped depth (label :: rest)) :
    Stepped depth (rest.dropWhile fun next => label.1 < next.1) := by
  have top : label.1 = depth := stepped.first label rfl
  have suffix := List.dropWhile_suffix (l := rest) fun next => decide (label.1 < next.1)
  have within : ∀ next ∈ rest.dropWhile fun next => label.1 < next.1, depth ≤ next.1 := by
    intro next mem
    exact stepped.within next (List.mem_cons_of_mem _ (suffix.subset mem))
  refine ⟨?_, within, ?_⟩
  · intro next head
    have := within next (List.mem_of_mem_head? head)
    have stop := List.head?_dropWhile_not (fun next => decide (label.1 < next.1)) rest
    rw [Option.mem_def.mp head] at stop
    simp only [decide_eq_false_iff_not] at stop
    omega
  · exact stepped.steps.tail.suffix suffix

/-- Labels that step down at most one level at a time are the levels of the forest they make. -/
theorem levels_ofLevels {depth : Nat} {labels : List (Nat × α)} (stepped : Stepped depth labels) :
    (ofLevels labels).levels depth = labels := by
  fun_induction ofLevels labels generalizing depth with
  | case1 => rfl
  | case2 own label rest ihChildren ihRest =>
    obtain rfl : own = depth := stepped.first (own, label) rfl
    rw [levels, ihChildren stepped.takeWhile, ihRest stepped.dropWhile,
      List.takeWhile_append_dropWhile]

/-- Changing labels does not change where they stand. -/
theorem map_ofLevels {β : Type} (f : α → β) (labels : List (Nat × α)) :
    (ofLevels labels).map f = ofLevels (labels.map (Prod.map id f)) := by
  fun_induction ofLevels labels with
  | case1 => rw [List.map_nil, ofLevels, Forest.map]
  | case2 depth label rest ihChildren ihRest =>
    rw [List.map_cons, Prod.map_apply, ofLevels, Forest.map, ihChildren, ihRest,
      List.takeWhile_map, List.dropWhile_map]
    rfl

end Forest

namespace Nest

/-! ## The depth rule -/

/-- The lines of code among logical lines. -/
def codeLines (lines : List Line) : List Line := lines.filter fun line => !line.isComment

/-- The rule for the depths of lines of code. -/
structure DepthRule (code : List Line) : Prop where
  /-- The first line is not indented. -/
  first : ∀ line ∈ code.head?, line.depth = 0
  /-- Each later line is at most one level below the one before it. -/
  later : code.IsChain fun above line => line.depth ≤ above.depth + 1

/-- The rule for lines of code that come after another one, or that come first. -/
def RuleAfter : Option Line → List Line → Prop
  | none, code => DepthRule code
  | some above, code => (above :: code).IsChain fun above line => line.depth ≤ above.depth + 1

/-- Whether the depth of a line of code is allowed after the line of code before it. -/
def Follows : Option Line → Line → Prop
  | none, line => line.depth = 0
  | some above, line => line.depth ≤ above.depth + 1

theorem ruleAfter_nil (previous : Option Line) : RuleAfter previous [] := by
  cases previous with
  | none =>
    refine ⟨?_, .nil⟩
    intro line head
    cases head
  | some above => exact .singleton above

/-- The rule of depths holds for lines of code if it holds for the first and, after it, for the
others. -/
theorem ruleAfter_cons {previous : Option Line} {line : Line} {code : List Line} :
    RuleAfter previous (line :: code) ↔ Follows previous line ∧ RuleAfter (some line) code := by
  cases previous with
  | none =>
    constructor
    · intro rule
      exact ⟨rule.first line rfl, rule.later⟩
    · intro ⟨follows, chain⟩
      refine ⟨?_, chain⟩
      intro first head
      obtain rfl := Option.some.inj head
      exact follows
  | some above => exact List.isChain_cons_cons

theorem codeLines_cons_comment {line : Line} (comment : line.isComment = true)
    (lines : List Line) : codeLines (line :: lines) = codeLines lines := by
  rw [codeLines, List.filter_cons_of_neg (by rw [comment]; decide), codeLines]

theorem codeLines_cons_code {line : Line} (code : line.isComment = false) (lines : List Line) :
    codeLines (line :: lines) = line :: codeLines lines := by
  rw [codeLines, List.filter_cons_of_pos (by rw [code]; decide), codeLines]

/-- What is wrong with a line whose depth is not allowed after the line of code before it. -/
def faultAfter : Option Line → Line → Fault
  | none, _ => .topLevel
  | some above, line => .jump (line.depth - above.depth) above.number

/-- Whether each line of code is at most one level deeper than the one before; `previous` is the
line of code before these lines. -/
def check : (previous : Option Line) → List Line → Except Error Unit
  | _, [] => .ok ()
  | previous, line :: lines =>
    if line.isComment then check previous lines
    else
      match previous with
      | none =>
        if line.depth = 0 then check (some line) lines
        else .error (Fault.topLevel.error line.number)
      | some above =>
        if line.depth ≤ above.depth + 1 then check (some line) lines
        else .error ((Fault.jump (line.depth - above.depth) above.number).error line.number)

/-- What the check does with a line of code: it goes on if the depth is allowed, and refuses the
line if not. -/
theorem check_cons_code {line : Line} (code : line.isComment = false) (previous : Option Line)
    (lines : List Line) :
    (Follows previous line ∧ check previous (line :: lines) = check (some line) lines) ∨
      (¬ Follows previous line ∧
        check previous (line :: lines) =
          .error ((faultAfter previous line).error line.number)) := by
  have isCode : ¬ line.isComment = true := by
    rw [code]
    decide
  cases previous with
  | none =>
    by_cases allowed : line.depth = 0
    · left
      refine ⟨allowed, ?_⟩
      rw [check, if_neg isCode]
      exact if_pos allowed
    · right
      refine ⟨allowed, ?_⟩
      rw [check, if_neg isCode]
      exact if_neg allowed
  | some above =>
    by_cases allowed : line.depth ≤ above.depth + 1
    · left
      refine ⟨allowed, ?_⟩
      rw [check, if_neg isCode]
      exact if_pos allowed
    · right
      refine ⟨allowed, ?_⟩
      rw [check, if_neg isCode]
      exact if_neg allowed

theorem check_cons_comment {line : Line} (comment : line.isComment = true)
    (previous : Option Line) (lines : List Line) :
    check previous (line :: lines) = check previous lines := by
  cases previous <;> rw [check, if_pos comment]

/-- The check passes exactly the lines that keep the rule. -/
theorem check_eq_ok_iff {previous : Option Line} {lines : List Line} :
    check previous lines = .ok () ↔ RuleAfter previous (codeLines lines) := by
  induction lines generalizing previous with
  | nil => exact ⟨fun _ => ruleAfter_nil previous, fun _ => rfl⟩
  | cons line lines ih =>
    cases kind : line.isComment with
    | true => rw [check_cons_comment kind, codeLines_cons_comment kind, ih]
    | false =>
      rw [codeLines_cons_code kind, ruleAfter_cons]
      rcases check_cons_code kind previous lines with ⟨follows, goesOn⟩ | ⟨breaks, refused⟩
      · rw [goesOn, ih]
        exact ⟨fun rule => ⟨follows, rule⟩, fun rule => rule.2⟩
      · rw [refused]
        constructor
        · intro ok
          cases ok
        · intro rule
          exact absurd rule.1 breaks

/-- A refusal names the first line of code that breaks the rule. -/
theorem exists_first_of_check_eq_error {previous : Option Line} {lines : List Line} {error : Error}
    (refused : check previous lines = .error error) :
    ∃ before line after message, codeLines lines = before ++ line :: after ∧
      RuleAfter previous before ∧ ¬ RuleAfter previous (before ++ [line]) ∧
      error = .structural line.number message := by
  induction lines generalizing previous with
  | nil => cases refused
  | cons line lines ih =>
    cases kind : line.isComment with
    | true =>
      rw [check_cons_comment kind] at refused
      rw [codeLines_cons_comment kind]
      exact ih refused
    | false =>
      rw [codeLines_cons_code kind]
      rcases check_cons_code kind previous lines with ⟨follows, goesOn⟩ | ⟨breaks, stops⟩
      · -- The line is allowed, so the first line that is not stands after it.
        rw [goesOn] at refused
        obtain ⟨before, bad, after, message, split, kept, broken, named⟩ := ih refused
        refine ⟨line :: before, bad, after, message, ?_, ?_, ?_, named⟩
        · rw [split, List.cons_append]
        · exact ruleAfter_cons.mpr ⟨follows, kept⟩
        · intro rule
          exact broken (ruleAfter_cons.mp rule).2
      · rw [stops] at refused
        refine ⟨[], line, codeLines lines, (faultAfter previous line).message, rfl,
          ruleAfter_nil previous, ?_, ?_⟩
        · intro rule
          exact breaks (ruleAfter_cons.mp rule).1
        · exact (Except.error.inj refused).symm

/-! ## The levels of lines -/

/-- The depth of the first line of code, zero when there is none. -/
def nextDepth : List Line → Nat
  | [] => 0
  | line :: lines => if line.isComment then nextDepth lines else line.depth

/-- The nodes of lines, each with the depth at which it nests. -/
def placed : List Line → List (Nat × Node)
  | [] => []
  | line :: lines => (nextDepth (line :: lines), Node.ofLine line) :: placed lines

/-- Comments are skipped on the way to the next line of code. -/
theorem nextDepth_eq (lines : List Line) :
    nextDepth lines = ((codeLines lines).head?.map Line.depth).getD 0 := by
  induction lines with
  | nil => rfl
  | cons line lines ih =>
    cases kind : line.isComment with
    | true => rw [nextDepth, if_pos kind, ih, codeLines_cons_comment kind]
    | false =>
      rw [nextDepth, if_neg (by rw [kind]; decide), codeLines_cons_code kind]
      rfl

/-- The depth at which a line nests steps down at most one level to the line after it. -/
theorem nextDepth_le_succ {line : Line} {lines : List Line}
    (later : (codeLines (line :: lines)).IsChain fun above line => line.depth ≤ above.depth + 1) :
    nextDepth lines ≤ nextDepth (line :: lines) + 1 := by
  cases kind : line.isComment with
  | true =>
    rw [nextDepth, if_pos kind]
    exact Nat.le_succ _
  | false =>
    rw [codeLines_cons_code kind] at later
    rw [nextDepth_eq, nextDepth, if_neg (by rw [kind]; decide)]
    cases code : codeLines lines with
    | nil => exact Nat.zero_le _
    | cons next more =>
      rw [code] at later
      exact (List.isChain_cons_cons.mp later).1

/-- If lines of code go down by at most one level at a time, so do the nodes, comments included. -/
theorem isChain_placed {lines : List Line}
    (later : (codeLines lines).IsChain fun above line => line.depth ≤ above.depth + 1) :
    (placed lines).IsChain fun above label => label.1 ≤ above.1 + 1 := by
  induction lines with
  | nil => exact .nil
  | cons line lines ih =>
    have tail : (codeLines lines).IsChain fun above line => line.depth ≤ above.depth + 1 := by
      cases kind : line.isComment with
      | true => rwa [codeLines_cons_comment kind] at later
      | false =>
        rw [codeLines_cons_code kind] at later
        exact later.tail
    cases lines with
    | nil => exact .singleton _
    | cons next lines =>
      rw [placed, placed]
      exact List.isChain_cons_cons.mpr ⟨nextDepth_le_succ later, ih tail⟩

/-- Lines that keep the rule step down at most one level at a time, from the top level. -/
theorem stepped_placed {lines : List Line} (rule : DepthRule (codeLines lines)) :
    Forest.Stepped 0 (placed lines) := by
  refine ⟨?_, fun _ _ => Nat.zero_le _, isChain_placed rule.later⟩
  intro label head
  cases lines with
  | nil => cases head
  | cons line lines =>
    obtain rfl := Option.some.inj head
    show nextDepth (line :: lines) = 0
    rw [nextDepth_eq]
    cases code : (codeLines (line :: lines)).head? with
    | none => rfl
    | some first => exact rule.first first code

/-- Each line has one node, in document order. -/
theorem map_snd_placed (lines : List Line) :
    (placed lines).map Prod.snd = lines.map Node.ofLine := by
  induction lines with
  | nil => rfl
  | cons line lines ih => rw [placed, List.map_cons, List.map_cons, ih]

/-- The node of a line of code is at its depth, and that of a comment at the depth of the next line
of code. -/
theorem getElem?_placed (before : List Line) (line : Line) (after : List Line) :
    (placed (before ++ line :: after))[before.length]? =
      some (nextDepth (line :: after), Node.ofLine line) := by
  induction before with
  | nil => rfl
  | cons first before ih =>
    rw [List.cons_append, placed, List.length_cons, List.getElem?_cons_succ, ih]

/-! ## The pass over lines -/

namespace State

/-- The open nodes and their children, in document order, each with its depth. -/
def stackLabels : List (Node × Forest Node) → List (Nat × Node)
  | [] => []
  | (node, children) :: outer =>
    stackLabels outer ++ (outer.length, node) :: children.levels (outer.length + 1)

/-- The nodes that have their place, in document order, each with its depth. -/
def labels (state : State) : List (Nat × Node) :=
  state.roots.levels 0 ++ stackLabels state.stack

/-- What is attached comes behind all labels, at the depth of a child of the innermost open node. -/
theorem labels_attach (state : State) (forest : Forest Node) :
    (state.attach forest).labels = state.labels ++ forest.levels state.stack.length := by
  obtain ⟨stack, roots, pending⟩ := state
  cases stack with
  | nil => simp [attach, labels, stackLabels]
  | cons innermost outer => simp [attach, labels, stackLabels]

/-- Closing a node leaves every label where it is. -/
theorem labels_close (state : State) : state.close.labels = state.labels := by
  obtain ⟨stack, roots, pending⟩ := state
  cases stack with
  | nil => rfl
  | cons innermost outer =>
    rw [close, labels_attach]
    simp [labels, stackLabels, Forest.levels]

/-- Closing nodes moves no node that has its place. -/
theorem labels_closeTo (depth : Nat) (state : State) :
    (state.closeTo depth).labels = state.labels := by
  fun_induction closeTo depth state with
  | case1 state deeper ih => rw [ih, labels_close]
  | case2 => rfl

@[simp]
theorem pending_attach (state : State) (forest : Forest Node) :
    (state.attach forest).pending = state.pending := by
  unfold attach
  split <;> rfl

theorem pending_closeTo (depth : Nat) (state : State) :
    (state.closeTo depth).pending = state.pending := by
  fun_induction closeTo depth state with
  | case1 state deeper ih =>
    rw [ih]
    unfold close
    split
    · rfl
    · exact pending_attach _ _
  | case2 => rfl

/-- Closing nodes down to a level leaves as many open as that level allows. -/
theorem length_stack_closeTo (depth : Nat) (state : State) :
    (state.closeTo depth).stack.length = min depth state.stack.length := by
  fun_induction closeTo depth state with
  | case1 state deeper ih =>
    rw [ih, length_stack_close]
    omega
  | case2 state shallow => omega

/-- Nothing is closed if the level is not passed. -/
theorem closeTo_of_le {depth : Nat} {state : State} (le : state.stack.length ≤ depth) :
    state.closeTo depth = state := by
  rw [closeTo, if_neg (Nat.not_lt.mpr le)]

/-- A node of code takes its place after the comments that wait for it, all at the level of the
chain of open nodes. -/
theorem labels_enter (state : State) (node : Node) :
    (state.enter node).labels =
      state.labels ++ state.pending.map (fun comment => (state.stack.length, comment)) ++
        [(state.stack.length, node)] := by
  have attached := labels_attach state (.flat state.pending)
  rw [Forest.levels_flat] at attached
  rw [← attached, labels, labels, enter, stackLabels, length_stack_attach, Forest.levels,
    List.append_assoc]

/-- The chain of open nodes after a line of code: the node of that line, and one more for each level
above it. -/
def After : Option Line → State → Prop
  | none, state => state.stack = []
  | some above, state =>
    ∃ children outer, state.stack = (.ofLine above, children) :: outer ∧ outer.length = above.depth

/-- The node of a line of code ends the chain of open nodes. -/
theorem After.enter {line : Line} {state : State} (level : state.stack.length = line.depth) :
    After (some line) (state.enter (.ofLine line)) :=
  ⟨.nil, (state.attach (.flat state.pending)).stack, rfl, by rw [length_stack_attach, level]⟩

theorem line_ofLine (line : Line) : (Node.ofLine line).line = line.number := by
  unfold Node.ofLine
  split <;> rfl

/-- What the pass does with a line of code: it puts the comments that wait and then the line behind
all labels, at the depth of the line, if that depth is allowed, and refuses the line if not. -/
theorem step_code {previous : Option Line} {state : State} {line : Line}
    (code : line.isComment = false) (after : After previous state) :
    (Follows previous line ∧ ∃ next, state.step line = .ok next ∧ After (some line) next ∧
        next.pending = [] ∧
        next.labels = state.labels ++ state.pending.map (fun comment => (line.depth, comment)) ++
          [(line.depth, .ofLine line)]) ∨
      (¬ Follows previous line ∧
        state.step line = .error ((faultAfter previous line).error line.number)) := by
  have size := length_stack_closeTo line.depth state
  have isCode : ¬ line.isComment = true := by
    rw [code]
    decide
  -- There is one open node for each level, so a line that is allowed leaves as many as it is deep,
  -- and one that is not allowed closes none.
  by_cases fits : (state.closeTo line.depth).stack.length < line.depth
  · right
    have kept : state.closeTo line.depth = state := closeTo_of_le (by omega)
    have stepped : state.step line = .error ((state.fault line).error line.number) := by
      rw [step, if_neg isCode]
      dsimp only
      rw [if_pos fits, kept]
    rw [kept] at fits
    cases previous with
    | none =>
      have empty : state.stack = [] := after
      rw [empty, List.length_nil] at fits
      refine ⟨Nat.ne_of_gt fits, ?_⟩
      rw [stepped, fault, empty]
      rfl
    | some above =>
      obtain ⟨children, outer, stack, level⟩ := after
      rw [stack, List.length_cons, level] at fits
      refine ⟨Nat.not_le.mpr fits, ?_⟩
      rw [stepped, fault, stack]
      dsimp only
      rw [List.length_cons, level, Nat.add_sub_add_right, line_ofLine]
      rfl
  · left
    have level : (state.closeTo line.depth).stack.length = line.depth := by omega
    refine ⟨?_, (state.closeTo line.depth).enter (.ofLine line), ?_, .enter level, rfl, ?_⟩
    · cases previous with
      | none =>
        have empty : state.stack = [] := after
        rw [empty, List.length_nil] at size
        show line.depth = 0
        omega
      | some above =>
        obtain ⟨children, outer, stack, depth⟩ := after
        rw [stack, List.length_cons, depth] at size
        show line.depth ≤ above.depth + 1
        omega
    · rw [step, if_neg isCode]
      exact if_neg fits
    · rw [labels_enter, labels_closeTo, pending_closeTo, level]

/-- The forest of a state has its labels, and then the comments that still wait. -/
theorem finish_eq (state : State) :
    state.finish =
      .ofLevels (state.labels ++ state.pending.map fun comment => (0, comment)) := by
  have closed : (state.closeTo 0).stack = [] := by
    rw [← List.length_eq_zero_iff, length_stack_closeTo, Nat.zero_min]
  have levels : (state.closeTo 0).roots.levels 0 = state.labels := by
    rw [← labels_closeTo 0, labels, closed, stackLabels, List.append_nil]
  rw [finish, ← levels, ← Forest.levels_flat, ← Forest.levels_append, Forest.ofLevels_levels]

/-- The pass from any state on: it refuses the lines that the check refuses, and else makes the
forest of the labels it has, of the comments that wait, which nest like the next line of code, and
of the lines. -/
theorem run_eq {previous : Option Line} {state : State} (after : After previous state)
    (lines : List Line) :
    (do let last ← lines.foldlM step state; return last.finish) = (do
      check previous lines
      return Forest.ofLevels (state.labels ++
        state.pending.map (fun comment => (nextDepth lines, comment)) ++ placed lines)) := by
  induction lines generalizing previous state with
  | nil =>
    rw [placed, List.append_nil]
    exact congrArg Except.ok state.finish_eq
  | cons line lines ih =>
    rw [List.foldlM_cons]
    cases kind : line.isComment with
    | true =>
      have stepped : state.step line =
          .ok { state with pending := state.pending ++ [.ofLine line] } := if_pos kind
      have waits : After previous { state with pending := state.pending ++ [.ofLine line] } := by
        cases previous <;> exact after
      rw [stepped, check_cons_comment kind, placed, nextDepth, if_pos kind]
      refine (ih waits).trans ?_
      rw [List.map_append, List.append_assoc, List.append_assoc, List.append_assoc]
      rfl
    | false =>
      have depth : nextDepth (line :: lines) = line.depth := by
        rw [nextDepth, if_neg (by rw [kind]; decide)]
      rcases check_cons_code kind previous lines with ⟨follows, goesOn⟩ | ⟨breaks, refused⟩ <;>
        rcases step_code kind after with ⟨allowed, next, stepped, opened, none, grown⟩ |
          ⟨forbidden, stopped⟩
      · rw [stepped, goesOn, placed, depth]
        refine (ih opened).trans ?_
        rw [none, grown, List.map_nil, List.append_nil, List.append_assoc]
        rfl
      · exact absurd follows forbidden
      · exact absurd allowed breaks
      · rw [stopped, refused]
        rfl

end State

/-! ## Forests of lines -/

/-- The pass refuses the lines that the check refuses, with the same error, and nests all others at
the depths at which they are placed. -/
theorem ofLines_eq (lines : List Line) :
    Forest.ofLines lines = (do check none lines; return .ofLevels (placed lines)) :=
  @State.run_eq none {} rfl lines

/-- A forest is made exactly of lines of code that keep the rule of depths, and every node is where
its line places it. -/
theorem ofLines_eq_ok_iff {lines : List Line} {forest : Forest Node} :
    Forest.ofLines lines = .ok forest ↔
      DepthRule (codeLines lines) ∧ forest = .ofLevels (placed lines) := by
  rw [ofLines_eq, bind_eq_ok]
  constructor
  · rintro ⟨⟨⟩, checked, made⟩
    exact ⟨check_eq_ok_iff.mp checked, (Except.ok.inj made).symm⟩
  · rintro ⟨rule, rfl⟩
    have kept : RuleAfter none (codeLines lines) := rule
    exact ⟨(), check_eq_ok_iff.mpr kept, rfl⟩

/-- The error is that of the first line of code that breaks the rule of depths. -/
theorem check_of_ofLines_eq_error {lines : List Line} {error : Error}
    (failed : Forest.ofLines lines = .error error) : check none lines = .error error := by
  rw [ofLines_eq] at failed
  cases checked : check none lines with
  | error other =>
    rw [checked] at failed
    obtain rfl := Except.error.inj failed
    rfl
  | ok =>
    rw [checked] at failed
    cases failed

/-- The forest gives back the nodes of the lines, each with its depth. -/
theorem levels_of_ofLines {lines : List Line} {forest : Forest Node}
    (made : Forest.ofLines lines = .ok forest) : forest.levels 0 = placed lines := by
  obtain ⟨rule, rfl⟩ := ofLines_eq_ok_iff.mp made
  exact Forest.levels_ofLevels (stepped_placed rule)

/-- The forest has the nodes of the lines, in document order. -/
theorem preorder_of_ofLines {lines : List Line} {forest : Forest Node}
    (made : Forest.ofLines lines = .ok forest) : forest.preorder = lines.map Node.ofLine := by
  rw [← Forest.map_snd_levels 0, levels_of_ofLines made, map_snd_placed]

/-- Lines make a forest exactly when they keep the depth rule. The forest then lists them in order,
a line of code with as many ancestors as its depth says and a comment with as many as the next line
of code has. A refusal is structural and names the first line of code that breaks the rule. -/
theorem ofLines_outcome (lines : List Line) :
    ((∃ forest, Forest.ofLines lines = .ok forest) ↔ DepthRule (codeLines lines)) ∧
    (∀ forest, Forest.ofLines lines = .ok forest →
      forest.preorder = lines.map Node.ofLine ∧
      ∀ before line after, lines = before ++ line :: after →
        (forest.levels 0)[before.length]? =
          some (if line.isComment then ((codeLines after).head?.map Line.depth).getD 0
            else line.depth, Node.ofLine line)) ∧
    ∀ error, Forest.ofLines lines = .error error →
      ∃ before line after message, codeLines lines = before ++ line :: after ∧
        DepthRule before ∧ ¬ DepthRule (before ++ [line]) ∧
        error = .structural line.number message := by
  refine ⟨⟨?_, ?_⟩, ?_, ?_⟩
  · rintro ⟨forest, made⟩
    exact (ofLines_eq_ok_iff.mp made).1
  · intro rule
    exact ⟨_, ofLines_eq_ok_iff.mpr ⟨rule, rfl⟩⟩
  · intro forest made
    refine ⟨preorder_of_ofLines made, ?_⟩
    rintro before line after rfl
    rw [levels_of_ofLines made, getElem?_placed, nextDepth, nextDepth_eq]
  · intro error failed
    exact exists_first_of_check_eq_error (check_of_ofLines_eq_error failed)

end Nest
end Outline
