/-!
# Ordered forests

A forest is empty, or a first tree, given by its label and the forest of its children, and the
forest of the trees after it. Trees are not a type of their own, so a definition or a proof about
forests is one recursion.
-/

set_option autoImplicit false

namespace Outline

/-- An ordered forest with labelled nodes. -/
inductive Forest (α : Type) where
  /-- The forest without trees. -/
  | nil
  /-- A first tree, and the trees after it. -/
  | cons (label : α) (children rest : Forest α)
  deriving DecidableEq, Repr, Inhabited

namespace Forest

variable {α β : Type}

/-- Whether a forest has no trees. -/
def isEmpty : Forest α → Bool
  | .nil => true
  | .cons .. => false

/-- The labels of the roots, in order. -/
def roots : Forest α → List α
  | .nil => []
  | .cons label _ rest => label :: rest.roots

/-- The labels of all nodes in document order, each parent before its children. -/
def preorder : Forest α → List α
  | .nil => []
  | .cons label children rest => label :: (children.preorder ++ rest.preorder)

/-- The labels of all nodes in document order, each with the number of its ancestors, where the
roots count as having `depth` of them. -/
def levels (depth : Nat) : Forest α → List (Nat × α)
  | .nil => []
  | .cons label children rest =>
    (depth, label) :: (children.levels (depth + 1) ++ rest.levels depth)

/-- The forest of the same form with each label changed. -/
def map (f : α → β) : Forest α → Forest β
  | .nil => .nil
  | .cons label children rest => .cons (f label) (children.map f) (rest.map f)

/-- The trees of two forests, one after the other. -/
def append : Forest α → Forest α → Forest α
  | .nil, other => other
  | .cons label children rest, other => .cons label children (rest.append other)

/-- The forest of roots without children. -/
def flat : List α → Forest α
  | [] => .nil
  | label :: labels => .cons label .nil (flat labels)

/-- The labels of two forests side by side are those of the first and then those of the second. -/
@[simp]
theorem levels_append (depth : Nat) (left right : Forest α) :
    (left.append right).levels depth = left.levels depth ++ right.levels depth := by
  induction left with
  | nil => rfl
  | cons label children rest _ ih =>
    simp only [append, levels, ih, List.cons_append, List.append_assoc]

/-- Leaves are all at one depth. -/
@[simp]
theorem levels_flat (depth : Nat) (labels : List α) :
    (flat labels).levels depth = labels.map fun label => (depth, label) := by
  induction labels with
  | nil => rfl
  | cons label labels ih => simp only [flat, levels, List.nil_append, List.map_cons, ih]

/-- Without their depths, the labels are those in document order. -/
@[simp]
theorem map_snd_levels (depth : Nat) (forest : Forest α) :
    (forest.levels depth).map Prod.snd = forest.preorder := by
  induction forest generalizing depth with
  | nil => rfl
  | cons label children rest ihChildren ihRest =>
    simp only [levels, preorder, List.map_cons, List.map_append, ihChildren, ihRest]

end Forest
end Outline
