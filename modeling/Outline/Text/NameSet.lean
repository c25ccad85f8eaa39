import Outline.Text.Basic

/-!
# Sets of names

The names that an expression mentions are kept as a set, in ascending order of their characters,
which is the order in which they are reported.
-/

set_option autoImplicit false

namespace Outline

/-- A name put into its place in an ascending list, once. -/
def insertName (name : Text) : List Text → List Text
  | [] => [name]
  | first :: rest =>
    if name = first then first :: rest
    else if name < first then name :: first :: rest
    else first :: insertName name rest

/-- Inserting a name adds that name and no other. -/
theorem mem_insertName {name other : Text} {names : List Text} :
    other ∈ insertName name names ↔ other = name ∨ other ∈ names := by
  induction names with
  | nil => simp [insertName]
  | cons first rest ih =>
    rw [insertName]
    split
    next same => simp [same]
    next =>
      split
      · simp
      · simp only [List.mem_cons, ih]
        exact or_left_comm

/-- Names are compared by a total order. -/
theorem Text.lt_of_ne_of_not_lt {name first : Text} (differ : ¬ name = first)
    (above : ¬ name < first) : first < name := by
  rcases List.le_iff_lt_or_eq.1 (List.not_lt.1 above) with below | same
  · exact below
  · exact absurd same.symm differ

/-- A name put into its place leaves the list ascending. -/
theorem pairwise_insertName (name : Text) {names : List Text} (ascending : names.Pairwise (· < ·)) :
    (insertName name names).Pairwise (· < ·) := by
  induction ascending with
  | nil => simp [insertName]
  | @cons first rest below ascending ih =>
    rw [insertName]
    split
    · exact .cons below ascending
    next differ =>
      split
      next less =>
        refine .cons ?_ (.cons below ascending)
        intro other mem
        rcases List.mem_cons.1 mem with same | mem
        · exact same ▸ less
        · exact List.lt_trans less (below other mem)
      next above =>
        refine .cons ?_ ih
        intro other mem
        rcases mem_insertName.1 mem with same | mem
        · exact same ▸ Text.lt_of_ne_of_not_lt differ above
        · exact below other mem

/-- A set of names. -/
structure NameSet where
  /-- The names. -/
  toList : List Text
  /-- The names are ascending, so each occurs once. -/
  ascending : toList.Pairwise (· < ·)
  deriving DecidableEq, Repr

namespace NameSet

/-- The set without names. -/
def empty : NameSet := ⟨[], .nil⟩

/-- The set with one more name. -/
def insert (name : Text) (set : NameSet) : NameSet :=
  ⟨insertName name set.toList, pairwise_insertName name set.ascending⟩

/-- The set of the names of a list. -/
def ofList (names : List Text) : NameSet := names.foldr insert empty

/-- The set of the names of either set. -/
def union (left right : NameSet) : NameSet := left.toList.foldr insert right

instance : Membership Text NameSet := ⟨fun set name => name ∈ set.toList⟩

@[simp]
theorem mem_insert {name other : Text} {set : NameSet} :
    other ∈ set.insert name ↔ other = name ∨ other ∈ set :=
  mem_insertName

@[simp]
theorem not_mem_empty (name : Text) : ¬ name ∈ empty := List.not_mem_nil

/-- Inserting names one by one adds all of them. -/
theorem mem_foldr_insert {name : Text} {names : List Text} {set : NameSet} :
    name ∈ names.foldr insert set ↔ name ∈ names ∨ name ∈ set := by
  induction names with
  | nil => simp
  | cons first rest ih => rw [List.foldr_cons, mem_insert, ih, List.mem_cons, or_assoc]

@[simp]
theorem mem_union {name : Text} {left right : NameSet} :
    name ∈ left.union right ↔ name ∈ left ∨ name ∈ right :=
  mem_foldr_insert

@[simp]
theorem mem_ofList {name : Text} {names : List Text} : name ∈ ofList names ↔ name ∈ names := by
  rw [ofList, mem_foldr_insert]
  simp

end NameSet
end Outline
