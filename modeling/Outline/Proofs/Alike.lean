import Mathlib.Data.List.Forall2
import Outline.Proofs.Nest
import Outline.Proofs.Numbering

/-!
# Lines that say the same

Two lines say the same when they are of one kind, make the same node but for its line number and, if
they are code, are at the same depth. Lines that say the same one by one nest alike: if the first
make a forest, so do the others, and the two forests differ in line numbers only
(`Forest.ofLines_of_alike`).
-/

set_option autoImplicit false

namespace Outline

namespace Line

theorem isComment_iff {line : Line} : line.isComment = true ↔ line.kind = .comment :=
  beq_iff_eq

theorem isComment_eq_false_iff {line : Line} :
    line.isComment = false ↔ line.kind = .code := by
  rw [Line.isComment]
  cases line.kind <;> decide

/-- Lines that say the same: they may differ in their numbers, in the spelling of code, and in the
depth of comments. -/
structure Alike (line other : Line) : Prop where
  kind : other.kind = line.kind
  depth : line.kind = .code → other.depth = line.depth
  node : (Node.ofLine other).unnumbered = (Node.ofLine line).unnumbered

/-- Of two lines that say the same, both or neither are comments. -/
theorem Alike.isComment {line other : Line} (alike : Alike line other) :
    other.isComment = line.isComment := by
  rw [Line.isComment, Line.isComment, alike.kind]

end Line

namespace Nest

open Line (Alike)

/-- Lines that say the same have the same depth ahead. -/
theorem nextDepth_of_alike {lines others : List Line} (alike : List.Forall₂ Alike lines others) :
    nextDepth others = nextDepth lines := by
  induction alike with
  | nil => rfl
  | @cons line other lines others here _ ih =>
    rw [nextDepth, nextDepth, here.isComment]
    split
    next => exact ih
    next code => exact here.depth (Line.isComment_eq_false_iff.mp (eq_false_of_ne_true code))

/-- Lines that say the same make the same nodes at the same depths, but for their line numbers. -/
theorem placed_of_alike {lines others : List Line} (alike : List.Forall₂ Alike lines others) :
    (placed others).map (Prod.map id Node.unnumbered) =
      (placed lines).map (Prod.map id Node.unnumbered) := by
  induction alike with
  | nil => rfl
  | cons here later ih =>
    rw [placed, placed, List.map_cons, List.map_cons, ih, nextDepth_of_alike (.cons here later)]
    exact congrArg (· :: _) (Prod.ext rfl here.node)

/-- The rule looks at the depths of code only. -/
theorem ruleAfter_of_alike {lines others : List Line} (alike : List.Forall₂ Alike lines others)
    {previous before : Option Line} (same : before.map Line.depth = previous.map Line.depth)
    (rule : RuleAfter previous (codeLines lines)) : RuleAfter before (codeLines others) := by
  induction alike generalizing previous before with
  | nil => exact ruleAfter_nil before
  | @cons line other lines others here _ ih =>
    cases kind : line.kind with
    | comment =>
      rw [codeLines_cons_comment (Line.isComment_iff.mpr kind)] at rule
      rw [codeLines_cons_comment (Line.isComment_iff.mpr (here.kind.trans kind))]
      exact ih same rule
    | code =>
      rw [codeLines_cons_code (Line.isComment_eq_false_iff.mpr kind), ruleAfter_cons] at rule
      rw [codeLines_cons_code (Line.isComment_eq_false_iff.mpr (here.kind.trans kind)),
        ruleAfter_cons]
      have depth := here.depth kind
      have sameDepth : (some other).map Line.depth = (some line).map Line.depth :=
        congrArg some depth
      refine ⟨?_, ih sameDepth rule.2⟩
      have follows := rule.1
      cases previous with
      | none =>
        obtain rfl := Option.map_eq_none_iff.mp same
        exact depth.trans follows
      | some above =>
        obtain ⟨earlier, rfl, sameAbove⟩ := Option.map_eq_some_iff.mp same
        show other.depth ≤ earlier.depth + 1
        rw [depth, sameAbove]
        exact follows

end Nest

/-- Lines that say the same as lines that nest make the same forest but for line numbers. -/
theorem Forest.ofLines_of_alike {lines others : List Line}
    (alike : List.Forall₂ Line.Alike lines others) {forest : Forest Node}
    (made : Forest.ofLines lines = .ok forest) :
    ∃ same, Forest.ofLines others = .ok same ∧
      same.map Node.unnumbered = forest.map Node.unnumbered := by
  obtain ⟨rule, rfl⟩ := Nest.ofLines_eq_ok_iff.mp made
  have ruleLines : Nest.RuleAfter none (Nest.codeLines lines) := rule
  have ruleOthers : Nest.RuleAfter none (Nest.codeLines others) :=
    Nest.ruleAfter_of_alike alike rfl ruleLines
  refine ⟨.ofLevels (Nest.placed others), Nest.ofLines_eq_ok_iff.mpr ⟨ruleOthers, rfl⟩, ?_⟩
  rw [map_ofLevels, map_ofLevels, Nest.placed_of_alike alike]

end Outline
