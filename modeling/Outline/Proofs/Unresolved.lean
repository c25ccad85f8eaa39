import Outline.Proofs.Advice
import Outline.Proofs.Checked.Document
import Outline.Proofs.Occurrence

/-!
# Which names are reported, and where

A name that nothing binds is reported once, in the order in which the names come first
(`names_unresolvedFrom`). The warning points at the line where it comes first, and in that line at
the first place where a member of the name is taken. The search for this place jumps over a name
that is the end of a longer one or a member itself; the name is an identifier, so no other place
starts within what is jumped over (`MemberRoot.apart_standsAlone`).
-/

set_option autoImplicit false

namespace Outline

/-! ## Each name once -/

/-- The names reported are those that nothing binds and that have not occurred, each once and in the
order in which they come first. -/
theorem names_unresolvedFrom (table : SymbolTable) (seen : List Text) (roots : List MemberRoot) :
    (unresolvedFrom table seen roots).map MemberRoot.name =
      ((roots.map MemberRoot.name).filter fun name =>
        !(table.isKnown name || seen.contains name)).eraseDups := by
  induction roots generalizing seen with
  | nil => rfl
  | cons root roots ih =>
    rw [unresolvedFrom, List.map_cons]
    by_cases skipped : (table.isKnown root.name || seen.contains root.name) = true
    · rw [if_pos skipped, List.filter_cons_of_neg (by simpa [imp_iff_not_or] using skipped), ih]
    · rw [if_neg skipped, List.filter_cons_of_pos (by simpa using skipped), List.map_cons,
        List.eraseDups_cons, ih, List.filter_filter]
      congr 3
      funext name
      rw [List.contains_cons]
      cases table.isKnown name <;> cases seen.contains name <;> simp

namespace MemberRoot

/-- A root of a list whose name stands in it for the first time. -/
def IsFirstIn (roots : List MemberRoot) (root : MemberRoot) : Prop :=
  ∃ earlier later, roots = earlier ++ root :: later ∧ root.name ∉ earlier.map MemberRoot.name

/-- A root that is kept has a name that was not seen before, and is the first with it. -/
theorem isFirstIn_of_unresolvedFrom {table : SymbolTable} {seen : List Text}
    {roots : List MemberRoot} {root : MemberRoot} (mem : root ∈ unresolvedFrom table seen roots) :
    root.name ∉ seen ∧ root.IsFirstIn roots := by
  have unknown := (mem_unresolvedFrom mem).2
  induction roots generalizing seen with
  | nil => cases mem
  | cons first roots ih =>
    rw [unresolvedFrom] at mem
    split at mem
    next skipped =>
      obtain ⟨fresh, earlier, later, split, unnamed⟩ := ih mem
      have differ : root.name ≠ first.name := by
        intro same
        rw [← same, unknown, Bool.false_or, List.contains_iff_mem] at skipped
        exact fresh skipped
      refine ⟨fresh, first :: earlier, later, by rw [split, List.cons_append], ?_⟩
      rw [List.map_cons, List.mem_cons, not_or]
      exact ⟨differ, unnamed⟩
    next taken =>
      rcases List.mem_cons.mp mem with rfl | after
      · refine ⟨fun inSeen => taken ?_, [], roots, rfl, List.not_mem_nil⟩
        rw [Bool.or_eq_true, List.contains_iff_mem]
        exact .inr inSeen
      · obtain ⟨fresh, earlier, later, split, unnamed⟩ := ih after
        rw [List.mem_cons, not_or] at fresh
        refine ⟨fresh.2, first :: earlier, later, by rw [split, List.cons_append], ?_⟩
        rw [List.map_cons, List.mem_cons, not_or]
        exact ⟨fresh.1, unnamed⟩

/-! ## Where a member is taken -/

/-- The byte offsets at which a line takes a member of a name that is neither the end of a longer
word nor a member itself. -/
def placesIn (name line : Text) : Set Nat :=
  {place | ∃ before after, line = before ++ (name ++ '.' :: after) ∧
    (∀ c ∈ before.getLast?, Text.isWordChar c = false ∧ c ≠ '.') ∧ Text.byteSize before = place}

/-- A name stands alone if neither a word nor a dot is right before it. -/
theorem standsAlone_iff {before after : Text} :
    Checked.standsAlone before after = true ↔
      ∀ c ∈ before.head?, Text.isWordChar c = false ∧ c ≠ '.' := by
  cases before <;> simp [Checked.standsAlone]

section

variable {name : Text} (identifier : Text.isIdentifier name = true)

include identifier

theorem apart_standsAlone : Text.Apart (name ++ ['.']) Checked.standsAlone := by
  intro c early before after
  rw [List.dropLast_concat] at early
  simp [Checked.standsAlone, Text.isWordChar_of_mem_identifier identifier c early]

/-- The column is that of the first place in the line, and one if there is none. -/
theorem exists_column (line : Text) :
    ∃ found, IsFirstPlace (placesIn name line) found ∧ column name line = 1 + found.getD 0 := by
  have same :
      Text.approvedPlaces (name ++ ['.']) Checked.standsAlone line = placesIn name line := by
    ext place
    simp only [Text.approvedPlaces, placesIn, standsAlone_iff, Set.mem_ofPred_eq,
      List.head?_reverse, List.append_assoc, List.singleton_append]
  have unfolded : column name line = 1 +
      ((Text.cutAtOccurrence? (name ++ ['.']) Checked.standsAlone line).map
        fun cut => Text.byteSize cut.1).getD 0 := by
    unfold column
    dsimp only
    split
    next before after found =>
      rw [show Text.cutAtOccurrence? _ Checked.standsAlone line = some (before, after) from found]
      exact Nat.add_comm _ _
    next missing =>
      rw [show Text.cutAtOccurrence? _ Checked.standsAlone line = none from missing]
      rfl
  have first := Text.isFirstPlace_cutAtOccurrence? (Checked.append_dot_ne_nil name)
    (apart_standsAlone identifier) line
  exact ⟨_, same ▸ first, unfolded⟩

end

/-- The byte offsets, in the line of the source that a root is on, at which a member of its name is
taken. Lines are numbered from one; there may be no such line. -/
def places (source : Text) (root : MemberRoot) : Set Nat :=
  {place | ∃ number line, root.line = number + 1 ∧ (Text.lines source)[number]? = some line ∧
    place ∈ placesIn root.name line}

/-- A warning about the name of a root that points at it. -/
structure Warns (file : Option String) (source : Text) (root : MemberRoot) (d : Diagnostic) :
    Prop where
  severity : d.severity = .warning
  code : d.code = "PYML-UNRESOLVED-MODULE"
  subject : d.subject = some root.name
  file : d.span.file = file
  line : d.span.line = root.line
  endLine : d.span.endLine = root.line
  /-- The column, from one, of the first place in the line; one if there is none. -/
  column : ∃ found, IsFirstPlace (root.places source) found ∧ d.span.column = 1 + found.getD 0
  /-- The column of the last byte of the name. -/
  endColumn : d.span.endColumn = d.span.column + Text.byteSize root.name - 1

/-- The warning for a root says where the name stands, and names it. -/
theorem warns_warning {root : MemberRoot} (numbered : 1 ≤ root.line)
    (identifier : Text.isIdentifier root.name = true) (file : Option String) (source : Text) :
    root.Warns file source (root.warning file (Text.lines source)) := by
  obtain ⟨number, isLine⟩ := Nat.exists_eq_add_of_le' numbered
  have sized := Text.byteSize_pos (Text.ne_nil_of_isIdentifier identifier)
  refine ⟨rfl, rfl, rfl, rfl, rfl, rfl, ?_, (Nat.add_sub_assoc sized _).symm⟩
  cases found : (Text.lines source)[number]? with
  | none =>
    refine ⟨none, ?_, ?_⟩
    · refine Set.eq_empty_of_forall_notMem ?_
      rintro place ⟨other, line, sameLine, present, _⟩
      obtain rfl : other = number := by omega
      cases found.symm.trans present
    · unfold warning
      rw [isLine, Nat.add_sub_cancel, found]
      rfl
  | some line =>
    have same : root.places source = placesIn root.name line := by
      ext place
      constructor
      · rintro ⟨other, own, sameLine, present, inLine⟩
        obtain rfl : other = number := by omega
        obtain rfl := Option.some.inj (found.symm.trans present)
        exact inLine
      · intro inLine
        exact ⟨number, line, isLine, found, inLine⟩
    rw [same]
    have column : (root.warning file (Text.lines source)).span.column =
        MemberRoot.column root.name line := by
      unfold warning
      rw [isLine, Nat.add_sub_cancel, found]
      rfl
    rw [column]
    exact exists_column identifier line

end MemberRoot

/-- The warnings are exact. Among roots with line numbers and identifiers for names, each name that
nothing binds is reported once, in the order in which the names come first, by a warning that points
at the root where it comes first; and nothing is reported as an error. -/
theorem unresolvedModules_exact (file : Option String) (source : Text) (table : SymbolTable)
    {roots : List MemberRoot} (numbered : ∀ root ∈ roots, 1 ≤ root.line)
    (named : ∀ root ∈ roots, Text.isIdentifier root.name = true) :
    (unresolvedModules file source roots table).hasErrors = false ∧
      ∃ firsts : List MemberRoot,
        firsts.map MemberRoot.name =
          ((roots.map MemberRoot.name).filter fun name => !table.isKnown name).eraseDups ∧
        (∀ root ∈ firsts, root.IsFirstIn roots) ∧
        List.Forall₂ (MemberRoot.Warns file source) firsts
          (unresolvedModules file source roots table) := by
  refine ⟨?_, unresolvedFrom table [] roots, ?_, ?_, ?_⟩
  · rw [Diagnostics.hasErrors, unresolvedModules, List.any_map, List.any_eq_false]
    intro root _
    exact Bool.false_ne_true
  · rw [names_unresolvedFrom]
    simp
  · intro root mem
    exact (MemberRoot.isFirstIn_of_unresolvedFrom mem).2
  · rw [unresolvedModules, List.forall₂_map_right_iff, List.forall₂_same]
    intro root mem
    obtain ⟨inRoots, _⟩ := mem_unresolvedFrom mem
    exact MemberRoot.warns_warning (numbered root inRoots) (named root inRoots) file source

/-- A name that is the end of another one and a member before it is used, one that is bound, and one
on a line that is not there. -/
theorem unresolvedModules_exact_math :
    let source := "é: mymath.pi + a.math.x + math.e\ny: os.a + math.b\n".toList
    let roots : List MemberRoot := [⟨1, "mymath".toList⟩, ⟨1, "math".toList⟩, ⟨2, "os".toList⟩,
      ⟨2, "math".toList⟩, ⟨9, "io".toList⟩]
    let table : SymbolTable := { variableNames := ["os".toList] }
    let warnings := unresolvedModules none source roots table
    (∀ root ∈ roots, 1 ≤ root.line) ∧ (∀ root ∈ roots, Text.isIdentifier root.name = true) ∧
      warnings.subjects = ["mymath".toList, "math".toList, "io".toList] ∧
      warnings.map (fun d => (d.span.line, d.span.column, d.span.endColumn)) =
        [(1, 5, 10), (1, 28, 31), (9, 1, 2)] ∧
      warnings.hasErrors = false ∧
      ∃ firsts : List MemberRoot,
        firsts.map MemberRoot.name =
          ((roots.map MemberRoot.name).filter fun name => !table.isKnown name).eraseDups ∧
        (∀ root ∈ firsts, root.IsFirstIn roots) ∧
        List.Forall₂ (MemberRoot.Warns none source) firsts warnings := by
  intro source roots table warnings
  have numbered : ∀ root ∈ roots, 1 ≤ root.line := by decide
  have named : ∀ root ∈ roots, Text.isIdentifier root.name = true := by decide
  refine ⟨numbered, named, by decide +kernel, by decide +kernel, ?_⟩
  exact unresolvedModules_exact none source table numbered named

end Outline
