import Outline.Proofs.Pointing
import Outline.Proofs.Reindent

/-!
# Indentation is measured exactly

What the rows of a source say of their indentation is stated apart from the two passes that read
it. A row is mixed when it is not a run of the blank that the first indented row consists of
(`Row.Mixed`), and ragged when its width is no multiple of the smallest one (`Row.Ragged`). The
first pass finds the unit or the first mixed row (`Indent.unitFrom_cases`); after it the second pass
can only meet a ragged row (`Line.ofRows_cases`). `Line.scan_measured` says what a scan makes of a
source: the first row at fault, or lines whose depths give the widths back.
-/

set_option autoImplicit false

namespace Outline

/-! ## Rows and their indentation -/

namespace Row

/-- Whether a row holds code and is indented. -/
def isIndented (row : Row) : Bool := row.isCode && !row.indent.isEmpty

theorem isIndented_iff {row : Row} :
    row.isIndented = true ↔ row.isCode = true ∧ row.indent ≠ [] := by
  rw [isIndented, Bool.and_eq_true, Bool.not_eq_true', List.isEmpty_eq_false_iff]

/-- The first of some rows with a property. -/
def IsFirst (P : Row → Prop) (rows : List Row) (row : Row) : Prop :=
  ∃ before after, rows = before ++ row :: after ∧ P row ∧ ∀ other ∈ before, ¬ P other

/-- The row is indented by a run of one blank, a space or a tab, and so is the other. -/
def SharesBlank (row other : Row) : Prop :=
  ∃ c, (c = ' ' ∨ c = '\t') ∧ (∀ d ∈ row.indent, d = c) ∧ ∀ d ∈ other.indent, d = c

/-- The row holds code and is not indented by a run of the blank, a space or a tab, that the first
indented row consists of. -/
def Mixed (rows : List Row) (row : Row) : Prop :=
  row.isIndented = true ∧
    ∀ first, IsFirst (fun other => other.isIndented = true) rows first → ¬ first.SharesBlank row

/-- The smallest width of the rows of code that are indented. -/
structure IsUnitWidth (rows : List Row) (width : Nat) : Prop where
  occurs : ∃ row ∈ rows, row.isIndented = true ∧ row.indent.length = width
  least : ∀ row ∈ rows, row.isIndented = true → width ≤ row.indent.length

/-- The row holds code, and its width is no multiple of the smallest one. -/
def Ragged (rows : List Row) (row : Row) : Prop :=
  row.isCode = true ∧ ∃ width, IsUnitWidth rows width ∧ ¬ width ∣ row.indent.length

section

variable {P Q : Row → Prop} {row first : Row} {rows : List Row}

theorem IsFirst.holds (isFirst : IsFirst P rows row) : P row := by
  obtain ⟨_, _, _, own, _⟩ := isFirst
  exact own

theorem IsFirst.mem (isFirst : IsFirst P rows row) : row ∈ rows := by
  obtain ⟨_, _, rfl, _, _⟩ := isFirst
  simp

theorem isFirst_here (own : P row) (rows : List Row) : IsFirst P (row :: rows) row :=
  ⟨[], rows, rfl, own, fun _ mem => absurd mem List.not_mem_nil⟩

theorem IsFirst.cons (isFirst : IsFirst P rows row) (other : ¬ P first) :
    IsFirst P (first :: rows) row := by
  obtain ⟨before, after, rfl, own, none⟩ := isFirst
  exact ⟨first :: before, after, rfl, own, List.forall_mem_cons.mpr ⟨other, none⟩⟩

theorem IsFirst.append {before : List Row} (isFirst : IsFirst P rows row)
    (none : ∀ other ∈ before, ¬ P other) : IsFirst P (before ++ rows) row := by
  obtain ⟨skipped, after, rfl, own, others⟩ := isFirst
  exact ⟨before ++ skipped, after, (List.append_assoc ..).symm, own,
    List.forall_mem_append.mpr ⟨none, others⟩⟩

/-- If some rows have a property, one of them is the first. -/
theorem forall_or_exists_isFirst (P : Row → Prop) (rows : List Row) :
    (∀ row ∈ rows, ¬ P row) ∨ ∃ row, IsFirst P rows row := by
  induction rows with
  | nil => exact .inl fun _ mem => absurd mem List.not_mem_nil
  | cons row rows ih =>
    by_cases own : P row
    · exact .inr ⟨row, isFirst_here own rows⟩
    · rcases ih with none | ⟨found, isFirst⟩
      · exact .inl (List.forall_mem_cons.mpr ⟨own, none⟩)
      · exact .inr ⟨found, isFirst.cons own⟩

/-- Properties that agree on the rows have the same first row. -/
theorem IsFirst.congr (isFirst : IsFirst P rows row) (same : ∀ other ∈ rows, P other ↔ Q other) :
    IsFirst Q rows row := by
  obtain ⟨before, after, rfl, own, none⟩ := isFirst
  refine ⟨before, after, rfl, (same row (by simp)).mp own, fun other mem => ?_⟩
  exact mt (same other (List.mem_append_left _ mem)).mpr (none other mem)

/-- There is one first row. -/
theorem IsFirst.unique {other : Row} (isFirst : IsFirst P rows row)
    (isFirst' : IsFirst P rows other) : row = other := by
  obtain ⟨before, after, rfl, own, none⟩ := isFirst
  obtain ⟨before', after', same, own', none'⟩ := isFirst'
  rcases append_eq_append_cons same with ⟨more, rfl, _⟩ | ⟨skipped, rfl, rest⟩
  · exact absurd own' (none other (by simp))
  · cases skipped with
    | nil => exact (List.cons.inj rest).1
    | cons head skipped =>
      obtain ⟨rfl, _⟩ := List.cons.inj rest
      exact absurd own (none' row (by simp))

/-- The smallest width is one width. -/
theorem IsUnitWidth.unique {width width' : Nat} (isWidth : IsUnitWidth rows width)
    (isWidth' : IsUnitWidth rows width') : width = width' := by
  obtain ⟨row, mem, indented, rfl⟩ := isWidth.occurs
  obtain ⟨row', mem', indented', rfl⟩ := isWidth'.occurs
  exact Nat.le_antisymm (isWidth.least row' mem' indented') (isWidth'.least row mem indented)

theorem IsUnitWidth.pos {width : Nat} (isWidth : IsUnitWidth rows width) : 0 < width := by
  obtain ⟨row, _, indented, rfl⟩ := isWidth.occurs
  exact List.length_pos_iff.mpr (isIndented_iff.mp indented).2

/-- A row is ragged if the smallest width does not divide its own. -/
theorem ragged_iff {width : Nat} (isWidth : IsUnitWidth rows width) :
    Ragged rows row ↔ row.isCode = true ∧ ¬ width ∣ row.indent.length := by
  refine and_congr_right fun _ => ⟨?_, fun uneven => ⟨width, isWidth, uneven⟩⟩
  rintro ⟨width', isWidth', uneven⟩
  rwa [isWidth.unique isWidth']

/-- Beside a first row that is a run of a blank, the mixed rows are those that are no such run. -/
theorem mixed_iff {c : Char} (kind : c = ' ' ∨ c = '\t') (run : ∀ d ∈ first.indent, d = c)
    (isFirst : IsFirst (fun other => other.isIndented = true) rows first) (row : Row) :
    Mixed rows row ↔ row.isIndented = true ∧ ¬ ∀ d ∈ row.indent, d = c := by
  refine and_congr_right fun _ => ⟨fun unlike all => ?_, fun odd other isOther => ?_⟩
  · exact unlike first isFirst ⟨c, kind, run, all⟩
  · obtain rfl := isFirst.unique isOther
    rintro ⟨c', _, run', all⟩
    -- The first row is not empty, so it is a run of one blank only.
    obtain ⟨d, rest, front⟩ := List.exists_cons_of_ne_nil (isIndented_iff.mp isFirst.holds).2
    have mem : d ∈ first.indent := by
      rw [front]
      exact List.mem_cons_self
    rw [← run' d mem, run d mem] at all
    exact odd all

end
end Row

/-! ## The first pass: finding the unit -/

namespace Indent

open Row

/-- A unit is a run of spaces or a run of tabs, and is not empty. -/
theorem isIndentUnit_iff_run {indent : Text} :
    Text.isIndentUnit indent = true ↔
      indent ≠ [] ∧ ∃ c, (c = ' ' ∨ c = '\t') ∧ ∀ d ∈ indent, d = c := by
  rw [Text.isIndentUnit_iff]
  constructor
  · rintro ⟨c, width, kind, wide, rfl⟩
    refine ⟨?_, c, kind, fun d mem => List.eq_of_mem_replicate mem⟩
    exact mt (List.replicate_eq_nil_iff c).mp (Nat.ne_of_gt wide)
  · rintro ⟨filled, c, kind, run⟩
    exact ⟨c, indent.length, kind, List.length_pos_iff.mpr filled,
      List.eq_replicate_iff.mpr ⟨rfl, run⟩⟩

/-- Beside a unit, an indentation has to be a run of the blank of that unit. -/
theorem agrees_replicate_iff {c : Char} (kind : c = ' ' ∨ c = '\t') {width : Nat} (wide : 0 < width)
    {indent : Text} (filled : indent ≠ []) :
    agrees (some (List.replicate width c)) indent = true ↔ ∀ d ∈ indent, d = c := by
  have first : (List.replicate width c).head? = some c := by
    rw [List.head?_replicate, if_neg (Nat.ne_of_gt wide)]
  obtain ⟨head, rest, rfl⟩ := List.exists_cons_of_ne_nil filled
  show (Text.isIndentUnit (head :: rest) &&
    (some head == (List.replicate width c).head?)) = true ↔ _
  rw [first, Bool.and_eq_true, isIndentUnit_iff_run, beq_iff_eq]
  constructor
  · rintro ⟨⟨_, c', _, run⟩, same⟩
    obtain rfl := Option.some.inj same
    rwa [← run head List.mem_cons_self] at run
  · intro run
    exact ⟨⟨filled, c, kind, run⟩, congrArg some (run head List.mem_cons_self)⟩

/-- The first row whose indentation does not agree is reported. -/
theorem unitFrom_cons_refused {row : Row} (indented : row.isIndented = true) {found : Option Text}
    (refused : agrees found row.indent = false) (rows : List Row) :
    unitFrom found (row :: rows) = .error (Fault.mixed.error row.number) := by
  obtain ⟨code, filled⟩ := isIndented_iff.mp indented
  rw [unitFrom, if_neg (by simp [code, filled]), if_neg (by simp [refused])]

/-- A row whose indentation agrees makes the unit shorter, or leaves it. -/
theorem unitFrom_cons_taken {row : Row} (indented : row.isIndented = true) {found : Option Text}
    (agree : agrees found row.indent = true) (rows : List Row) :
    unitFrom found (row :: rows) = unitFrom (some (shorter found row.indent)) rows := by
  obtain ⟨code, filled⟩ := isIndented_iff.mp indented
  exact unitFrom_cons_code code (List.isEmpty_eq_false_iff.mpr filled) agree rows

theorem unitFrom_cons_passed {row : Row} (flush : row.isIndented = false) (found : Option Text)
    (rows : List Row) : unitFrom found (row :: rows) = unitFrom found rows := by
  refine unitFrom_cons_skip ?_ found rows
  rw [isIndented, Bool.and_eq_false_iff, Bool.not_eq_false', List.isEmpty_iff] at flush
  exact flush

/-- The shorter of two runs is as wide as the narrower of them. -/
theorem shorter_replicate {c : Char} {width : Nat} {indent : Text} (run : ∀ d ∈ indent, d = c) :
    ∃ least, shorter (some (List.replicate width c)) indent = List.replicate least c ∧
      least ≤ width ∧ least ≤ indent.length ∧ (least = width ∨ least = indent.length) := by
  have same : indent = List.replicate indent.length c := List.eq_replicate_iff.mpr ⟨rfl, run⟩
  rw [shorter, List.length_replicate]
  split
  next less => exact ⟨indent.length, same, Nat.le_of_lt less, Nat.le_refl _, .inr rfl⟩
  next more => exact ⟨width, rfl, Nat.le_refl _, Nat.le_of_not_lt more, .inl rfl⟩

/-- After a unit, the pass stops at the first row that is no run of its blank, or takes the smallest
width. -/
theorem unitFrom_some_cases {c : Char} (kind : c = ' ' ∨ c = '\t') {width : Nat} (wide : 0 < width)
    (rows : List Row) :
    (∃ row, IsFirst (fun row => row.isIndented = true ∧ ¬ ∀ d ∈ row.indent, d = c) rows row ∧
        unitFrom (some (List.replicate width c)) rows = .error (Fault.mixed.error row.number)) ∨
      (∀ row ∈ rows, row.isIndented = true → ∀ d ∈ row.indent, d = c) ∧
        ∃ least, unitFrom (some (List.replicate width c)) rows =
            .ok (some (List.replicate least c)) ∧
          0 < least ∧ least ≤ width ∧
          (∀ row ∈ rows, row.isIndented = true → least ≤ row.indent.length) ∧
          (least = width ∨ ∃ row ∈ rows, row.isIndented = true ∧ row.indent.length = least) := by
  induction rows generalizing width with
  | nil =>
    refine .inr ⟨fun _ mem => absurd mem List.not_mem_nil, width, rfl, wide, Nat.le_refl _, ?_,
      .inl rfl⟩
    exact fun _ mem => absurd mem List.not_mem_nil
  | cons row rows ih =>
    cases indented : row.isIndented with
    | false =>
      have flush {P : Prop} : ¬ (row.isIndented = true ∧ P) := by simp [indented]
      rw [unitFrom_cons_passed indented]
      rcases ih wide with ⟨found, isFirst, failed⟩ | ⟨runs, least, ok, some, small, below, occurs⟩
      · exact .inl ⟨found, isFirst.cons flush, failed⟩
      · refine .inr ⟨?_, least, ok, some, small, ?_, ?_⟩
        · exact List.forall_mem_cons.mpr ⟨fun own => absurd ⟨own, trivial⟩ flush, runs⟩
        · exact List.forall_mem_cons.mpr ⟨fun own => absurd ⟨own, trivial⟩ flush, below⟩
        · rcases occurs with same | ⟨other, mem, rest⟩
          · exact .inl same
          · exact .inr ⟨other, List.mem_cons_of_mem _ mem, rest⟩
    | true =>
      have filled := (isIndented_iff.mp indented).2
      by_cases run : ∀ d ∈ row.indent, d = c
      · have agree := (agrees_replicate_iff kind wide filled).mpr run
        obtain ⟨next, isNext, le, leOwn, which⟩ := @shorter_replicate c width row.indent run
        have long := List.length_pos_iff.mpr filled
        have some : 0 < next := by omega
        rw [unitFrom_cons_taken indented agree, isNext]
        rcases ih some with ⟨found, isFirst, failed⟩ | ⟨runs, least, ok, some, small, below, occurs⟩
        · exact .inl ⟨found, isFirst.cons (fun own => own.2 run), failed⟩
        · refine .inr ⟨List.forall_mem_cons.mpr ⟨fun _ => run, runs⟩, least, ok, some,
            Nat.le_trans small le, List.forall_mem_cons.mpr ⟨fun _ => by omega, below⟩, ?_⟩
          rcases occurs with rfl | ⟨other, mem, rest⟩
          · exact which.imp_right fun own => ⟨row, List.mem_cons_self, indented, own.symm⟩
          · exact .inr ⟨other, List.mem_cons_of_mem _ mem, rest⟩
      · have refused : agrees (some (List.replicate width c)) row.indent = false :=
          Bool.eq_false_iff.mpr (mt (agrees_replicate_iff kind wide filled).mp run)
        exact .inl ⟨row, isFirst_here ⟨indented, run⟩ rows,
          unitFrom_cons_refused indented refused rows⟩

theorem unitFrom_append_passed {before : List Row} (flush : ∀ row ∈ before, row.isIndented = false)
    (found : Option Text) (rows : List Row) :
    unitFrom found (before ++ rows) = unitFrom found rows := by
  induction before with
  | nil => rfl
  | cons row before ih =>
    obtain ⟨own, later⟩ := List.forall_mem_cons.mp flush
    rw [List.cons_append, unitFrom_cons_passed own, ih later]

/-- Where the first indented row is a run of a blank, the rows behind it have to repeat that
blank. -/
theorem unitFrom_of_run {c : Char} (kind : c = ' ' ∨ c = '\t') {rows before after : List Row}
    {first : Row} (split : rows = before ++ first :: after) (indented : first.isIndented = true)
    (unindented : ∀ row ∈ before, ¬ row.isIndented = true) (run : ∀ d ∈ first.indent, d = c) :
    (∃ row, IsFirst (Mixed rows) rows row ∧
        unitFrom none (first :: after) = .error (Fault.mixed.error row.number)) ∨
      (∀ row ∈ rows, ¬ Mixed rows row) ∧
        ∃ width, unitFrom none (first :: after) = .ok (some (List.replicate width c)) ∧
          IsUnitWidth rows width ∧
          ∀ row ∈ rows, row.isIndented = true → ∀ d ∈ row.indent, d = c := by
  have filled := (isIndented_iff.mp indented).2
  have same : first.indent = List.replicate first.indent.length c :=
    List.eq_replicate_iff.mpr ⟨rfl, run⟩
  have mixed := mixed_iff kind run ⟨before, after, split, indented, unindented⟩
  have agree : agrees none first.indent = true := by
    rw [agrees, isIndentUnit_iff_run.mpr ⟨filled, c, kind, run⟩, Bool.true_and]
  rw [unitFrom_cons_taken indented agree, shorter, same]
  rcases unitFrom_some_cases kind (List.length_pos_iff.mpr filled) after with
    ⟨row, isFirstOdd, failed⟩ | ⟨runs, least, ok, _, small, below, occurs⟩
  · refine .inl ⟨row, ?_, failed⟩
    have whole := (isFirstOdd.cons fun odd => odd.2 run).append fun other mem odd =>
      unindented other mem odd.1
    rw [← split] at whole
    exact whole.congr fun other _ => (mixed other).symm
  have every {P : Row → Prop} (own : P first)
      (others : ∀ row ∈ after, row.isIndented = true → P row) :
      ∀ row ∈ rows, row.isIndented = true → P row := by
    intro row mem isRow
    rw [split] at mem
    rcases List.mem_append.mp mem with inBefore | inRest
    · exact absurd isRow (unindented row inBefore)
    · rcases List.mem_cons.mp inRest with rfl | inAfter
      · exact own
      · exact others row inAfter isRow
  have allRun := every (P := fun row => ∀ d ∈ row.indent, d = c) run runs
  refine .inr ⟨fun row mem isMixed => ?_, least, ok, ⟨?_, ?_⟩, allRun⟩
  · obtain ⟨isRow, odd⟩ := (mixed row).mp isMixed
    exact odd (allRun row mem isRow)
  · rcases occurs with rfl | ⟨row, mem, rest⟩
    · exact ⟨first, by simp [split], indented, rfl⟩
    · exact ⟨row, by simp [split, mem], rest⟩
  · exact every (P := fun row => least ≤ row.indent.length) small below

/-- The first pass stops at the first mixed row. If there is none, it finds that no row is indented,
or the smallest width of runs of one blank. -/
theorem unitFrom_cases (rows : List Row) :
    (∃ row, IsFirst (Mixed rows) rows row ∧
        unitFrom none rows = .error (Fault.mixed.error row.number)) ∨
      (∀ row ∈ rows, ¬ Mixed rows row) ∧
        ((∀ row ∈ rows, row.isIndented = false) ∧ unitFrom none rows = .ok none ∨
          ∃ c width, unitFrom none rows = .ok (some (List.replicate width c)) ∧
            IsUnitWidth rows width ∧
            ∀ row ∈ rows, row.isIndented = true → ∀ d ∈ row.indent, d = c) := by
  rcases forall_or_exists_isFirst (fun row => row.isIndented = true) rows with
    unindented | ⟨first, before, after, split, indented, unindented⟩
  · have flush : ∀ row ∈ rows, row.isIndented = false := fun row mem => by
      simpa using unindented row mem
    have found := unitFrom_append_passed flush none []
    rw [List.append_nil] at found
    exact .inr ⟨fun row mem mixed => unindented row mem mixed.1, .inl ⟨flush, found⟩⟩
  have flush : ∀ row ∈ before, row.isIndented = false := fun row mem => by
    simpa using unindented row mem
  have reaches := unitFrom_append_passed flush none (first :: after)
  rw [← split] at reaches
  rw [reaches]
  by_cases unit : Text.isIndentUnit first.indent = true
  · obtain ⟨_, c, kind, run⟩ := isIndentUnit_iff_run.mp unit
    refine (unitFrom_of_run kind split indented unindented run).imp_right ?_
    rintro ⟨pure, found⟩
    exact ⟨pure, .inr ⟨c, found⟩⟩
  · have refused : agrees none first.indent = false := by
      rw [agrees, Bool.eq_false_iff.mpr unit, Bool.false_and]
    refine .inl ⟨first, ?_, unitFrom_cons_refused indented refused after⟩
    refine ⟨before, after, split, ⟨indented, ?_⟩, ?_⟩
    · rintro other _ ⟨c, kind, _, run⟩
      exact unit (isIndentUnit_iff_run.mpr ⟨(isIndented_iff.mp indented).2, c, kind, run⟩)
    · exact fun other mem isMixed => unindented other mem isMixed.1

/-! ## The second pass: counting units -/

/-- The unit counts the steps of a width in an indentation, and refuses a rest. -/
def Measures (unit : Option Text) (width : Nat) (indent : Text) : Prop :=
  depth unit indent =
    if width ∣ indent.length then .ok (indent.length / width)
    else .error (.ragged indent.length width)

theorem measures_nil (unit : Option Text) (width : Nat) : Measures unit width [] := by
  rw [Measures, List.length_nil, if_pos (Nat.dvd_zero width), Nat.zero_div]
  rfl

/-- A run is measured by a unit of the same blank. -/
theorem measures_run {c : Char} {width : Nat} (wide : 0 < width) {indent : Text}
    (run : ∀ d ∈ indent, d = c) : Measures (some (List.replicate width c)) width indent := by
  obtain ⟨more, rfl⟩ := Nat.exists_eq_succ_of_ne_zero (Nat.ne_of_gt wide)
  cases indent with
  | nil => exact measures_nil _ _
  | cons head rest =>
    have even : ((head :: rest).any (· != (List.replicate (more + 1) c).headD ' ')) = false := by
      rw [List.any_eq_false]
      intro d mem
      rw [run d mem]
      simp [List.replicate_succ]
    rw [Measures, depth, if_neg (by simp)]
    simp only [even, Bool.false_eq_true, if_false, List.length_replicate, Nat.dvd_iff_mod_eq_zero,
      ite_not]

end Indent

namespace Line

open Row

/-- A row that holds no code makes at most a comment on its own line. -/
theorem ofRow_of_not_isCode {row : Row} (plain : row.isCode = false) (keep : Bool)
    (unit : Option Text) :
    ∃ made, ofRow keep unit row = .ok made ∧ Nest.codeLines made = [] ∧
      (made.map number).Sublist [row.number] := by
  rw [ofRow]
  split
  next => exact ⟨[], rfl, rfl, List.nil_sublist _⟩
  next filled =>
    cases comment : row.comment? with
    | none => simp [isCode, filled, comment] at plain
    | some text =>
      cases keep with
      | false => exact ⟨[], rfl, rfl, List.nil_sublist _⟩
      | true => exact ⟨_, rfl, rfl, List.Sublist.refl _⟩

/-- A row of code that the unit measures makes one line, or its width is no multiple. -/
theorem ofRow_of_measures {row : Row} {unit : Option Text} {width : Nat}
    (code : row.isCode = true) (measures : Indent.Measures unit width row.indent) (keep : Bool) :
    (¬ width ∣ row.indent.length ∧ ofRow keep unit row =
        .error ((Indent.Fault.ragged row.indent.length width).error row.number)) ∨
      width ∣ row.indent.length ∧ ∃ content,
        ofRow keep unit row = .ok [.code (row.indent.length / width) content row.number] := by
  obtain ⟨filled, comment⟩ : row.body.isEmpty = false ∧ row.comment? = none := by
    simpa [isCode] using code
  rw [Indent.Measures] at measures
  split at measures
  next even => exact .inr ⟨even, _, by simp only [ofRow, filled, comment, measures]; rfl⟩
  next uneven => exact .inl ⟨uneven, by simp only [ofRow, filled, comment, measures]; rfl⟩

/-- Where the unit measures every row of code, the second pass stops at the first row whose width is
no multiple, or every row of code becomes one line. -/
theorem ofRows_cases {unit : Option Text} {width : Nat} {rows : List Row}
    (measures : ∀ row ∈ rows, row.isCode = true → Indent.Measures unit width row.indent)
    (keep : Bool) :
    (∃ row, IsFirst (fun row => row.isCode = true ∧ ¬ width ∣ row.indent.length) rows row ∧
        ofRows keep unit rows =
          .error ((Indent.Fault.ragged row.indent.length width).error row.number)) ∨
      (∀ row ∈ rows, row.isCode = true → width ∣ row.indent.length) ∧
        ∃ lines, ofRows keep unit rows = .ok lines ∧
          List.Forall₂ (fun row line => line.number = row.number ∧
            line.depth * width = row.indent.length) (rows.filter isCode) (Nest.codeLines lines) ∧
          (lines.map number).Sublist (rows.map Row.number) := by
  induction rows with
  | nil =>
    exact .inr ⟨fun _ mem => absurd mem List.not_mem_nil, [], rfl, .nil, List.Sublist.refl _⟩
  | cons row rows ih =>
    obtain ⟨own, others⟩ := List.forall_mem_cons.mp measures
    cases code : row.isCode with
    | false =>
      obtain ⟨made, ok, noCode, place⟩ := ofRow_of_not_isCode code keep unit
      rw [ofRows, ok]
      have plain {P : Prop} : ¬ (row.isCode = true ∧ P) := by simp [code]
      rcases ih others with ⟨bad, isFirst, failed⟩ | ⟨even, lines, done, fits, places⟩
      · refine .inl ⟨bad, isFirst.cons plain, ?_⟩
        rw [failed]
        rfl
      · refine .inr ⟨?_, made ++ lines, by rw [done]; rfl, ?_, ?_⟩
        · exact List.forall_mem_cons.mpr ⟨fun isRow => absurd ⟨isRow, trivial⟩ plain, even⟩
        · rw [List.filter_cons_of_neg (by simp [code]), Nest.codeLines, List.filter_append,
            ← Nest.codeLines, noCode]
          exact fits
        · rw [List.map_append]
          exact place.append places
    | true =>
      rw [ofRows]
      rcases ofRow_of_measures code (own code) keep with ⟨uneven, failed⟩ | ⟨isEven, content, ok⟩
      · refine .inl ⟨row, isFirst_here ⟨code, uneven⟩ rows, ?_⟩
        rw [failed]
        rfl
      · rw [ok]
        rcases ih others with ⟨bad, isFirst, failed⟩ | ⟨even, lines, done, fits, places⟩
        · refine .inl ⟨bad, isFirst.cons fun uneven => uneven.2 isEven, ?_⟩
          rw [failed]
          rfl
        · refine .inr ⟨List.forall_mem_cons.mpr ⟨fun _ => isEven, even⟩,
            .code (row.indent.length / width) content row.number :: lines, by rw [done]; rfl, ?_,
            places.cons_cons row.number⟩
          rw [List.filter_cons_of_pos code, Nest.codeLines_cons_code rfl]
          exact .cons ⟨rfl, Nat.div_mul_cancel isEven⟩ fits

end Line

/-! ## Scanning -/

/-- The rows of a source are numbered in order. -/
theorem Row.pairwise_number_ofSource (source : Text) :
    ((ofSource source).map Row.number).Pairwise (· < ·) := by
  have inOrder (texts : List Text) (start : Nat) :
      ((texts.zipIdx start).map fun place => Row.ofText (place.2 + 1) place.1).map Row.number =
        List.range' (start + 1) texts.length := by
    induction texts generalizing start with
    | nil => rfl
    | cons text texts ih =>
      rw [List.zipIdx_cons, List.map_cons, List.map_cons, ih, List.length_cons, List.range'_succ]
      rfl
  have numbers : (ofSource source).map Row.number = List.range' 1 _ := inOrder _ 0
  rw [numbers]
  exact List.pairwise_lt_range'

namespace Line

open Row

/-- The line has the number of the row, and its depth counts the smallest width in that of the
row. -/
structure MeasuredBy (rows : List Row) (row : Row) (line : Line) : Prop where
  number : line.number = row.number
  flush : row.indent = [] → line.depth = 0
  depth : ∀ width, IsUnitWidth rows width → line.depth * width = row.indent.length

/-- Lines that give the indentation of the rows of a source exactly. -/
structure Measured (rows : List Row) (lines : List Line) : Prop where
  /-- Each row of code is one line of code, in order. -/
  depths : List.Forall₂ (MeasuredBy rows) (rows.filter isCode) (Nest.codeLines lines)
  /-- The smallest width is the width of a line. -/
  unit : (∃ row ∈ rows, row.isIndented = true) → ∃ line ∈ Nest.codeLines lines, line.depth = 1
  /-- Each line is on a row of the source. -/
  placed : ∀ line ∈ lines, ∃ row ∈ rows, row.number = line.number
  increasing : lines.Pairwise fun line next => line.number < next.number
  trimmed : ∀ line ∈ lines, Text.Trimmed line.content
  oneRow : ∀ line ∈ lines, '\n' ∉ line.content
  filled : ∀ line ∈ lines, line.isComment = false → line.content ≠ []

/-- Each of some rows has a line that measures it, if rows and lines go together one by one. -/
theorem exists_measuredBy {rows some : List Row} {lines : List Line}
    (fits : List.Forall₂ (MeasuredBy rows) some lines) {row : Row} (mem : row ∈ some) :
    ∃ line ∈ lines, MeasuredBy rows row line := by
  induction fits with
  | nil => cases mem
  | cons fit _ ih =>
    rcases List.mem_cons.mp mem with rfl | later
    · exact ⟨_, List.mem_cons_self, fit⟩
    · obtain ⟨line, inLines, fit⟩ := ih later
      exact ⟨line, List.mem_cons_of_mem _ inLines, fit⟩

/-- A row of smallest width is at depth one. -/
theorem MeasuredBy.depth_eq_one {rows : List Row} {row : Row} {line : Line}
    (measured : MeasuredBy rows row line) (isWidth : IsUnitWidth rows row.indent.length) :
    line.depth = 1 := by
  refine Nat.eq_of_mul_eq_mul_right isWidth.pos ?_
  rw [measured.depth _ isWidth, Nat.one_mul]

/-- Lines of the second pass measure the rows of a source. -/
theorem measured_of_ofRows {config : Config} {source : Text} {width : Nat} {lines : List Line}
    (scanned : scan config source = .ok lines) (wide : 0 < width)
    (isWidth : (∃ row ∈ ofSource source, row.isIndented = true) →
      IsUnitWidth (ofSource source) width)
    (fits : List.Forall₂ (fun row line => line.number = row.number ∧
      line.depth * width = row.indent.length) ((ofSource source).filter isCode)
        (Nest.codeLines lines))
    (places : (lines.map number).Sublist ((ofSource source).map Row.number)) :
    Measured (ofSource source) lines := by
  have depths : List.Forall₂ (MeasuredBy (ofSource source)) ((ofSource source).filter isCode)
      (Nest.codeLines lines) := by
    refine fits.imp fun row line fit => ⟨fit.1, fun flush => ?_, fun other isOther => ?_⟩
    · have none := fit.2
      rw [flush, List.length_nil] at none
      exact (Nat.mul_eq_zero.mp none).resolve_right (Nat.ne_of_gt wide)
    · obtain ⟨row, mem, indented, _⟩ := isOther.occurs
      rw [isOther.unique (isWidth ⟨row, mem, indented⟩), fit.2]
  have clean {line : Line} (mem : line ∈ lines) := (clean_of_mem_scan scanned mem).1
  refine ⟨depths, fun indented => ?_, fun line mem => ?_, ?_, fun _ mem => (clean mem).trimmed,
    fun _ mem => (clean mem).oneRow, fun line mem code => (clean mem).nonempty ?_⟩
  · obtain ⟨row, mem, isRow, rfl⟩ := (isWidth indented).occurs
    obtain ⟨line, inLines, measured⟩ :=
      exists_measuredBy depths (List.mem_filter.mpr ⟨mem, (isIndented_iff.mp isRow).1⟩)
    exact ⟨line, inLines, measured.depth_eq_one (isWidth indented)⟩
  · exact List.mem_map.mp (places.subset (List.mem_map_of_mem mem))
  · exact List.pairwise_map.mp ((pairwise_number_ofSource source).sublist places)
  · cases kind : line.kind with
    | code => rfl
    | comment => simp [isComment, kind] at code

/-- The ways a scan can go: it stops at the first mixed row, or without one at the first ragged row,
or gives lines that measure the rows. -/
theorem scan_cases {config : Config} (valid : config.validate = .ok ())
    (detected : config.sourceIndentationUnit = none) (source : Text) :
    (∃ row, IsFirst (Mixed (ofSource source)) (ofSource source) row ∧
        scan config source = .error (Indent.Fault.mixed.error row.number)) ∨
      (∀ row ∈ ofSource source, ¬ Mixed (ofSource source) row) ∧
        ((∃ row width, IsFirst (Ragged (ofSource source)) (ofSource source) row ∧
            IsUnitWidth (ofSource source) width ∧ scan config source =
              .error ((Indent.Fault.ragged row.indent.length width).error row.number)) ∨
          (∀ row ∈ ofSource source, ¬ Ragged (ofSource source) row) ∧
            ∃ lines, scan config source = .ok lines ∧ Measured (ofSource source) lines) := by
  have scans : scan config source = (do
      let unit ← Indent.unitFrom none (ofSource source)
      ofRows config.keepComments unit (ofSource source)) := by
    rw [scan, valid, Indent.unitOf, detected]
    rfl
  rcases Indent.unitFrom_cases (ofSource source) with ⟨row, isFirst, failed⟩ | ⟨pure, found⟩
  · refine .inl ⟨row, isFirst, ?_⟩
    rw [scans, failed]
    rfl
  refine .inr ⟨pure, ?_⟩
  rcases found with ⟨flush, found⟩ | ⟨c, width, found, isWidth, runs⟩
  · -- No row is indented: every width measures the rows, and there is no unit.
    have unindented : ¬ ∃ row ∈ ofSource source, row.isIndented = true := by
      rintro ⟨row, mem, indented⟩
      simp [flush row mem] at indented
    have blankless : ∀ row ∈ ofSource source, row.isCode = true → row.indent = [] := by
      intro row mem code
      simpa [isIndented, code] using flush row mem
    have noUnit {width : Nat} : ¬ IsUnitWidth (ofSource source) width := by
      intro isWidth
      obtain ⟨row, mem, indented, _⟩ := isWidth.occurs
      exact unindented ⟨row, mem, indented⟩
    have measures : ∀ row ∈ ofSource source, row.isCode = true →
        Indent.Measures none 1 row.indent := by
      intro row mem code
      rw [blankless row mem code]
      exact Indent.measures_nil none 1
    rcases ofRows_cases measures config.keepComments with
      ⟨row, isFirst, _⟩ | ⟨_, lines, done, fits, places⟩
    · exact absurd (Nat.one_dvd _) isFirst.holds.2
    · have scanned : scan config source = .ok lines := by
        rw [scans, found]
        exact done
      refine .inr ⟨fun row _ ragged => ?_, lines, scanned, ?_⟩
      · obtain ⟨_, width, isWidth, _⟩ := ragged
        exact noUnit isWidth
      · exact measured_of_ofRows scanned Nat.one_pos
          (fun indented => absurd indented unindented) fits places
  · -- The unit is a run of the blank that all indented rows share, as wide as the narrowest.
    have measures : ∀ row ∈ ofSource source, row.isCode = true →
        Indent.Measures (some (List.replicate width c)) width row.indent := by
      intro row mem code
      refine Indent.measures_run isWidth.pos ?_
      by_cases indented : row.indent = []
      · simp [indented]
      · exact runs row mem (isIndented_iff.mpr ⟨code, indented⟩)
    rcases ofRows_cases measures config.keepComments with
      ⟨row, isFirst, failed⟩ | ⟨even, lines, done, fits, places⟩
    · refine .inl ⟨row, width, isFirst.congr fun _ _ => (ragged_iff isWidth).symm, isWidth, ?_⟩
      rw [scans, found]
      exact failed
    · have scanned : scan config source = .ok lines := by
        rw [scans, found]
        exact done
      refine .inr ⟨fun row mem ragged => ?_, lines, scanned, ?_⟩
      · obtain ⟨code, uneven⟩ := (ragged_iff isWidth).mp ragged
        exact uneven (even row mem code)
      · exact measured_of_ofRows scanned isWidth.pos (fun _ => isWidth) fits places

/-- A scan without a configured unit measures the indentation exactly. It fails just when some row
of code is mixed or ragged, and blames the first mixed row, or the first ragged one if no row is
mixed. Otherwise each row of code is a line whose depth times the smallest width is its own, and the
lines are numbered as the source is. -/
theorem scan_measured {config : Config} (valid : config.validate = .ok ())
    (detected : config.sourceIndentationUnit = none) (source : Text) :
    ((∃ error, scan config source = .error error) ↔
        ∃ row ∈ ofSource source, Mixed (ofSource source) row ∨ Ragged (ofSource source) row) ∧
      (∀ row, IsFirst (Mixed (ofSource source)) (ofSource source) row →
        scan config source = .error (.structural row.number Indent.Fault.mixed.message)) ∧
      ((∀ row ∈ ofSource source, ¬ Mixed (ofSource source) row) →
        ∀ row, IsFirst (Ragged (ofSource source)) (ofSource source) row →
          ∃ width, IsUnitWidth (ofSource source) width ∧ scan config source = .error
            (.structural row.number (Indent.Fault.ragged row.indent.length width).message)) ∧
      ∀ lines, scan config source = .ok lines → Measured (ofSource source) lines := by
  rcases scan_cases valid detected source with
    ⟨row, isFirst, failed⟩ |
      ⟨pure, ⟨row, width, isFirst, isWidth, failed⟩ | ⟨even, lines, done, own⟩⟩
  · refine ⟨⟨fun _ => ⟨row, isFirst.mem, .inl isFirst.holds⟩, fun _ => ⟨_, failed⟩⟩, ?_, ?_, ?_⟩
    · intro other isOther
      rw [← isFirst.unique isOther]
      exact failed
    · exact fun pure => absurd isFirst.holds (pure row isFirst.mem)
    · intro lines done
      rw [failed] at done
      cases done
  · refine ⟨⟨fun _ => ⟨row, isFirst.mem, .inr isFirst.holds⟩, fun _ => ⟨_, failed⟩⟩, ?_, ?_, ?_⟩
    · exact fun other isOther => absurd isOther.holds (pure other isOther.mem)
    · intro _ other isOther
      rw [← isFirst.unique isOther]
      exact ⟨width, isWidth, failed⟩
    · intro lines done
      rw [failed] at done
      cases done
  · refine ⟨⟨?_, ?_⟩, ?_, ?_, ?_⟩
    · rintro ⟨error, failed⟩
      rw [done] at failed
      cases failed
    · rintro ⟨row, mem, mixed | ragged⟩
      · exact absurd mixed (pure row mem)
      · exact absurd ragged (even row mem)
    · exact fun row isFirst => absurd isFirst.holds (pure row isFirst.mem)
    · exact fun _ row isFirst => absurd isFirst.holds (even row isFirst.mem)
    · intro others same
      rw [done] at same
      obtain rfl := Except.ok.inj same
      exact own

/-- The comment is indented by three and the code by multiples of two. With a row of code indented
by three, some row is at fault. -/
theorem scan_measured_steps :
    let config : Config := { keepComments := true }
    let source := "if x:\n    y:\n   # note\n      - 1 # end\n\n  pass\n".toList
    let lines : List Line := [.code 0 "if x:".toList 1, .code 2 "y:".toList 2,
      .comment 1 "note".toList 3, .code 3 "- 1".toList 4, .code 1 "pass".toList 6]
    let ragged := "if x:\n    y\n  z\n   pass\n".toList
    scan config source = .ok lines ∧ Measured (ofSource source) lines ∧
      ∃ row ∈ ofSource ragged, Mixed (ofSource ragged) row ∨ Ragged (ofSource ragged) row := by
  intro config source lines ragged
  have valid : config.validate = .ok () := by decide
  have scanned : scan config source = .ok lines := eq_ok_of_toOption (by decide +kernel)
  have fails : (scan config ragged).toOption = none := by decide +kernel
  refine ⟨scanned, (scan_measured valid rfl source).2.2.2 lines scanned, ?_⟩
  refine (scan_measured valid rfl ragged).1.mp ?_
  cases outcome : scan config ragged with
  | error error => exact ⟨error, rfl⟩
  | ok lines => simp [outcome, Except.toOption] at fails

/-- A comment of the mark alone is kept as a line without content. -/
theorem scan_bareComment :
    let config : Config := { keepComments := true }
    config.validate = .ok () ∧ config.sourceIndentationUnit = none ∧
      scan config "#\n".toList = .ok [.comment 0 [] 1] :=
  ⟨by decide, rfl, eq_ok_of_toOption (by decide +kernel)⟩

end Line
end Outline
