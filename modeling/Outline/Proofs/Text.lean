import Outline.Text.Basic
import Outline.Text.Word

/-!
# Trimmed text and its lines

A text is trimmed when it neither starts nor ends with a blank. `trim` gives the trimmed text
between two runs of blanks, and leaves a trimmed text as it is. Lines are read back from text in
which each row is ended by a line feed, if no row holds one or ends in a carriage return.
-/

set_option autoImplicit false

namespace Outline.Text

/-! ## Tables of characters -/

-- Facts about a table are decided by `List.all`: a bounded quantifier over characters may be
-- decided by going through all of them.

/-- A check over a table says that it holds the characters. -/
theorem subset_of_all {s t : Text} (all : s.all t.contains = true) : s ⊆ t := by
  intro c mem
  exact List.contains_iff_mem.mp (List.all_eq_true.mp all c mem)

/-- A property that no blank of the table has is one that no blank has. -/
theorem eq_false_of_isBlank {p : Char → Bool} (none : (blanks.all fun b => !p b) = true) {c : Char}
    (blank : isBlank c = true) : p c = false := by
  have plain := List.all_eq_true.mp none c ((isBlank_iff c).mp blank)
  rwa [Bool.not_eq_true'] at plain

theorem isWordChar_eq_false_of_isBlank {c : Char} (blank : isBlank c = true) :
    isWordChar c = false :=
  eq_false_of_isBlank (by decide +kernel) blank

/-! ## Trimming -/

/-- A text without a blank at either end. -/
structure Trimmed (s : Text) : Prop where
  /-- The text does not start with a blank. -/
  front : ∀ c ∈ s.head?, isBlank c = false
  /-- The text does not end with a blank. -/
  back : ∀ c ∈ s.getLast?, isBlank c = false

theorem trimmed_nil : Trimmed [] := by
  constructor <;> (intro c mem; cases mem)

theorem trimStart_eq_self {s : Text} (front : ∀ c ∈ s.head?, isBlank c = false) :
    trimStart s = s := by
  cases s with
  | nil => rfl
  | cons c rest =>
    have ink := front c rfl
    exact List.dropWhile_cons_of_neg (by rw [ink]; decide)

theorem trimEnd_eq_self {s : Text} (back : ∀ c ∈ s.getLast?, isBlank c = false) :
    trimEnd s = s := by
  have front : ∀ c ∈ s.reverse.head?, isBlank c = false := by
    intro c mem
    rw [List.head?_reverse] at mem
    exact back c mem
  have same : s.reverse.dropWhile isBlank = s.reverse := trimStart_eq_self front
  rw [trimEnd, same, List.reverse_reverse]

/-- Trimming leaves a trimmed text as it is. -/
theorem trim_eq_self {s : Text} (trimmed : Trimmed s) : trim s = s := by
  rw [trim, trimStart_eq_self trimmed.front, trimEnd_eq_self trimmed.back]

theorem head?_trimStart_ink {s : Text} {c : Char} (head : c ∈ (trimStart s).head?) :
    isBlank c = false := by
  have stop := List.head?_dropWhile_not isBlank s
  rw [trimStart, Option.mem_def] at head
  rw [head] at stop
  exact stop

/-- Trimming at the end takes off blanks only. -/
theorem exists_eq_trimEnd_append (s : Text) :
    ∃ tail, s = trimEnd s ++ tail ∧ ∀ c ∈ tail, isBlank c = true := by
  refine ⟨(s.reverse.takeWhile isBlank).reverse, ?_, ?_⟩
  · rw [trimEnd, ← List.reverse_append, List.takeWhile_append_dropWhile, List.reverse_reverse]
  · intro c mem
    exact List.all_eq_true.mp List.all_takeWhile c (List.mem_reverse.mp mem)

theorem trimEnd_back (s : Text) : ∀ c ∈ (trimEnd s).getLast?, isBlank c = false := by
  intro c mem
  rw [trimEnd, List.getLast?_reverse] at mem
  exact head?_trimStart_ink (s := s.reverse) mem

/-- Cutting the blanks off the end keeps the first character, unless nothing is left. -/
theorem trimEnd_front {s : Text} (front : ∀ c ∈ s.head?, isBlank c = false) :
    ∀ c ∈ (trimEnd s).head?, isBlank c = false := by
  intro c mem
  obtain ⟨tail, split, _⟩ := exists_eq_trimEnd_append s
  refine front c ?_
  rw [split, List.head?_append, Option.mem_def.mp mem]
  rfl

/-- A text is trimmed once it has been. -/
theorem trimmed_trim (s : Text) : Trimmed (trim s) :=
  ⟨trimEnd_front fun _ => head?_trimStart_ink, trimEnd_back _⟩

/-- Trimming gives what stands between two runs of blanks. -/
theorem exists_eq_trim_between (s : Text) :
    ∃ lead tail, s = lead ++ trim s ++ tail ∧
      (∀ c ∈ lead, isBlank c = true) ∧ ∀ c ∈ tail, isBlank c = true := by
  obtain ⟨tail, split, blank⟩ := exists_eq_trimEnd_append (trimStart s)
  refine ⟨s.takeWhile isBlank, tail, ?_, ?_, blank⟩
  · rw [trim, List.append_assoc, ← split, trimStart, List.takeWhile_append_dropWhile]
  · intro c mem
    exact List.all_eq_true.mp List.all_takeWhile c mem

/-- Trimming adds nothing. -/
theorem mem_of_mem_trim {s : Text} {c : Char} (mem : c ∈ trim s) : c ∈ s := by
  obtain ⟨lead, tail, split, _⟩ := exists_eq_trim_between s
  rw [split]
  exact List.mem_append_left _ (List.mem_append_right _ mem)

theorem trimStart_append {lead : Text} (blank : ∀ c ∈ lead, isBlank c = true) (s : Text) :
    trimStart (lead ++ s) = trimStart s :=
  List.dropWhile_append_of_pos blank

/-- A text that ends in no blank is not trimmed away. -/
theorem trim_ne_nil {s : Text} (filled : s ≠ []) (back : ∀ c ∈ s.getLast?, isBlank c = false) :
    trim s ≠ [] := by
  intro empty
  obtain ⟨lead, tail, split, blankLead, blankTail⟩ := exists_eq_trim_between s
  rw [empty, List.append_nil] at split
  have blank : ∀ c ∈ s, isBlank c = true := by
    intro c mem
    rw [split, List.mem_append] at mem
    exact mem.elim (blankLead c) (blankTail c)
  have ink := back _ (List.getLast?_eq_some_getLast filled)
  rw [blank _ (List.getLast_mem filled)] at ink
  cases ink

/-- Blanks around a trimmed text are what trimming takes away. -/
theorem trim_append {lead s : Text} (blank : ∀ c ∈ lead, isBlank c = true) (trimmed : Trimmed s) :
    trim (lead ++ s) = s := by
  rw [trim, trimStart_append blank]
  exact trim_eq_self trimmed

/-- A text that is not blank is given trimmed. -/
theorem nonBlank?_eq_some_iff {s t : Text} : nonBlank? s = some t ↔ trim s = t ∧ t ≠ [] := by
  rw [nonBlank?]
  split
  next empty =>
    rw [empty]
    constructor
    · intro none
      cases none
    · rintro ⟨rfl, nonempty⟩
      exact absurd rfl nonempty
  next c rest cut =>
    rw [cut]
    constructor
    · intro same
      obtain rfl := Option.some.inj same
      exact ⟨rfl, List.cons_ne_nil c rest⟩
    · rintro ⟨rfl, _⟩
      rfl

theorem nonBlank?_of_trimmed {s : Text} (trimmed : Trimmed s) (nonempty : s ≠ []) :
    nonBlank? s = some s :=
  nonBlank?_eq_some_iff.mpr ⟨trim_eq_self trimmed, nonempty⟩

/-! ## Lines -/

/-- A line holds characters of the text only, and no line feed. -/
theorem mem_of_mem_lines {s line : Text} (mem : line ∈ lines s) :
    ∀ c ∈ line, c ∈ s ∧ c ≠ '\n' := by
  fun_induction lines s generalizing line with
  | case1 => cases mem
  | case2 rest ih =>
    intro c inLine
    rcases List.mem_cons.mp mem with rfl | later
    · cases inLine
    · exact ⟨List.mem_cons_of_mem _ (ih later c inLine).1, (ih later c inLine).2⟩
  | case3 rest ih =>
    intro c inLine
    rcases List.mem_cons.mp mem with rfl | later
    · cases inLine
    · have := ih later c inLine
      exact ⟨List.mem_cons_of_mem _ (List.mem_cons_of_mem _ this.1), this.2⟩
  | case4 first rest notFeed _ none ih =>
    intro c inLine
    rw [List.mem_singleton] at mem
    rw [mem, List.mem_singleton] at inLine
    obtain rfl := inLine
    exact ⟨List.mem_cons_self, notFeed⟩
  | case5 first rest notFeed _ next more found ih =>
    intro c inLine
    rw [found] at ih
    rcases List.mem_cons.mp mem with rfl | later
    · rcases List.mem_cons.mp inLine with rfl | after
      · exact ⟨List.mem_cons_self, notFeed⟩
      · have := ih List.mem_cons_self c after
        exact ⟨List.mem_cons_of_mem _ this.1, this.2⟩
    · have := ih (List.mem_cons_of_mem _ later) c inLine
      exact ⟨List.mem_cons_of_mem _ this.1, this.2⟩

/-- A row ended by a line feed is the first line. -/
theorem lines_append {row : Text} (oneLine : '\n' ∉ row) (noReturn : row.getLast? ≠ some '\r')
    (rest : Text) : lines (row ++ '\n' :: rest) = row :: lines rest := by
  induction row with
  | nil => rw [List.nil_append, lines]
  | cons c row ih =>
    have here : c ≠ '\n' := fun same => oneLine (same ▸ List.mem_cons_self)
    have later : '\n' ∉ row := fun mem => oneLine (List.mem_cons_of_mem _ mem)
    have back : row.getLast? ≠ some '\r' := by
      intro last
      apply noReturn
      rw [List.getLast?_cons, last]
      rfl
    have notPair : ∀ more, c = '\r' → row ++ '\n' :: rest ≠ '\n' :: more := by
      intro more isReturn same
      cases row with
      | nil =>
        subst isReturn
        exact noReturn rfl
      | cons d row =>
        obtain ⟨rfl, _⟩ := List.cons.inj same
        exact later List.mem_cons_self
    rw [List.cons_append, lines, ih later back]
    · exact here
    · exact notPair

/-- Rows each ended by a line feed are the lines of the text. -/
theorem lines_flatMap {rows : List Text}
    (clean : ∀ row ∈ rows, '\n' ∉ row ∧ row.getLast? ≠ some '\r') :
    lines (rows.flatMap fun row => row ++ ['\n']) = rows := by
  induction rows with
  | nil => rfl
  | cons row rows ih =>
    have here := clean row List.mem_cons_self
    have later := ih fun other mem => clean other (List.mem_cons_of_mem _ mem)
    rw [List.flatMap_cons, List.append_assoc, List.singleton_append, lines_append here.1 here.2,
      later]

/-! ## Joined texts -/

/-- Joined texts hold characters of the texts and of what joins them. -/
theorem mem_intercalate {separator : Text} {parts : List Text} {c : Char}
    (mem : c ∈ separator.intercalate parts) : c ∈ separator ∨ ∃ part ∈ parts, c ∈ part := by
  induction parts with
  | nil => cases mem
  | cons first rest ih =>
    cases rest with
    | nil =>
      rw [List.intercalate_singleton] at mem
      exact .inr ⟨first, List.mem_cons_self, mem⟩
    | cons second rest =>
      rw [List.intercalate_cons_cons, List.append_assoc, List.mem_append, List.mem_append] at mem
      rcases mem with inFirst | between | later
      · exact .inr ⟨first, List.mem_cons_self, inFirst⟩
      · exact .inl between
      · rcases ih later with between | ⟨part, inRest, inPart⟩
        · exact .inl between
        · exact .inr ⟨part, List.mem_cons_of_mem _ inRest, inPart⟩

end Outline.Text
