import Outline.Proofs.Marks
import Outline.Proofs.Verbatim

/-!
# The pieces of a header, said without a reader

Names, integers, gaps and keywords are defined here by the characters they hold. Each reader of the
grammar takes the longest piece: it succeeds exactly when the text starts with such a piece and the
character behind it could not make the piece longer.
-/

set_option autoImplicit false

namespace Outline.Grammar

/-! ## Runs of characters -/

/-- A text that does not start with a character of a class. -/
def StopsAt (p : Char → Bool) (s : Text) : Prop := ∀ c ∈ s.head?, p c = false

instance (p : Char → Bool) (s : Text) : Decidable (StopsAt p s) :=
  decidable_of_iff ((s.head?.all fun c => !p c) = true) (by cases s <;> simp [StopsAt])

theorem stopsAt_nil (p : Char → Bool) : StopsAt p [] := by
  intro c head
  cases head

theorem stopsAt_cons {p : Char → Bool} {c : Char} (outside : p c = false) (s : Text) :
    StopsAt p (c :: s) := by
  intro d head
  obtain rfl := Option.some.inj head
  exact outside

theorem stopsAt_dropWhile (p : Char → Bool) (s : Text) : StopsAt p (s.dropWhile p) := by
  intro c head
  have stop := List.head?_dropWhile_not p s
  rw [Option.mem_def.mp head] at stop
  exact stop

theorem StopsAt.takeWhile_eq_nil {p : Char → Bool} {s : Text} (stops : StopsAt p s) :
    s.takeWhile p = [] := by
  cases s with
  | nil => rfl
  | cons c s => exact List.takeWhile_cons_of_neg (by rw [stops c rfl]; decide)

theorem StopsAt.dropWhile_eq_self {p : Char → Bool} {s : Text} (stops : StopsAt p s) :
    s.dropWhile p = s := by
  cases s with
  | nil => rfl
  | cons c s => exact List.dropWhile_cons_of_neg (by rw [stops c rfl]; decide)

/-- A run that what follows does not make longer is taken whole. -/
theorem StopsAt.takeWhile_append {p : Char → Bool} {run rest : Text} (stops : StopsAt p rest)
    (inside : ∀ c ∈ run, p c = true) : (run ++ rest).takeWhile p = run := by
  rw [List.takeWhile_append_of_pos inside, stops.takeWhile_eq_nil, List.append_nil]

/-- A run of a class ends where the rest stops. -/
theorem StopsAt.dropWhile_append {p : Char → Bool} {run rest : Text} (stops : StopsAt p rest)
    (inside : ∀ c ∈ run, p c = true) : (run ++ rest).dropWhile p = rest := by
  rw [List.dropWhile_append_of_pos inside, stops.dropWhile_eq_self]

/-! ## Letters -/

/-- The letters that start words are characters of names. -/
theorem all_isNameChar [Letters] {word : Text} (letters : word.all Text.isWordStart = true) :
    word.all isNameChar = true := by
  rw [List.all_eq_true] at letters ⊢
  exact fun c mem => isNameChar_of_isNameStart (isNameStart_of_isWordStart (letters c mem))

theorem isNameStart_eq_false_of_isDigit [Letters] {c : Char} (digit : c.isDigit = true) :
    isNameStart c = false := by
  have small : c.toNat < 0x80 := by
    have bounds := digit
    unfold Char.isDigit at bounds
    simp only [Bool.and_eq_true, decide_eq_true_eq] at bounds
    have high : c.toNat ≤ 57 := bounds.2
    omega
  rw [isNameStart_of_lt small, Text.isWordStart_eq_false_of_isDigit digit]

/-! ## Gaps -/

/-- A run of spaces and tabs, possibly empty. -/
def IsGap (s : Text) : Prop := ∀ c ∈ s, isGap c = true

instance (s : Text) : Decidable (IsGap s) :=
  decidable_of_iff (s.all isGap = true) List.all_eq_true

/-- A run of spaces and tabs between two words, where it cannot be empty. -/
structure IsSpace (s : Text) : Prop where
  filled : s ≠ []
  gap : IsGap s

theorem isBlank_of_isGap {c : Char} (gap : isGap c = true) : Text.isBlank c = true := by
  simp only [isGap, Bool.or_eq_true, beq_iff_eq] at gap
  rcases gap with rfl | rfl <;> decide

theorem isNameChar_eq_false_of_isGap [Letters] {c : Char} (gap : isGap c = true) :
    isNameChar c = false := by
  simp only [isGap, Bool.or_eq_true, beq_iff_eq] at gap
  rcases gap with rfl | rfl
  · exact (isNameChar_of_lt (by decide)).trans (by decide)
  · exact (isNameChar_of_lt (by decide)).trans (by decide)

theorem isGap_eq_false_of_isNameChar [Letters] {c : Char} (inName : isNameChar c = true) :
    isGap c = false := by
  cases gap : isGap c with
  | false => rfl
  | true =>
    rw [isNameChar_eq_false_of_isGap gap] at inName
    cases inName

/-- What is skipped is a gap. -/
theorem exists_eq_skipGap (s : Text) : ∃ gap, IsGap gap ∧ s = gap ++ skipGap s :=
  ⟨s.takeWhile isGap, fun _ mem => List.all_eq_true.mp List.all_takeWhile _ mem,
    List.takeWhile_append_dropWhile.symm⟩

theorem skipGap_append {gap s : Text} (isGap : IsGap gap) : skipGap (gap ++ s) = skipGap s :=
  List.dropWhile_append_of_pos isGap

theorem skipGap_eq_self {s : Text} (stops : StopsAt isGap s) : skipGap s = s :=
  stops.dropWhile_eq_self

/-- A trimmed text starts with no gap. -/
theorem skipGap_of_trimmed {s : Text} (trimmed : Text.Trimmed s) : skipGap s = s := by
  refine skipGap_eq_self fun c head => ?_
  cases gap : isGap c with
  | false => rfl
  | true =>
    have ink := trimmed.front c head
    rw [isBlank_of_isGap gap] at ink
    cases ink

/-- A gap is blank, so trimming takes it off as well. -/
theorem trim_skipGap (s : Text) : Text.trim (skipGap s) = Text.trim s := by
  obtain ⟨gap, isGap, parts⟩ := exists_eq_skipGap s
  have blank : ∀ c ∈ gap, Text.isBlank c = true := fun c mem => isBlank_of_isGap (isGap c mem)
  have front : Text.trimStart s = Text.trimStart (skipGap s) := by
    conv_lhs => rw [parts]
    exact Text.trimStart_append blank _
  rw [Text.trim, Text.trim, front]

/-- A text that ends in no blank is a gap only if it is empty. -/
theorem skipGap_eq_nil_iff {s : Text} (back : ∀ c ∈ s.getLast?, Text.isBlank c = false) :
    skipGap s = [] ↔ s = [] := by
  constructor
  · intro none
    obtain ⟨gap, isGap, parts⟩ := exists_eq_skipGap s
    rw [none, List.append_nil] at parts
    subst parts
    by_contra filled
    have last := List.getLast?_eq_some_getLast filled
    have ink := back _ last
    rw [isBlank_of_isGap (isGap _ (List.getLast_mem filled))] at ink
    cases ink
  · rintro rfl
    rfl

/-! ## Names -/

/-- Whether a text is a name of the grammar. -/
def isName [Letters] : Text → Bool
  | [] => false
  | c :: rest => isNameStart c && rest.all isNameChar

theorem isNameChar_of_isName [Letters] {name : Text} (named : isName name = true) :
    ∀ c ∈ name, isNameChar c = true := by
  cases name with
  | nil => cases named
  | cons first rest =>
    rw [isName, Bool.and_eq_true, List.all_eq_true] at named
    intro c mem
    rcases List.mem_cons.mp mem with rfl | later
    · exact isNameChar_of_isNameStart named.1
    · exact named.2 c later

theorem ne_nil_of_isName [Letters] {name : Text} (named : isName name = true) : name ≠ [] := by
  rintro rfl
  cases named

/-- The reader of names takes the longest name. -/
theorem readName?_eq_some_iff [Letters] {s name rest : Text} :
    readName? s = some (name, rest) ↔
      s = name ++ rest ∧ isName name = true ∧ StopsAt isNameChar rest := by
  constructor
  · intro read
    refine ⟨(readName?_eq_some read).1, ?_⟩
    cases s with
    | nil => cases read
    | cons c tail =>
      rw [readName?] at read
      split at read
      next start =>
        obtain ⟨rfl, rfl⟩ := Prod.mk.inj (Option.some.inj read)
        rw [isName, start, List.all_takeWhile]
        exact ⟨rfl, stopsAt_dropWhile _ _⟩
      next => cases read
  · rintro ⟨rfl, named, stops⟩
    cases name with
    | nil => cases named
    | cons c tail =>
      rw [isName, Bool.and_eq_true, List.all_eq_true] at named
      rw [List.cons_append, readName?, if_pos named.1, stops.takeWhile_append named.2,
        stops.dropWhile_append named.2]

/-- A name is read up to where it ends. -/
theorem readName?_append [Letters] {name rest : Text} (named : isName name = true)
    (stops : StopsAt isNameChar rest) : readName? (name ++ rest) = some (name, rest) :=
  readName?_eq_some_iff.mpr ⟨rfl, named, stops⟩

/-! ## Keywords -/

/-- The reader of keywords takes a keyword that is not the front of a longer name. -/
theorem readKeyword?_eq_some_iff [Letters] {keyword s rest : Text} :
    readKeyword? keyword s = some rest ↔ s = keyword ++ rest ∧ StopsAt isNameChar rest := by
  rw [← Text.after?_eq_some_iff, readKeyword?]
  split
  next none =>
    rw [none]
    constructor
    · intro read
      cases read
    · rintro ⟨after, _⟩
      cases after
  next after =>
    rw [after]
    constructor
    · intro read
      obtain rfl := Option.some.inj read
      exact ⟨rfl, stopsAt_nil _⟩
    · exact And.left
  next c tail after =>
    rw [after]
    split
    next inName =>
      constructor
      · intro read
        cases read
      · rintro ⟨same, stops⟩
        obtain rfl := Option.some.inj same
        rw [stops c rfl] at inName
        cases inName
    next outside =>
      constructor
      · intro read
        obtain rfl := Option.some.inj read
        exact ⟨rfl, stopsAt_cons (Bool.not_eq_true _ ▸ outside) _⟩
      · exact And.left

/-- A keyword is read if no more of a name follows. -/
theorem readKeyword?_append [Letters] {rest : Text} (keyword : Text)
    (stops : StopsAt isNameChar rest) : readKeyword? keyword (keyword ++ rest) = some rest :=
  readKeyword?_eq_some_iff.mpr ⟨rfl, stops⟩

/-- A keyword at the front of a text is all of the name there, so there is only one. -/
theorem takeWhile_of_readKeyword? [Letters] {keyword s rest : Text}
    (letters : keyword.all isNameChar = true) (read : readKeyword? keyword s = some rest) :
    s.takeWhile isNameChar = keyword := by
  obtain ⟨rfl, stops⟩ := readKeyword?_eq_some_iff.mp read
  exact stops.takeWhile_append (List.all_eq_true.mp letters)

/-- A keyword is not read where the first word is another. -/
theorem readKeyword?_eq_none [Letters] {keyword s : Text} (letters : keyword.all isNameChar = true)
    (other : s.takeWhile isNameChar ≠ keyword) : readKeyword? keyword s = none := by
  cases read : readKeyword? keyword s with
  | none => rfl
  | some rest => exact absurd (takeWhile_of_readKeyword? letters read) other

/-! ## Integers -/

/-- Whether a text is one or more ASCII digits. -/
def isDigits (s : Text) : Bool := !s.isEmpty && s.all Char.isDigit

/-- Whether a text is an integer: ASCII digits, perhaps after a minus sign. -/
def isInteger : Text → Bool
  | [] => false
  | c :: rest => if c = '-' then isDigits rest else isDigits (c :: rest)

theorem isDigits_cons {c : Char} {rest : Text} :
    isDigits (c :: rest) = true ↔ c.isDigit = true ∧ ∀ d ∈ rest, d.isDigit = true := by
  simp [isDigits]

/-- The reader of integers takes all the digits. -/
theorem readInteger?_eq_some_iff {s digits rest : Text} :
    readInteger? s = some (digits, rest) ↔
      s = digits ++ rest ∧ isInteger digits = true ∧ StopsAt Char.isDigit rest := by
  constructor
  · intro read
    unfold readInteger? at read
    split at read
    next c tail =>
      split at read
      next digit =>
        obtain ⟨rfl, rfl⟩ := Prod.mk.inj (Option.some.inj read)
        refine ⟨?_, ?_, stopsAt_dropWhile _ _⟩
        · rw [List.cons_append, List.cons_append, List.takeWhile_append_dropWhile]
        · rw [isInteger, if_pos rfl, isDigits_cons]
          exact ⟨digit, List.all_eq_true.mp List.all_takeWhile⟩
      next => cases read
    next c tail unsigned =>
      split at read
      next digit =>
        obtain ⟨rfl, rfl⟩ := Prod.mk.inj (Option.some.inj read)
        have notMinus : c ≠ '-' := by
          rintro rfl
          exact absurd digit (by decide)
        refine ⟨?_, ?_, stopsAt_dropWhile _ _⟩
        · rw [List.cons_append, List.takeWhile_append_dropWhile]
        · rw [isInteger, if_neg notMinus, isDigits_cons]
          exact ⟨digit, List.all_eq_true.mp List.all_takeWhile⟩
      next => cases read
    next => cases read
  · rintro ⟨rfl, integer, stops⟩
    cases digits with
    | nil => cases integer
    | cons c tail =>
      rw [isInteger] at integer
      split at integer
      next minus =>
        subst minus
        cases tail with
        | nil => cases integer
        | cons d tail =>
          obtain ⟨digit, more⟩ := isDigits_cons.mp integer
          rw [List.cons_append, List.cons_append, readInteger?, if_pos digit,
            stops.takeWhile_append more, stops.dropWhile_append more]
      next plain =>
        obtain ⟨digit, more⟩ := isDigits_cons.mp integer
        rw [List.cons_append, readInteger?, if_pos digit, stops.takeWhile_append more,
          stops.dropWhile_append more]
        rintro _ _ rfl
        exact absurd rfl plain

end Outline.Grammar
