import Outline.Header.Edition
import Outline.Proofs.Advice
import Outline.Proofs.Sugar

/-!
# Identifiers in headers and in range sugar

Identifiers may hold the numbers of every script, but the names of headers and of range sugar hold
ASCII digits only. So an identifier is such a name exactly when it has no other number
(`Grammar.isName_iff`). Reading stops in front of a number that it does not know, and no rule of the
grammar goes on there: a text that names an identifier of that kind is refused as a whole.
-/

set_option autoImplicit false

namespace Outline

namespace Grammar

/-! ## Numbers that headers do not know -/

/-- Whether a character is a number that is neither a letter nor an ASCII digit. -/
def isForeignNumber (c : Char) : Bool := Text.isNumeric c && !(Text.isAlphabetic c || c.isDigit)

/-- The characters of words are those of names and the foreign numbers. -/
theorem isNameChar_eq [Letters] {c : Char} (word : Text.isWordChar c = true) :
    isNameChar c = !isForeignNumber c := by
  cases foreign : isForeignNumber c with
  | false =>
    rw [isForeignNumber, Bool.and_eq_false_iff] at foreign
    rw [Text.isWordChar, Bool.or_eq_true, Bool.or_eq_true] at word
    have known : Text.isAlphabetic c = true ∨ c.isDigit = true ∨ (c == '_') = true := by
      rcases word with (alphabetic | numeric) | underscore
      · exact .inl alphabetic
      · rw [numeric, Bool.not_eq_false', Bool.or_eq_true] at foreign
        rcases foreign with false | alphabetic | digit
        · cases false
        · exact .inl alphabetic
        · exact .inr (.inl digit)
      · exact .inr (.inr underscore)
    rw [isNameChar, Bool.not_false, Bool.or_eq_true, Bool.or_eq_true, or_assoc]
    exact known.imp_left Letters.alphabetic
  | true =>
    rw [isForeignNumber, Bool.and_eq_true, Bool.not_eq_true', Bool.or_eq_false_iff] at foreign
    obtain ⟨numeric, alphabetic, digit⟩ := foreign
    have noUnderscore : (c == '_') = false := by
      rw [beq_eq_false_iff_ne]
      rintro rfl
      revert numeric
      decide
    have noLetter : Letters.isLetter c = false := by
      by_contra letter
      rw [Bool.not_eq_false] at letter
      rw [Letters.number numeric letter] at alphabetic
      cases alphabetic
    rw [isNameChar, noLetter, digit, noUnderscore]
    rfl

theorem isWordChar_of_isForeignNumber {c : Char} (foreign : isForeignNumber c = true) :
    Text.isWordChar c = true := by
  rw [isForeignNumber, Bool.and_eq_true] at foreign
  rw [Text.isWordChar, foreign.1, Bool.or_true, Bool.true_or]

theorem ne_of_isForeignNumber {c d : Char} (foreign : isForeignNumber c = true)
    (other : isForeignNumber d = false) : c ≠ d := by
  rintro rfl
  rw [foreign] at other
  cases other

section

variable {name : Text} (identifier : Text.isIdentifier name = true)

include identifier

/-- An identifier is a name of headers exactly when it holds no foreign number. -/
theorem isName_iff [Letters] : isName name = true ↔ ∀ c ∈ name, isForeignNumber c = false := by
  have words := Text.isWordChar_of_mem_identifier identifier
  constructor
  · intro named c mem
    have inName := isNameChar_of_isName named c mem
    rwa [isNameChar_eq (words c mem), Bool.not_eq_true'] at inName
  · intro known
    cases name with
    | nil => cases identifier
    | cons first rest =>
      rw [Text.isIdentifier, Bool.and_eq_true] at identifier
      rw [isName, isNameStart_of_isWordStart identifier.1, Bool.true_and, List.all_eq_true]
      intro c mem
      rw [isNameChar_eq (words c (List.mem_cons_of_mem _ mem)),
        known c (List.mem_cons_of_mem _ mem)]
      rfl

/-- In an identifier with a foreign number the reader of names stops in front of the first one. -/
theorem exists_readName? [Letters] (foreign : isName name = false) (rest : Text) :
    ∃ lead c tail, readName? (name ++ rest) = some (lead, c :: tail) ∧
      isForeignNumber c = true := by
  have words := Text.isWordChar_of_mem_identifier identifier
  obtain ⟨first, tail, rfl, start⟩ := Text.startsName_of_isIdentifier identifier
  cases stop : tail.dropWhile isNameChar with
  | nil =>
    have all : tail.all isNameChar = true :=
      List.all_eq_true.mpr (List.dropWhile_eq_nil_iff.mp stop)
    rw [isName, start, all] at foreign
    cases foreign
  | cons c after =>
    have parts := List.takeWhile_append_dropWhile (p := isNameChar) (l := tail)
    rw [stop] at parts
    have outside : isNameChar c = false := stopsAt_dropWhile isNameChar tail c (by rw [stop]; rfl)
    have mem : c ∈ first :: tail := by
      rw [← parts]
      exact List.mem_cons_of_mem _ (List.mem_append_right _ List.mem_cons_self)
    have stops : StopsAt isNameChar (c :: (after ++ rest)) := stopsAt_cons outside _
    refine ⟨first :: tail.takeWhile isNameChar, c, after ++ rest, ?_, ?_⟩
    · refine readName?_eq_some_iff.mpr ⟨?_, ?_, stops⟩
      · conv_lhs => rw [← parts]
        simp
      · rw [isName, start, List.all_takeWhile]
        rfl
    · rwa [isNameChar_eq (words c mem), Bool.not_eq_false'] at outside

end

/-! ## What no rule goes on from -/

section

variable {c : Char} (foreign : isForeignNumber c = true) (rest : Text)

include foreign

theorem isNameChar_of_isForeignNumber [Letters] : isNameChar c = false := by
  rw [isNameChar_eq (isWordChar_of_isForeignNumber foreign), foreign]
  rfl

theorem skipGap_of_isForeignNumber : skipGap (c :: rest) = c :: rest := by
  refine skipGap_eq_self (stopsAt_cons ?_ rest)
  rw [isGap, Bool.or_eq_false_iff, beq_eq_false_iff_ne, beq_eq_false_iff_ne]
  exact ⟨ne_of_isForeignNumber foreign (by decide), ne_of_isForeignNumber foreign (by decide)⟩

/-- No keyword starts with such a number. -/
theorem readKeyword?_of_isForeignNumber [Letters] {keyword : Text}
    (letters : keyword.all isNameChar = true)
    (filled : keyword ≠ []) : readKeyword? keyword (skipGap (c :: rest)) = none := by
  rw [skipGap_of_isForeignNumber foreign]
  refine readKeyword?_eq_none letters ?_
  rw [(stopsAt_cons (isNameChar_of_isForeignNumber foreign) rest).takeWhile_eq_nil]
  exact filled.symm

/-- Such a number ends a list of names. -/
theorem readMoreTargets_of_isForeignNumber [Letters] :
    Header.readMoreTargets (c :: rest) = ([], c :: rest) := by
  refine Header.readMoreTargets_of_none ?_
  rw [Header.readNextTarget?, skipGap_of_isForeignNumber foreign]
  split
  next comma =>
    obtain ⟨rfl, _⟩ := List.cons.inj comma
    exact absurd foreign (by decide)
  next => rfl

end

end Grammar

namespace Header

open Grammar

/-! ## Headers that name identifiers -/

/-- The header of a function with a parameter. -/
def functionText (name param : Text) : Text :=
  "function ".toList ++ name ++ " define ".toList ++ param

/-- The header of a loop with two targets. -/
def loopText (first second iterable : Text) : Text :=
  "for ".toList ++ first ++ ", ".toList ++ second ++ " in ".toList ++ iterable

theorem functionText_eq (name param : Text) :
    functionText name param = "function".toList ++
      ([' '] ++ (name ++ ([' '] ++ ("define".toList ++ ([' '] ++ param))))) := by
  have function : "function ".toList = "function".toList ++ [' '] := by decide
  have define : " define ".toList = [' '] ++ ("define".toList ++ [' ']) := by decide
  show "function ".toList ++ name ++ " define ".toList ++ param = _
  simp only [function, define, List.append_assoc]

theorem loopText_eq (first second iterable : Text) :
    loopText first second iterable =
      "for".toList ++ ([' '] ++ ((first ++ ([] ++ ',' :: ([' '] ++ second))) ++
        ([' '] ++ ("in".toList ++ ([' '] ++ iterable))))) := by
  have loop : "for ".toList = "for".toList ++ [' '] := by decide
  have comma : ", ".toList = [] ++ ',' :: [' '] := by decide
  have inside : " in ".toList = [' '] ++ ("in".toList ++ [' ']) := by decide
  show "for ".toList ++ first ++ ", ".toList ++ second ++ " in ".toList ++ iterable = _
  simp only [loop, comma, inside, List.append_assoc, List.cons_append]

theorem isSpace_blank : IsSpace [' '] := ⟨by decide, by decide⟩

variable {name param : Text}

/-- With two names, the text is a header of a function. -/
theorem derives_functionText [Letters] (named : isName name = true) (named' : isName param = true) :
    Derives (functionText name param) (.function name param) := by
  rw [functionText_eq]
  exact .function isSpace_blank named isSpace_blank isSpace_blank named'

/-- With two names, the text is a header of a loop. -/
theorem derives_loopText [Letters] (named : isName name = true) (named' : isName param = true)
    (iterable : Text) :
    Derives (loopText name param iterable)
      (.forLoop [name, param] (Text.trim ([' '] ++ iterable))) := by
  rw [loopText_eq]
  exact .forLoop isSpace_blank (.cons named (by decide) (by decide) (.single named')) isSpace_blank
    ⟨List.cons_ne_nil _ _, isSpace_blank.stopsAt _⟩

theorem startsWord_of_isIdentifier [Letters] (identifier : Text.isIdentifier name = true) :
    StartsWord name := by
  obtain ⟨c, rest, rfl, start⟩ := Text.startsName_of_isIdentifier identifier
  exact ⟨c, rest, rfl, isNameChar_of_isNameStart start⟩

theorem trimmed_functionText (identifier' : Text.isIdentifier param = true) :
    Text.Trimmed (functionText name param) := by
  refine Text.trimmed_append_of_isIdentifier identifier' (by simp) ?_
  rintro c ⟨⟩
  decide

theorem trimmed_loopText (identifier : Text.isIdentifier name = true) :
    Text.Trimmed (loopText name param name) := by
  refine Text.trimmed_append_of_isIdentifier identifier (by simp) ?_
  rintro c ⟨⟩
  decide

variable (identifier : Text.isIdentifier name = true)
  (identifier' : Text.isIdentifier param = true)

include identifier identifier'

/-- Without two names, the text is no header of a function. -/
theorem readFunction?_functionText [Letters]
    (foreign : isName name = false ∨ isName param = false) :
    readFunction? (functionText name param) = none := by
  have define : StartsWord ("define".toList ++ ([' '] ++ param)) :=
    startsWord_cons (by decide) ("efine".toList ++ ([' '] ++ param))
  rw [functionText_eq, readFunction?, readKeyword?_append _ (isSpace_blank.stopsAt _)]
  simp only [Option.bind_eq_bind, Option.bind_some]
  rw [isSpace_blank.skipGap_append (startsWord_append (startsWord_of_isIdentifier identifier) _)]
  cases named : isName name with
  | false =>
    obtain ⟨lead, c, tail, read, stuck⟩ := exists_readName? identifier named
      ([' '] ++ ("define".toList ++ ([' '] ++ param)))
    rw [read, Option.bind_some,
      readKeyword?_of_isForeignNumber stuck _ (all_isNameChar (by decide)) (by decide)]
    rfl
  | true =>
    rw [named] at foreign
    have foreignParam : isName param = false := foreign.resolve_left (by decide)
    rw [readName?_append named (isSpace_blank.stopsAt _), Option.bind_some,
      isSpace_blank.skipGap_append define, readKeyword?_append _ (isSpace_blank.stopsAt _),
      Option.bind_some, isSpace_blank.skipGap_append (startsWord_of_isIdentifier identifier')]
    obtain ⟨lead, c, tail, read, stuck⟩ := exists_readName? identifier' foreignParam []
    rw [List.append_nil] at read
    rw [read, Option.bind_some, skipGap_of_isForeignNumber stuck]
    rfl

/-- Targets are read up to the first foreign number in one of them. -/
theorem exists_readTargets? [Letters] (foreign : isName name = false ∨ isName param = false)
    (rest : Text) : ∃ targets c tail, readTargets? (name ++ ',' :: ([' '] ++ (param ++ rest))) =
      some (targets, c :: tail) ∧ isForeignNumber c = true := by
  cases named : isName name with
  | false =>
    obtain ⟨lead, c, tail, read, stuck⟩ := exists_readName? identifier named _
    refine ⟨[lead], c, tail, ?_, stuck⟩
    rw [readTargets?_of_readName? read, readMoreTargets_of_isForeignNumber stuck]
  | true =>
    rw [named] at foreign
    have foreignParam : isName param = false := foreign.resolve_left (by decide)
    have comma : isNameChar ',' = false := (isNameChar_of_lt (by decide)).trans (by decide)
    have first := readName?_append named (stopsAt_cons comma ([' '] ++ (param ++ rest)))
    obtain ⟨lead, c, tail, read, stuck⟩ := exists_readName? identifier' foreignParam rest
    have next : readNextTarget? (',' :: ([' '] ++ (param ++ rest))) = some (lead, c :: tail) := by
      have start := startsWord_append (startsWord_of_isIdentifier identifier') rest
      have behind := @readNextTarget?_comma _ [] [' '] (param ++ rest) (by decide) (by decide)
      rwa [start.skipGap_eq, read] at behind
    refine ⟨[name, lead], c, tail, ?_, stuck⟩
    rw [readTargets?_of_readName? first, readMoreTargets_of_some next,
      readMoreTargets_of_isForeignNumber stuck]

/-- Without two names, the text is no header of a loop. -/
theorem readFor?_loopText [Letters] (foreign : isName name = false ∨ isName param = false)
    (iterable : Text) : readFor? (loopText name param iterable) = none := by
  obtain ⟨targets, c, tail, read, stuck⟩ := exists_readTargets? identifier identifier' foreign
    ([' '] ++ ("in".toList ++ ([' '] ++ iterable)))
  have start := startsWord_append (startsWord_of_isIdentifier identifier)
    (',' :: ([' '] ++ (param ++ ([' '] ++ ("in".toList ++ ([' '] ++ iterable))))))
  have whole : name ++ ([] ++ ',' :: ([' '] ++ param)) ++
      ([' '] ++ ("in".toList ++ ([' '] ++ iterable))) =
        name ++ ',' :: ([' '] ++ (param ++ ([' '] ++ ("in".toList ++ ([' '] ++ iterable))))) := by
    rw [List.append_assoc]
    rfl
  rw [loopText_eq, whole, readFor?, readKeyword?_append _ (isSpace_blank.stopsAt _)]
  simp only [Option.bind_eq_bind, Option.bind_some]
  rw [isSpace_blank.skipGap_append start, read, Option.bind_some,
    readKeyword?_of_isForeignNumber stuck _ (all_isNameChar (by decide)) (by decide)]
  rfl

theorem read?_functionText [Letters] (foreign : isName name = false ∨ isName param = false) :
    read? (functionText name param) = none := by
  have front : (functionText name param).takeWhile isNameChar = "function".toList := by
    rw [functionText_eq]
    exact (isSpace_blank.stopsAt _).takeWhile_append
      (List.all_eq_true.mp (all_isNameChar (by decide)))
  refine read?_eq_none (trimmed_functionText identifier')
    (readFunction?_functionText identifier identifier' foreign) (readFor?_eq_none ?_) ?_ <;>
  · rw [front]
    decide

theorem read?_loopText [Letters] (foreign : isName name = false ∨ isName param = false) :
    read? (loopText name param name) = none := by
  have front : (loopText name param name).takeWhile isNameChar = "for".toList := by
    rw [loopText_eq]
    exact (isSpace_blank.stopsAt _).takeWhile_append
      (List.all_eq_true.mp (all_isNameChar (by decide)))
  refine read?_eq_none (trimmed_loopText identifier) (readFunction?_eq_none ?_)
    (readFor?_loopText identifier identifier' foreign name) ?_ <;>
  · rw [front]
    decide

end Header

namespace RangeSugar

open Grammar

/-! ## Range sugar between identifiers -/

/-- Range sugar from a start to a stop. -/
def rangeText (start stop : Text) : Text := "range.".toList ++ start ++ ".".toList ++ stop

/-- With two names, the text is range sugar. -/
theorem isSugar_rangeText [Letters] {start stop : Text} (named : isName start = true)
    (named' : isName stop = true) : IsSugar (rangeText start stop) [start, stop] where
  whole := by
    show "range.".toList ++ start ++ ['.'] ++ stop = _
    simp only [List.intercalate_cons_cons, List.intercalate_singleton, List.append_assoc]
  count := .inl rfl
  bound := by simp [named, named']

theorem trimmed_rangeText {start stop : Text} (identifier : Text.isIdentifier stop = true) :
    Text.Trimmed (rangeText start stop) := by
  refine Text.trimmed_append_of_isIdentifier identifier (by simp) ?_
  rintro c ⟨⟩
  decide

/-- A foreign number stands in no bound, so nothing that holds one is range sugar. -/
theorem bounds_of_isForeignNumber [Letters] {s : Text} (trimmed : Text.Trimmed s) {c : Char}
    (mem : c ∈ s) (foreign : isForeignNumber c = true) : bounds s = .error (.malformed s) := by
  have none : components? s = none := by
    refine Option.eq_none_iff_forall_ne_some.mpr fun found read => ?_
    obtain ⟨rfl, -, kinds⟩ := (components?_eq_some_iff trimmed).mp read
    rcases List.mem_append.mp mem with word | inDotted
    · have plain : ("range".toList.all fun d => !isForeignNumber d) = true := by decide
      have other := List.all_eq_true.mp plain c word
      rw [foreign] at other
      cases other
    · obtain ⟨bound, inFound, inBound⟩ := List.mem_flatMap.mp inDotted
      rcases List.mem_cons.mp inBound with rfl | inBound
      · exact absurd foreign (by decide)
      · rcases isNameChar_of_mem_bound (kinds bound inFound) inBound with rfl | inName
        · exact absurd foreign (by decide)
        · rw [isNameChar_of_isForeignNumber foreign] at inName
          cases inName
  rw [bounds, none]

end RangeSugar

/-! ## One rule for all three -/

open Grammar

/-- For identifiers without foreign numbers, a function with a parameter, a loop with two targets
and range sugar are read as what they name; with a foreign number, all three are refused. -/
theorem read_identifiers [Letters] (line : Nat) {name param : Text}
    (identifier : Text.isIdentifier name = true) (identifier' : Text.isIdentifier param = true) :
    ((∀ c ∈ name ++ param, isForeignNumber c = false) →
      Header.read line (Header.functionText name param) = .ok (.function name param) ∧
        Header.read line (Header.loopText name param name) = .ok (.forLoop [name, param] name) ∧
        RangeSugar.read line (RangeSugar.rangeText name param) = .ok [name, param]) ∧
      ((∃ c ∈ name ++ param, isForeignNumber c = true) →
        Header.read line (Header.functionText name param) =
            .error (.classification line
              (Header.malformed (Header.functionText name param))) ∧
          Header.read line (Header.loopText name param name) =
            .error (.classification line
              (Header.malformed (Header.loopText name param name))) ∧
          RangeSugar.read line (RangeSugar.rangeText name param) =
            .error (.expression line
              (RangeSugar.Fault.malformed (RangeSugar.rangeText name param)).message)) := by
  constructor
  · intro known
    rw [List.forall_mem_append] at known
    have named := (isName_iff identifier).mpr known.1
    have named' := (isName_iff identifier').mpr known.2
    have derives := Header.derives_loopText named named' name
    rw [Text.trim_append (List.all_eq_true.mp (by decide))
      (Text.trimmed_of_isIdentifier identifier)] at derives
    refine ⟨?_, (Header.read_eq_ok_iff (Header.trimmed_loopText identifier)).mpr derives, ?_⟩
    · exact (Header.read_eq_ok_iff (Header.trimmed_functionText identifier')).mpr
        (Header.derives_functionText named named')
    · exact (RangeSugar.read_eq_ok_iff (RangeSugar.trimmed_rangeText identifier')).mpr
        (RangeSugar.isSugar_rangeText named named')
  · rintro ⟨c, mem, stuck⟩
    have foreign : isName name = false ∨ isName param = false := by
      by_contra! both
      rw [Bool.ne_false_iff, Bool.ne_false_iff] at both
      have known := List.forall_mem_append.mpr
        ⟨(isName_iff identifier).mp both.1, (isName_iff identifier').mp both.2⟩
      rw [known c mem] at stuck
      cases stuck
    have inRange : c ∈ RangeSugar.rangeText name param := by
      rcases List.mem_append.mp mem with inName | inParam
      · exact List.mem_append_left _ (List.mem_append_left _ (List.mem_append_right _ inName))
      · exact List.mem_append_right _ inParam
    refine ⟨Header.read_eq_error (Header.read?_functionText identifier identifier' foreign),
      Header.read_eq_error (Header.read?_loopText identifier identifier' foreign), ?_⟩
    rw [RangeSugar.read, RangeSugar.bounds_of_isForeignNumber
      (RangeSugar.trimmed_rangeText identifier') inRange stuck]

/-- Identifiers of which one is a word of the grammar itself and one has a digit behind a letter
that is not ASCII; and an identifier that ends with a superscript. -/
theorem read_identifiers_words :
    let name := "in".toList
    let param := "größe2".toList
    let squared := "a²".toList
    Text.isIdentifier name = true ∧ Text.isIdentifier param = true ∧
      (∀ c ∈ name ++ param, isForeignNumber c = false) ∧
      Header.read 1 "function in define größe2".toList = .ok (.function name param) ∧
      Header.read 1 "for in, größe2 in in".toList = .ok (.forLoop [name, param] name) ∧
      RangeSugar.read 1 "range.in.größe2".toList = .ok [name, param] ∧
      Text.isIdentifier squared = true ∧ (∃ c ∈ squared ++ name, isForeignNumber c = true) ∧
      Header.read 1 (Header.loopText squared name squared) =
        .error (.classification 1 (Header.malformed (Header.loopText squared name squared))) := by
  intro name param squared
  have identifier : Text.isIdentifier name = true := by decide
  have identifier' : Text.isIdentifier param = true := by decide
  obtain ⟨identifier'', number⟩ :
      Text.isIdentifier squared = true ∧ isForeignNumber '²' = true := by
    decide +kernel
  have known : ∀ c ∈ name ++ param, isForeignNumber c = false := by
    have all : ((name ++ param).all fun c => !isForeignNumber c) = true := by decide
    intro c mem
    simpa using List.all_eq_true.mp all c mem
  have foreign : ∃ c ∈ squared ++ name, isForeignNumber c = true := ⟨'²', by decide, number⟩
  have function : Header.functionText name param = "function in define größe2".toList := by decide
  have loop : Header.loopText name param name = "for in, größe2 in in".toList := by decide
  have range : RangeSugar.rangeText name param = "range.in.größe2".toList := by decide
  obtain ⟨okFunction, okLoop, okRange⟩ := (read_identifiers 1 identifier identifier').1 known
  rw [function] at okFunction
  rw [loop] at okLoop
  rw [range] at okRange
  exact ⟨identifier, identifier', known, okFunction, okLoop, okRange, identifier'', foreign,
    ((read_identifiers 1 identifier'' identifier).2 foreign).2.1⟩

/-- A name with an Arabic digit is an identifier, but no function, loop or range can name it. -/
theorem read_arabicDigit :
    Text.isIdentifier "x٣".toList = true ∧ Text.isIdentifier "b".toList = true ∧
      Header.read 1 "function x٣ define b".toList =
        .error (.classification 1 "malformed 'function' header `function x٣ define b`") ∧
      Header.read 1 "for x٣, b in x٣".toList =
        .error (.classification 1 "malformed 'for' header `for x٣, b in x٣`") ∧
      RangeSugar.read 1 "range.x٣.b".toList =
        .error (.expression 1 "malformed range sugar `range.x٣.b`") := by
  decide +kernel

end Outline
