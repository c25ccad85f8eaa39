import Mathlib.Data.List.TakeWhile
import Outline.Header.Edition
import Outline.Proofs.Grammar

/-!
# The grammar of headers

`Header.Derives` says which texts are headers and which header each of them is, one rule for each
form. Reading tries the forms one after the other and never gives back what a piece has taken; on
trimmed texts it accepts exactly what the rules derive (`Header.read?_eq_some_iff`). Two things make
that so: the keyword at the front settles which form it can be, and a name that is followed by a
keyword has a space behind it, so the longest name is the only one.
-/

set_option autoImplicit false

namespace Outline

namespace Grammar

/-! ## Words one after the other -/

/-- A text that starts with a character of names. -/
def StartsWord [Letters] (s : Text) : Prop := ∃ c rest, s = c :: rest ∧ isNameChar c = true

theorem startsWord_append [Letters] {s : Text} (start : StartsWord s) (rest : Text) :
    StartsWord (s ++ rest) := by
  obtain ⟨c, tail, rfl, inName⟩ := start
  exact ⟨c, tail ++ rest, rfl, inName⟩

theorem startsWord_cons [Letters] {c : Char} (letter : Text.isWordStart c = true) (rest : Text) :
    StartsWord (c :: rest) :=
  ⟨c, rest, rfl, isNameChar_of_isNameStart (isNameStart_of_isWordStart letter)⟩

/-- A name starts with a character of names. -/
theorem startsWord_of_isName [Letters] {name : Text} (named : isName name = true) :
    StartsWord name := by
  obtain ⟨c, tail, rfl⟩ := List.exists_cons_of_ne_nil (ne_nil_of_isName named)
  exact ⟨c, tail, rfl, isNameChar_of_isName named c List.mem_cons_self⟩

/-- There is no gap before a character of names. -/
theorem StartsWord.skipGap_eq [Letters] {s : Text} (start : StartsWord s) : skipGap s = s := by
  obtain ⟨c, tail, rfl, inName⟩ := start
  exact skipGap_eq_self (stopsAt_cons (isGap_eq_false_of_isNameChar inName) _)

/-- A space ends a name. -/
theorem IsSpace.stopsAt [Letters] {space : Text} (isSpace : IsSpace space) (rest : Text) :
    StopsAt isNameChar (space ++ rest) := by
  obtain ⟨c, tail, rfl⟩ := List.exists_cons_of_ne_nil isSpace.filled
  exact stopsAt_cons (isNameChar_eq_false_of_isGap (isSpace.gap c List.mem_cons_self)) _

/-- A space is skipped up to the word behind it. -/
theorem IsSpace.skipGap_append [Letters] {space word : Text} (isSpace : IsSpace space)
    (start : StartsWord word) : skipGap (space ++ word) = word := by
  rw [Grammar.skipGap_append isSpace.gap, start.skipGap_eq]

/-- Where a word ends and the next one starts behind a gap, the gap is not empty. -/
theorem exists_space [Letters] {s word : Text} (stops : StopsAt isNameChar s)
    (next : skipGap s = word)
    (start : StartsWord word) : ∃ space, IsSpace space ∧ s = space ++ word := by
  obtain ⟨gap, isGap, parts⟩ := exists_eq_skipGap s
  rw [next] at parts
  refine ⟨gap, ⟨?_, isGap⟩, parts⟩
  rintro rfl
  obtain ⟨c, tail, rfl, inName⟩ := start
  rw [parts] at stops
  rw [stops c rfl] at inName
  cases inName

/-- What ends a text without a blank at its end has none there either. -/
theorem back_of_suffix {s : Text} (back : ∀ c ∈ s.getLast?, Text.isBlank c = false) (tail : Text)
    (suffix : tail <:+ s) : ∀ c ∈ tail.getLast?, Text.isBlank c = false := by
  obtain ⟨lead, rfl⟩ := suffix
  intro c last
  refine back c ?_
  rw [List.getLast?_append, Option.mem_def.mp last]
  rfl

end Grammar

namespace Header

open Grammar

/-! ## The rules -/

/-- Names separated by commas, perhaps with gaps around the commas. -/
inductive Lists [Letters] : Text → List Text → Prop
  | single {name : Text} (named : isName name = true) : Lists name [name]
  | cons {name before after more : Text} {names : List Text} (named : isName name = true)
      (gapBefore : IsGap before) (gapAfter : IsGap after) (others : Lists more names) :
      Lists (name ++ (before ++ ',' :: (after ++ more))) (name :: names)

/-- What stands behind a keyword to the end: something, and not more of a name. -/
structure IsRest [Letters] (rest : Text) : Prop where
  filled : rest ≠ []
  stops : StopsAt isNameChar rest

/-- The texts of headers, with the header that each of them is. Words that follow one another have
a space between them. -/
inductive Derives [Letters] : Text → Header → Prop
  | ifThen {rest : Text} (follows : IsRest rest) :
      Derives ("if".toList ++ rest) (.ifThen (Text.trim rest))
  | elifThen {rest : Text} (follows : IsRest rest) :
      Derives ("elif".toList ++ rest) (.elifThen (Text.trim rest))
  | whileLoop {rest : Text} (follows : IsRest rest) :
      Derives ("while".toList ++ rest) (.whileLoop (Text.trim rest))
  | otherwise : Derives "else".toList .otherwise
  | forLoop {space names space' rest : Text} {targets : List Text} (isSpace : IsSpace space)
      (listed : Lists names targets) (isSpace' : IsSpace space') (follows : IsRest rest) :
      Derives ("for".toList ++ (space ++ (names ++ (space' ++ ("in".toList ++ rest)))))
        (.forLoop targets (Text.trim rest))
  | function {space name space' space'' param : Text} (isSpace : IsSpace space)
      (named : isName name = true) (isSpace' : IsSpace space') (isSpace'' : IsSpace space'')
      (namedParam : isName param = true) :
      Derives
        ("function".toList ++ (space ++ (name ++ (space' ++ ("define".toList ++
          (space'' ++ param))))))
        (.function name param)

/-! ## Targets -/

/-- A list of names starts with a name. -/
theorem Lists.startsWord [Letters] {names : Text} {targets : List Text}
    (listed : Lists names targets) : StartsWord names := by
  cases listed with
  | single named => exact startsWord_of_isName named
  | cons named => exact startsWord_append (startsWord_of_isName named) _

/-- A further name of a list stands behind a comma, with gaps around the comma. -/
theorem readNextTarget?_eq_some [Letters] {s name rest : Text}
    (read : readNextTarget? s = some (name, rest)) :
    ∃ before after, IsGap before ∧ IsGap after ∧ s = before ++ ',' :: (after ++ (name ++ rest)) ∧
      isName name = true ∧ StopsAt isNameChar rest := by
  rw [readNextTarget?] at read
  split at read
  next tail comma =>
    obtain ⟨before, gapBefore, parts⟩ := exists_eq_skipGap s
    obtain ⟨after, gapAfter, tailParts⟩ := exists_eq_skipGap tail
    obtain ⟨whole, named, stops⟩ := readName?_eq_some_iff.mp read
    rw [comma, tailParts, whole] at parts
    exact ⟨before, after, gapBefore, gapAfter, parts, named, stops⟩
  next => cases read

/-- Behind a comma and its gaps, a name is read. -/
theorem readNextTarget?_comma [Letters] {before after s : Text} (gapBefore : IsGap before)
    (gapAfter : IsGap after) : readNextTarget? (before ++ ',' :: (after ++ s)) =
      readName? (skipGap s) := by
  have comma : skipGap (before ++ ',' :: (after ++ s)) = ',' :: (after ++ s) := by
    rw [skipGap_append gapBefore]
    exact skipGap_eq_self (stopsAt_cons (by decide) _)
  rw [readNextTarget?, comma]
  show readName? (skipGap (after ++ s)) = _
  rw [skipGap_append gapAfter]

theorem readMoreTargets_of_some [Letters] {s name rest : Text}
    (read : readNextTarget? s = some (name, rest)) :
    readMoreTargets s = (name :: (readMoreTargets rest).1, (readMoreTargets rest).2) := by
  rw [readMoreTargets]
  split
  next found =>
    rw [read] at found
    obtain ⟨rfl, rfl⟩ := Prod.mk.inj (Option.some.inj found)
    rfl
  next none =>
    rw [read] at none
    cases none

theorem readMoreTargets_of_none [Letters] {s : Text} (read : readNextTarget? s = none) :
    readMoreTargets s = ([], s) := by
  rw [readMoreTargets]
  split
  next found =>
    rw [read] at found
    cases found
  next => rfl

/-- The names that are read after a name make a list with it, and the last of them ends where the
reading does. -/
theorem lists_of_readMoreTargets [Letters] {name s : Text} (named : isName name = true)
    (stops : StopsAt isNameChar s) :
    ∃ more, Lists (name ++ more) (name :: (readMoreTargets s).1) ∧
      s = more ++ (readMoreTargets s).2 ∧ StopsAt isNameChar (readMoreTargets s).2 := by
  fun_induction readMoreTargets s generalizing name with
  | case1 s next rest read names after others ih =>
    obtain ⟨before, behind, gapBefore, gapBehind, rfl, namedNext, stopsNext⟩ :=
      readNextTarget?_eq_some read
    obtain ⟨more, listed, parts, stopsLast⟩ := ih namedNext stopsNext
    rw [others] at listed parts stopsLast
    refine ⟨before ++ ',' :: (behind ++ (next ++ more)), .cons named gapBefore gapBehind listed, ?_,
      stopsLast⟩
    rw [parts]
    simp
  | case2 s none =>
    refine ⟨[], ?_, rfl, stops⟩
    rw [List.append_nil]
    exact .single named

/-- The names that are read are those listed at the front of the text. -/
theorem lists_of_readTargets? [Letters] {s rest : Text} {targets : List Text}
    (read : readTargets? s = some (targets, rest)) :
    ∃ names, Lists names targets ∧ s = names ++ rest ∧ StopsAt isNameChar rest := by
  obtain ⟨⟨name, after⟩, first, more⟩ := Option.bind_eq_some_iff.mp read
  obtain ⟨rfl, rfl⟩ := Prod.mk.inj (Option.some.inj more)
  obtain ⟨rfl, named, stops⟩ := readName?_eq_some_iff.mp first
  obtain ⟨others, listed, parts, stopsLast⟩ := lists_of_readMoreTargets named stops
  refine ⟨name ++ others, listed, ?_, stopsLast⟩
  rw [List.append_assoc, ← parts]

/-- A list of names is its first name and those behind the commas. -/
theorem readTargets?_of_readName? [Letters] {s name rest : Text}
    (read : readName? s = some (name, rest)) :
    readTargets? s = some (name :: (readMoreTargets rest).1, (readMoreTargets rest).2) := by
  rw [readTargets?, read]
  rfl

/-- A list of names is read whole if no further target follows it. -/
theorem readTargets?_append [Letters] {names rest : Text} {targets : List Text}
    (listed : Lists names targets) (stops : StopsAt isNameChar rest)
    (last : readNextTarget? rest = none) : readTargets? (names ++ rest) = some (targets, rest) := by
  induction listed with
  | single named =>
    rw [readTargets?_of_readName? (readName?_append named stops), readMoreTargets_of_none last]
  | @cons name before after more names named gapBefore gapAfter others ih =>
    -- The names behind the comma are read as a list of their own, which starts where the name
    -- behind the comma is looked for.
    obtain ⟨⟨next, behind⟩, second, same⟩ := Option.bind_eq_some_iff.mp ih
    have next? : readNextTarget? (before ++ ',' :: (after ++ (more ++ rest))) =
        some (next, behind) := by
      rw [readNextTarget?_comma gapBefore gapAfter,
        (startsWord_append others.startsWord rest).skipGap_eq]
      exact second
    have ends : StopsAt isNameChar (before ++ ',' :: (after ++ (more ++ rest))) := by
      cases before with
      | nil => exact stopsAt_cons ((isNameChar_of_lt (by decide)).trans (by decide)) _
      | cons c before =>
        exact stopsAt_cons (isNameChar_eq_false_of_isGap (gapBefore c List.mem_cons_self)) _
    have whole : name ++ (before ++ ',' :: (after ++ more)) ++ rest =
        name ++ (before ++ ',' :: (after ++ (more ++ rest))) := by simp
    rw [whole, readTargets?_of_readName? (readName?_append named ends),
      readMoreTargets_of_some next?]
    obtain ⟨rfl, rfl⟩ := Prod.mk.inj (Option.some.inj same)
    rfl

/-! ## Forms -/

/-- The rest of a header is accepted if there is something, and is then trimmed. -/
theorem readRest?_eq_some_iff {rest text : Text}
    (back : ∀ c ∈ rest.getLast?, Text.isBlank c = false) :
    readRest? (skipGap rest) = some text ↔ rest ≠ [] ∧ text = Text.trim rest := by
  by_cases empty : rest = []
  · simp [empty, readRest?, skipGap]
  · have more : (skipGap rest).isEmpty = false := by
      rw [List.isEmpty_eq_false_iff]
      exact fun none => empty ((skipGap_eq_nil_iff back).mp none)
    rw [readRest?, more, if_neg (by decide), trim_skipGap, Option.some.injEq]
    exact ⟨fun same => ⟨empty, same.symm⟩, fun found => found.2.symm⟩

variable {s : Text} {header : Header}

/-- A header with a condition is its keyword and a rest. -/
theorem readCondition?_eq_some_iff [Letters] {keyword : String} {condition : Text}
    (back : ∀ c ∈ s.getLast?, Text.isBlank c = false) :
    readCondition? keyword s = some condition ↔
      ∃ rest, s = keyword.toList ++ rest ∧ IsRest rest ∧ condition = Text.trim rest := by
  constructor
  · intro read
    obtain ⟨rest, found, last⟩ := Option.bind_eq_some_iff.mp read
    obtain ⟨rfl, stops⟩ := readKeyword?_eq_some_iff.mp found
    have backRest := back_of_suffix back rest (List.suffix_append _ rest)
    obtain ⟨filled, same⟩ := (readRest?_eq_some_iff backRest).mp last
    exact ⟨rest, rfl, ⟨filled, stops⟩, same⟩
  · rintro ⟨rest, rfl, follows, same⟩
    have backRest := back_of_suffix back rest (List.suffix_append _ rest)
    refine Option.bind_eq_some_iff.mpr ⟨rest, readKeyword?_append _ follows.stops, ?_⟩
    exact (readRest?_eq_some_iff backRest).mpr ⟨follows.filled, same⟩

/-- The header `else` is the keyword alone. -/
theorem readElse?_eq_some_iff [Letters] (back : ∀ c ∈ s.getLast?, Text.isBlank c = false) :
    readElse? s = some header ↔ s = "else".toList ∧ header = .otherwise := by
  constructor
  · intro read
    have same := readElse?_eq_some read
    obtain ⟨rest, found, more⟩ := Option.bind_eq_some_iff.mp read
    obtain ⟨rfl, _⟩ := readKeyword?_eq_some_iff.mp found
    split at more
    next nothing =>
      have backRest := back_of_suffix back rest (List.suffix_append _ rest)
      rw [(skipGap_eq_nil_iff backRest).mp (List.isEmpty_iff.mp nothing)]
      exact ⟨rfl, same⟩
    next => cases more
  · rintro ⟨rfl, rfl⟩
    rfl

/-- A header that is read as a loop is one by the rule for loops. -/
theorem derives_of_readFor? [Letters] (back : ∀ c ∈ s.getLast?, Text.isBlank c = false)
    (read : readFor? s = some header) : Derives s header := by
  obtain ⟨rest, found, more⟩ := Option.bind_eq_some_iff.mp read
  obtain ⟨⟨targets, behind⟩, names, more⟩ := Option.bind_eq_some_iff.mp more
  obtain ⟨tail, keyword, more⟩ := Option.bind_eq_some_iff.mp more
  obtain ⟨iterable, last, more⟩ := Option.bind_eq_some_iff.mp more
  obtain rfl := Option.some.inj more
  obtain ⟨rfl, stops⟩ := readKeyword?_eq_some_iff.mp found
  obtain ⟨listing, listed, parts, ends⟩ := lists_of_readTargets? names
  obtain ⟨inside, stopsTail⟩ := readKeyword?_eq_some_iff.mp keyword
  obtain ⟨space, isSpace, rfl⟩ := exists_space stops parts (startsWord_append listed.startsWord _)
  obtain ⟨space', isSpace', rfl⟩ := exists_space ends inside
    (startsWord_cons (by decide) ('n' :: tail))
  have backTail := back_of_suffix back tail
    ⟨"for".toList ++ (space ++ (listing ++ (space' ++ "in".toList))), by simp⟩
  obtain ⟨filled, rfl⟩ := (readRest?_eq_some_iff backTail).mp last
  exact .forLoop isSpace listed isSpace' ⟨filled, stopsTail⟩

/-- A header that is read as a function is one by the rule for functions. -/
theorem derives_of_readFunction? [Letters] (back : ∀ c ∈ s.getLast?, Text.isBlank c = false)
    (read : readFunction? s = some header) : Derives s header := by
  obtain ⟨rest, found, more⟩ := Option.bind_eq_some_iff.mp read
  obtain ⟨⟨name, behind⟩, named, more⟩ := Option.bind_eq_some_iff.mp more
  obtain ⟨tail, keyword, more⟩ := Option.bind_eq_some_iff.mp more
  obtain ⟨⟨param, after⟩, last, more⟩ := Option.bind_eq_some_iff.mp more
  change (if _ then some (Header.function name param) else none) = some header at more
  split at more
  next nothing =>
    obtain rfl := Option.some.inj more
    obtain ⟨rfl, stops⟩ := readKeyword?_eq_some_iff.mp found
    obtain ⟨parts, isName, ends⟩ := readName?_eq_some_iff.mp named
    obtain ⟨define, stopsTail⟩ := readKeyword?_eq_some_iff.mp keyword
    obtain ⟨partsLast, isParam, _⟩ := readName?_eq_some_iff.mp last
    obtain ⟨space, isSpace, rfl⟩ :=
      exists_space stops parts (startsWord_append (startsWord_of_isName isName) _)
    obtain ⟨space', isSpace', rfl⟩ :=
      exists_space ends define (startsWord_cons (by decide) ("efine".toList ++ tail))
    obtain ⟨space'', isSpace'', rfl⟩ :=
      exists_space stopsTail partsLast (startsWord_append (startsWord_of_isName isParam) _)
    have backAfter := back_of_suffix back after
      ⟨"function".toList ++ (space ++ (name ++ (space' ++ ("define".toList ++
        (space'' ++ param))))), by simp⟩
    have none := (skipGap_eq_nil_iff backAfter).mp (List.isEmpty_iff.mp nothing)
    rw [none, List.append_nil]
    exact .function isSpace isName isSpace' isSpace'' isParam
  next => cases more

/-- A header by the rule for loops is read as that loop. -/
theorem readFor?_of_rule [Letters] {space names space' rest : Text} {targets : List Text}
    (isSpace : IsSpace space) (listed : Lists names targets) (isSpace' : IsSpace space')
    (follows : IsRest rest) (back : ∀ c ∈ rest.getLast?, Text.isBlank c = false) :
    readFor? ("for".toList ++ (space ++ (names ++ (space' ++ ("in".toList ++ rest))))) =
      some (.forLoop targets (Text.trim rest)) := by
  have inside : StartsWord ("in".toList ++ rest) := startsWord_cons (by decide) ('n' :: rest)
  have noComma : readNextTarget? (space' ++ ("in".toList ++ rest)) = none := by
    rw [readNextTarget?, isSpace'.skipGap_append inside]
    rfl
  refine Option.bind_eq_some_iff.mpr ⟨_, readKeyword?_append _ (isSpace.stopsAt _), ?_⟩
  refine Option.bind_eq_some_iff.mpr ⟨(targets, space' ++ ("in".toList ++ rest)), ?_, ?_⟩
  · rw [isSpace.skipGap_append (startsWord_append listed.startsWord _)]
    exact readTargets?_append listed (isSpace'.stopsAt _) noComma
  refine Option.bind_eq_some_iff.mpr ⟨rest, ?_, ?_⟩
  · rw [isSpace'.skipGap_append inside]
    exact readKeyword?_append _ follows.stops
  · exact Option.bind_eq_some_iff.mpr
      ⟨_, (readRest?_eq_some_iff back).mpr ⟨follows.filled, rfl⟩, rfl⟩

/-- A header by the rule for functions is read as that function. -/
theorem readFunction?_of_rule [Letters] {space name space' space'' param : Text}
    (isSpace : IsSpace space)
    (named : isName name = true) (isSpace' : IsSpace space') (isSpace'' : IsSpace space'')
    (namedParam : isName param = true) :
    readFunction? ("function".toList ++ (space ++ (name ++ (space' ++ ("define".toList ++
      (space'' ++ param)))))) = some (.function name param) := by
  have define : StartsWord ("define".toList ++ (space'' ++ param)) :=
    startsWord_cons (by decide) ("efine".toList ++ (space'' ++ param))
  refine Option.bind_eq_some_iff.mpr ⟨_, readKeyword?_append _ (isSpace.stopsAt _), ?_⟩
  refine Option.bind_eq_some_iff.mpr
    ⟨(name, space' ++ ("define".toList ++ (space'' ++ param))), ?_, ?_⟩
  · rw [isSpace.skipGap_append (startsWord_append (startsWord_of_isName named) _)]
    exact readName?_append named (isSpace'.stopsAt _)
  refine Option.bind_eq_some_iff.mpr ⟨space'' ++ param, ?_, ?_⟩
  · rw [isSpace'.skipGap_append define]
    exact readKeyword?_append _ (isSpace''.stopsAt _)
  refine Option.bind_eq_some_iff.mpr ⟨(param, []), ?_, rfl⟩
  rw [isSpace''.skipGap_append (startsWord_of_isName namedParam)]
  exact readName?_eq_some_iff.mpr ⟨(List.append_nil _).symm, namedParam, stopsAt_nil _⟩

/-! ## Whole headers -/

/-- The keyword that introduces a header. -/
def keyword : Header → Text
  | .ifThen _ => "if".toList
  | .elifThen _ => "elif".toList
  | .otherwise => "else".toList
  | .whileLoop _ => "while".toList
  | .forLoop .. => "for".toList
  | .function .. => "function".toList

/-- The name at the front of a header is its keyword. -/
theorem Derives.takeWhile_eq [Letters] (derives : Derives s header) :
    s.takeWhile isNameChar = header.keyword := by
  cases derives with
  | ifThen follows | elifThen follows | whileLoop follows =>
    exact follows.stops.takeWhile_append (List.all_eq_true.mp (all_isNameChar (by decide)))
  | otherwise =>
    exact List.takeWhile_eq_self_iff.mpr (List.all_eq_true.mp (all_isNameChar (by decide)))
  | forLoop isSpace | function isSpace =>
    exact (isSpace.stopsAt _).takeWhile_append (List.all_eq_true.mp (all_isNameChar (by decide)))

/-- A header with another first word is no function. -/
theorem readFunction?_eq_none [Letters] (other : s.takeWhile isNameChar ≠ "function".toList) :
    readFunction? s = none := by
  rw [readFunction?, readKeyword?_eq_none (all_isNameChar (by decide)) other]
  rfl

/-- A header with another first word is no loop. -/
theorem readFor?_eq_none [Letters] (other : s.takeWhile isNameChar ≠ "for".toList) :
    readFor? s = none := by
  rw [readFor?, readKeyword?_eq_none (all_isNameChar (by decide)) other]
  rfl

/-- A header with another first word does not have this keyword. -/
theorem readCondition?_eq_none [Letters] {keyword : String}
    (letters : keyword.toList.all isNameChar = true)
    (other : s.takeWhile isNameChar ≠ keyword.toList) : readCondition? keyword s = none := by
  rw [readCondition?, readKeyword?_eq_none letters other]
  rfl

/-- A text is no header if it is refused as a function and as a loop and none of the other keywords
stands at its front. -/
theorem read?_eq_none [Letters] (trimmed : Text.Trimmed s) (noFunction : readFunction? s = none)
    (noFor : readFor? s = none)
    (others : s.takeWhile isNameChar ∉ ["elif", "if", "while", "else"].map String.toList) :
    read? s = none := by
  have other {word : String} (mem : word ∈ ["elif", "if", "while", "else"]) :
      s.takeWhile isNameChar ≠ word.toList := by
    intro same
    rw [same] at others
    exact others (List.mem_map_of_mem mem)
  have noElse : readElse? s = none := by
    rw [readElse?, readKeyword?_eq_none (all_isNameChar (by decide)) (other (by decide))]
    rfl
  rw [read?, skipGap_of_trimmed trimmed, noFunction, noFor,
    readCondition?_eq_none (all_isNameChar (by decide)) (other (by decide)),
    readCondition?_eq_none (all_isNameChar (by decide)) (other (by decide)),
    readCondition?_eq_none (all_isNameChar (by decide)) (other (by decide)), noElse]
  rfl

/-- A header that is read is one by the rules. -/
theorem derives_of_read? [Letters] (trimmed : Text.Trimmed s) (read : read? s = some header) :
    Derives s header := by
  have back := trimmed.back
  have cases := read?_cases read
  rw [skipGap_of_trimmed trimmed] at cases
  rcases cases with found | found | ⟨condition, found, rfl⟩ | ⟨condition, found, rfl⟩ |
    ⟨condition, found, rfl⟩ | found
  · exact derives_of_readFunction? back found
  · exact derives_of_readFor? back found
  · obtain ⟨rest, rfl, follows, rfl⟩ := (readCondition?_eq_some_iff back).mp found
    exact .elifThen follows
  · obtain ⟨rest, rfl, follows, rfl⟩ := (readCondition?_eq_some_iff back).mp found
    exact .ifThen follows
  · obtain ⟨rest, rfl, follows, rfl⟩ := (readCondition?_eq_some_iff back).mp found
    exact .whileLoop follows
  · obtain ⟨rfl, rfl⟩ := (readElse?_eq_some_iff back).mp found
    exact .otherwise

/-- A header by the rules is read. The first word tells which rule it can be. -/
theorem read?_of_derives [Letters] (trimmed : Text.Trimmed s) (derives : Derives s header) :
    read? s = some header := by
  have back := trimmed.back
  have word := derives.takeWhile_eq
  -- The forms tried before the right one have other keywords, so each of them is refused.
  have other (own : String) (same : header.keyword = own.toList) {tried : Text}
      (differ : own.toList ≠ tried) : s.takeWhile isNameChar ≠ tried := by
    rw [word, same]
    exact differ
  rw [read?, skipGap_of_trimmed trimmed]
  cases derives with
  | function isSpace named isSpace' isSpace'' namedParam =>
    rw [readFunction?_of_rule isSpace named isSpace' isSpace'' namedParam]
    rfl
  | @forLoop space names space' rest targets isSpace listed isSpace' follows =>
    have backRest := back_of_suffix back rest
      ⟨"for".toList ++ (space ++ (names ++ (space' ++ "in".toList))), by simp⟩
    rw [readFunction?_eq_none (other "for" rfl (by decide)),
      readFor?_of_rule isSpace listed isSpace' follows backRest]
    rfl
  | @elifThen rest follows =>
    rw [readFunction?_eq_none (other "elif" rfl (by decide)),
      readFor?_eq_none (other "elif" rfl (by decide)),
      (readCondition?_eq_some_iff back).mpr ⟨rest, rfl, follows, rfl⟩]
    rfl
  | @ifThen rest follows =>
    rw [readFunction?_eq_none (other "if" rfl (by decide)),
      readFor?_eq_none (other "if" rfl (by decide)),
      readCondition?_eq_none (all_isNameChar (by decide)) (other "if" rfl (by decide)),
      (readCondition?_eq_some_iff back).mpr ⟨rest, rfl, follows, rfl⟩]
    rfl
  | @whileLoop rest follows =>
    rw [readFunction?_eq_none (other "while" rfl (by decide)),
      readFor?_eq_none (other "while" rfl (by decide)),
      readCondition?_eq_none (all_isNameChar (by decide)) (other "while" rfl (by decide)),
      readCondition?_eq_none (all_isNameChar (by decide)) (other "while" rfl (by decide)),
      (readCondition?_eq_some_iff back).mpr ⟨rest, rfl, follows, rfl⟩]
    rfl
  | otherwise => rfl

/-- Reading accepts the texts of the grammar and no others. -/
theorem read?_eq_some_iff [Letters] (trimmed : Text.Trimmed s) :
    read? s = some header ↔ Derives s header :=
  ⟨derives_of_read? trimmed, read?_of_derives trimmed⟩

/-- The word that a text starts with, if it is a keyword, is the keyword of the header that the text
is. -/
theorem Derives.keyword_eq [Letters] {word : Text} (derives : Derives s header)
    (found : keyword? s = some word) : header.keyword = word := by
  rw [keyword?] at found
  split at found
  next known =>
    obtain rfl := Option.some.inj found
    have letters : (keywords.all fun keyword => keyword.all Text.isWordStart) = true := by decide
    have fromHeader : header.keyword ∈ keywords :=
      List.contains_iff_mem.mp (by cases header <;> rfl)
    have both {keyword : Text} (mem : keyword ∈ keywords) :
        keyword.takeWhile isNameChar = keyword ∧ keyword.takeWhile Text.isWordChar = keyword := by
      have all := List.all_eq_true.mp letters keyword mem
      have words : ∀ c ∈ keyword, Text.isWordChar c = true := fun c inKeyword =>
        Text.isWordChar_of_isWordStart (List.all_eq_true.mp all c inKeyword)
      exact ⟨List.takeWhile_eq_self_iff.mpr (List.all_eq_true.mp (all_isNameChar all)),
        List.takeWhile_eq_self_iff.mpr words⟩
    -- Both words are what is left when the text is cut by both classes of characters.
    calc header.keyword
        = header.keyword.takeWhile Text.isWordChar := (both fromHeader).2.symm
      _ = (s.takeWhile isNameChar).takeWhile Text.isWordChar := by rw [derives.takeWhile_eq]
      _ = (s.takeWhile Text.isWordChar).takeWhile isNameChar := by
        rw [List.takeWhile_takeWhile, List.takeWhile_takeWhile]
        congr 1
        funext c
        exact decide_eq_decide.mpr and_comm
      _ = Text.leadingWord s := (both (List.contains_iff_mem.mp known)).1
  next => cases found

/-- The headers that are accepted are those by the rules. -/
theorem read_eq_ok_iff [Letters] {line : Nat} (trimmed : Text.Trimmed s) :
    read line s = .ok header ↔ Derives s header := by
  rw [← read?_eq_some_iff trimmed, read]
  cases read? s <;> simp

theorem read_eq_error [Letters] {line : Nat} (none : read? s = none) :
    read line s = .error (.classification line (malformed s)) := by
  rw [read, none]

/-- A trimmed text is read as a header exactly when the grammar derives that header from it; all
other texts are refused on their line. If the text starts with a header keyword, the header is one
that this keyword introduces. -/
theorem read_grammar [Letters] (line : Nat) {s : Text} (trimmed : Text.Trimmed s) :
    (∀ header, read line s = .ok header ↔ Derives s header) ∧
      ((∀ header, ¬ Derives s header) →
        read line s = .error (.classification line (malformed s))) ∧
      ∀ word header, keyword? s = some word → read line s = .ok header → header.keyword = word := by
  refine ⟨fun header => read_eq_ok_iff trimmed, ?_, ?_⟩
  · intro underivable
    refine read_eq_error (Option.eq_none_iff_forall_ne_some.mpr fun header found => ?_)
    exact underivable header (derives_of_read? trimmed found)
  · intro word header found ok
    exact ((read_eq_ok_iff trimmed).mp ok).keyword_eq found

/-- A loop whose targets are themselves words of the grammar, and a text in which the last target
takes the place of the word `in`. -/
theorem read_grammar_targets :
    let loop := "for in,\tdefine  in in(x)".toList
    let swallowed := "for x, in y".toList
    Text.Trimmed loop ∧ keyword? loop = some "for".toList ∧
      read 3 loop = .ok (.forLoop ["in".toList, "define".toList] "in(x)".toList) ∧
      Text.Trimmed swallowed ∧ (∀ header, ¬ Derives swallowed header) ∧
      read 3 swallowed = .error (.classification 3 (malformed swallowed)) := by
  intro loop swallowed
  have trimmed : Text.Trimmed loop := Text.trimmed_trim " for in,\tdefine  in in(x)".toList
  have trimmedOpen : Text.Trimmed swallowed := Text.trimmed_trim " for x, in y".toList
  have listed : Lists ("in".toList ++ ([] ++ ',' :: (['\t'] ++ "define".toList)))
      ["in".toList, "define".toList] :=
    .cons (by decide) (by decide) (by decide) (.single (by decide))
  have derives : Derives ("for".toList ++ ([' '] ++ ("in,\tdefine".toList ++ ([' ', ' '] ++
      ("in".toList ++ " in(x)".toList)))))
        (.forLoop ["in".toList, "define".toList] "in(x)".toList) :=
    .forLoop ⟨by decide, by decide⟩ listed ⟨by decide, by decide⟩ ⟨by decide, by decide⟩
  have refused : read? swallowed = none := by decide +kernel
  have underivable (header : Header) : ¬ Derives swallowed header := by
    intro derived
    have ok := ((read_grammar 3 trimmedOpen).1 header).mpr derived
    rw [read, refused] at ok
    cases ok
  exact ⟨trimmed, by decide, ((read_grammar 3 trimmed).1 _).mpr derives, trimmedOpen, underivable,
    (read_grammar 3 trimmedOpen).2.1 underivable⟩

end Header
end Outline
