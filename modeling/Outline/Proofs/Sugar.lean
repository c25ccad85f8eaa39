import Mathlib.Data.List.Basic
import Outline.Header.Edition
import Outline.Program.Basic
import Outline.Proofs.HeaderGrammar

/-!
# Range sugar in headers and in values

Range sugar is read twice: when a loop is given its role, and again when its value becomes an
expression. The first reading follows the grammar of headers (`RangeSugar.bounds_eq_ok_iff`). The
second first takes the longest run of characters that may belong to the sugar, and these are the
characters of words. So both readings agree exactly on the sugar whose names are identifiers
(`RangeSugar.calls_iff`): a letter that only headers know ends the run too early.
-/

set_option autoImplicit false

namespace Outline

/-! ## The form of range sugar -/

namespace RangeSugar

open Grammar

/-- The form of range sugar: the word `range` and two or three bounds, joined by dots. -/
structure IsSugar [Letters] (s : Text) (found : List Text) : Prop where
  whole : s = "range.".toList ++ ['.'].intercalate found
  count : found.length = 2 ∨ found.length = 3
  bound : ∀ bound ∈ found, isInteger bound = true ∨ isName bound = true

theorem IsSugar.filled [Letters] {s : Text} {found : List Text} (sugar : IsSugar s found) :
    found ≠ [] := by
  rintro rfl
  rcases sugar.count with none | none <;> cases none

/-- Texts each behind a dot. -/
def dotted (parts : List Text) : Text := parts.flatMap ('.' :: ·)

theorem dotted_eq_cons {parts : List Text} (filled : parts ≠ []) :
    dotted parts = '.' :: ['.'].intercalate parts := by
  induction parts with
  | nil => exact absurd rfl filled
  | cons first rest ih =>
    cases rest with
    | nil => simp [dotted]
    | cons second rest =>
      have more := ih (List.cons_ne_nil _ _)
      rw [dotted] at more
      rw [dotted, List.flatMap_cons, more, List.intercalate_cons_cons]
      simp

theorem stopsAt_dotted {p : Char → Bool} (dot : p '.' = false) (parts : List Text) :
    StopsAt p (dotted parts) := by
  cases parts with
  | nil => exact stopsAt_nil p
  | cons first rest => exact stopsAt_cons dot _

/-- A name is not taken for an integer. -/
theorem readInteger?_of_isName [Letters] {name : Text} (named : isName name = true) (rest : Text) :
    readInteger? (name ++ rest) = none := by
  cases read : readInteger? (name ++ rest) with
  | none => rfl
  | some pair =>
    obtain ⟨digits, after⟩ := pair
    obtain ⟨whole, integer, _⟩ := readInteger?_eq_some_iff.mp read
    cases name with
    | nil => cases named
    | cons c name =>
      cases digits with
      | nil => cases integer
      | cons d digits =>
        obtain ⟨rfl, _⟩ := List.cons.inj whole
        rw [isName, Bool.and_eq_true] at named
        rw [isInteger] at integer
        split at integer
        next minus =>
          exact absurd minus
            (ne_of_isNameChar (isNameChar_of_isNameStart named.1) (by decide) (by decide))
        next =>
          have digit := (isDigits_cons.mp integer).1
          rw [isNameStart_eq_false_of_isDigit digit] at named
          cases named.1

/-- A component stands behind a dot, and is an integer or a name. -/
theorem readComponent?_eq_some [Letters] {s component rest : Text}
    (read : readComponent? s = some (component, rest)) :
    s = '.' :: (component ++ rest) ∧ (isInteger component = true ∨ isName component = true) := by
  unfold readComponent? at read
  split at read
  next tail =>
    cases integer : readInteger? tail with
    | some pair =>
      rw [integer] at read
      obtain rfl := Option.some.inj read
      obtain ⟨rfl, isInteger, _⟩ := readInteger?_eq_some_iff.mp integer
      exact ⟨rfl, .inl isInteger⟩
    | none =>
      rw [integer] at read
      obtain ⟨rfl, named, _⟩ := readName?_eq_some_iff.mp read
      exact ⟨rfl, .inr named⟩
  next => cases read

/-- A bound is read whole where another dot follows, or nothing. -/
theorem readComponent?_dotted [Letters] {bound : Text}
    (kind : isInteger bound = true ∨ isName bound = true) (parts : List Text) :
    readComponent? ('.' :: (bound ++ dotted parts)) = some (bound, dotted parts) := by
  show (readInteger? (bound ++ dotted parts) <|> readName? (bound ++ dotted parts)) = _
  rcases kind with integer | named
  · rw [readInteger?_eq_some_iff.mpr ⟨rfl, integer, stopsAt_dotted (by decide) parts⟩]
    rfl
  · rw [readInteger?_of_isName named,
      readName?_append named
        (stopsAt_dotted ((isNameChar_of_lt (by decide)).trans (by decide)) parts)]
    rfl

/-- The components are at the front, each behind a dot. -/
theorem readComponents_eq [Letters] (s : Text) :
    s = dotted (readComponents s).1 ++ (readComponents s).2 ∧
      ∀ bound ∈ (readComponents s).1, isInteger bound = true ∨ isName bound = true := by
  fun_induction readComponents s with
  | case1 s component rest read components after more ih =>
    rw [more] at ih
    obtain ⟨parts, kinds⟩ := ih
    obtain ⟨rfl, kind⟩ := readComponent?_eq_some read
    refine ⟨?_, List.forall_mem_cons.mpr ⟨kind, kinds⟩⟩
    conv_lhs => rw [parts]
    simp [dotted]
  | case2 s none =>
    refine ⟨rfl, ?_⟩
    intro bound mem
    cases mem

/-- Integers and names behind dots are read as components. -/
theorem readComponents_dotted [Letters] {parts : List Text}
    (kinds : ∀ bound ∈ parts, isInteger bound = true ∨ isName bound = true) :
    readComponents (dotted parts) = (parts, []) := by
  induction parts with
  | nil => rw [readComponents]; rfl
  | cons bound parts ih =>
    have first := readComponent?_dotted (kinds bound List.mem_cons_self) parts
    have more := ih fun other mem => kinds other (List.mem_cons_of_mem _ mem)
    rw [dotted, List.flatMap_cons, List.cons_append, ← dotted, readComponents]
    split
    next found =>
      rw [first] at found
      obtain ⟨rfl, rfl⟩ := Prod.mk.inj (Option.some.inj found)
      rw [more]
    next none =>
      rw [first] at none
      cases none

/-- Range sugar has the integers and names behind its dots for components, at least one. -/
theorem components?_eq_some_iff [Letters] {s : Text} {found : List Text}
    (trimmed : Text.Trimmed s) : components? s = some found ↔
      s = "range".toList ++ dotted found ∧ found ≠ [] ∧
        ∀ bound ∈ found, isInteger bound = true ∨ isName bound = true := by
  rw [components?, skipGap_of_trimmed trimmed]
  constructor
  · intro read
    obtain ⟨rest, front, more⟩ := Option.bind_eq_some_iff.mp read
    obtain rfl := Text.after?_eq_some_iff.mp front
    change (if _ then none else some (readComponents rest).1) = some found at more
    split at more
    next => cases more
    next accepted =>
      obtain rfl := Option.some.inj more
      obtain ⟨parts, kinds⟩ := readComponents_eq rest
      simp only [Bool.or_eq_true, not_or, Bool.not_eq_true, Bool.not_eq_false',
        List.isEmpty_iff] at accepted
      have back := back_of_suffix trimmed.back (readComponents rest).2
        ⟨"range".toList ++ dotted (readComponents rest).1, by rw [List.append_assoc, ← parts]⟩
      rw [(skipGap_eq_nil_iff back).mp accepted.2, List.append_nil] at parts
      exact ⟨by rw [← parts], accepted.1, kinds⟩
  · rintro ⟨rfl, filled, kinds⟩
    refine Option.bind_eq_some_iff.mpr ⟨dotted found, Text.after?_eq_some_iff.mpr rfl, ?_⟩
    rw [readComponents_dotted kinds]
    show (if (found.isEmpty || _) = true then none else some found) = some found
    rw [List.isEmpty_eq_false_iff.mpr filled]
    rfl

/-- Range sugar is read exactly where it has its form, and its bounds are the texts between the
dots. -/
theorem bounds_eq_ok_iff [Letters] {s : Text} {found : List Text} (trimmed : Text.Trimmed s) :
    bounds s = .ok found ↔ IsSugar s found := by
  have join (parts : List Text) (filled : parts ≠ []) :
      "range".toList ++ dotted parts = "range.".toList ++ ['.'].intercalate parts := by
    rw [dotted_eq_cons filled]
    rfl
  rw [bounds]
  constructor
  · intro ok
    split at ok
    next => cases ok
    next components read =>
      obtain ⟨whole, filled, kinds⟩ := (components?_eq_some_iff trimmed).mp read
      split at ok
      next count =>
        obtain rfl := Except.ok.inj ok
        exact ⟨by rw [whole, join _ filled], count, kinds⟩
      next => cases ok
  · rintro ⟨whole, count, kinds⟩
    have filled := IsSugar.filled ⟨whole, count, kinds⟩
    rw [(components?_eq_some_iff trimmed).mpr ⟨by rw [whole, join _ filled], filled, kinds⟩]
    exact if_pos count

/-- A bound is made of the characters of names, with a minus sign perhaps. -/
theorem isNameChar_of_mem_bound [Letters] {bound : Text}
    (kind : isInteger bound = true ∨ isName bound = true) {c : Char} (mem : c ∈ bound) :
    c = '-' ∨ isNameChar c = true := by
  have digit {d : Char} (isDigit : d.isDigit = true) : isNameChar d = true := by
    rw [isNameChar, isDigit, Bool.or_true, Bool.true_or]
  rcases kind with integer | named
  · cases bound with
    | nil => cases mem
    | cons first rest =>
      rw [isInteger] at integer
      split at integer
      next minus =>
        rw [isDigits, Bool.and_eq_true, List.all_eq_true] at integer
        rcases List.mem_cons.mp mem with rfl | later
        · exact .inl minus
        · exact .inr (digit (integer.2 c later))
      next =>
        rw [isDigits, Bool.and_eq_true, List.all_eq_true] at integer
        exact .inr (digit (integer.2 c mem))
  · exact .inr (isNameChar_of_isName named c mem)

/-- Range sugar holds no quote and no bracket. -/
theorem IsSugar.isNeutral [Letters] {s : Text} {found : List Text} (sugar : IsSugar s found) :
    ∀ c ∈ s, Nesting.isNeutral c = true := by
  intro c mem
  rw [sugar.whole, List.mem_append] at mem
  rcases mem with word | joined
  · exact List.all_eq_true.mp (by decide) c word
  · rcases Text.mem_intercalate joined with dot | ⟨bound, inFound, inBound⟩
    · obtain rfl := List.mem_singleton.mp dot
      rfl
    · rcases isNameChar_of_mem_bound (sugar.bound bound inFound) inBound with rfl | inName
      · rfl
      · exact isNeutral_of_isNameChar inName

end RangeSugar

/-! ## The run of characters that a value takes for sugar -/

namespace Token

open Grammar RangeSugar

theorem cutSugar_congr {s : Text} (plain : s.head? ≠ some '-') (previous previous' : Char) :
    cutSugar previous s = cutSugar previous' s := by
  cases s with
  | nil => rfl
  | cons c rest =>
    have notMinus : (c == '-') = false := by
      rw [beq_eq_false_iff_ne]
      rintro rfl
      exact plain rfl
    rw [cutSugar, cutSugar, notMinus, Bool.false_and, Bool.false_and]

theorem cutSugar_words {run rest : Text} (words : ∀ c ∈ run, Text.isWordChar c = true)
    (plain : rest.head? ≠ some '-') (previous previous' : Char) :
    cutSugar previous (run ++ rest) =
      (run ++ (cutSugar previous' rest).1, (cutSugar previous' rest).2) := by
  induction run generalizing previous with
  | nil => exact cutSugar_congr plain previous previous'
  | cons c run ih =>
    have more := ih (fun d mem => words d (List.mem_cons_of_mem _ mem)) c
    rw [List.cons_append, cutSugar, words c List.mem_cons_self, Bool.true_or, Bool.true_or,
      if_pos rfl, more]
    rfl

/-- A bound of the characters of words goes into the run whole. -/
theorem cutSugar_bound {bound rest : Text}
    (kind : isInteger bound = true ∨ Text.isIdentifier bound = true)
    (plain : rest.head? ≠ some '-') (previous previous' : Char) :
    cutSugar previous ('.' :: (bound ++ rest)) =
      ('.' :: (bound ++ (cutSugar previous' rest).1), (cutSugar previous' rest).2) := by
  have words {digits : Text} (isDigits : Grammar.isDigits digits = true) :
      ∀ c ∈ digits, Text.isWordChar c = true := by
    rw [Grammar.isDigits, Bool.and_eq_true, List.all_eq_true] at isDigits
    exact fun c mem => Text.isWordChar_of_isDigit (isDigits.2 c mem)
  have behind : cutSugar '.' (bound ++ rest) =
      (bound ++ (cutSugar previous' rest).1, (cutSugar previous' rest).2) := by
    rcases kind with integer | identifier
    · cases bound with
      | nil => cases integer
      | cons c digits =>
        rw [isInteger] at integer
        split at integer
        next minus =>
          subst minus
          rw [List.cons_append, cutSugar, if_pos (by decide),
            cutSugar_words (words integer) plain '-' previous']
          rfl
        next => exact cutSugar_words (words integer) plain '.' previous'
    · exact cutSugar_words (Text.isWordChar_of_mem_identifier identifier) plain '.' previous'
  rw [cutSugar, if_pos (by simp), behind]

/-- The cut takes all integers and identifiers behind dots. -/
theorem cutSugar_dotted {parts : List Text}
    (kinds : ∀ bound ∈ parts, isInteger bound = true ∨ Text.isIdentifier bound = true)
    (previous : Char) : cutSugar previous (dotted parts) = (dotted parts, []) := by
  induction parts generalizing previous with
  | nil => rfl
  | cons bound parts ih =>
    have more := ih (fun other mem => kinds other (List.mem_cons_of_mem _ mem)) previous
    have plain : (dotted parts).head? ≠ some '-' := by
      cases parts with
      | nil => decide
      | cons first rest =>
        show some '.' ≠ some '-'
        decide
    rw [dotted, List.flatMap_cons, List.cons_append, ← dotted,
      cutSugar_bound (kinds bound List.mem_cons_self) plain previous previous, more]

/-- The cut takes characters of words, dots and minus signs only. -/
theorem mem_cutSugar {previous c : Char} {s : Text} (mem : c ∈ (cutSugar previous s).1) :
    Text.isWordChar c = true ∨ c = '.' ∨ c = '-' := by
  induction s generalizing previous with
  | nil => cases mem
  | cons d rest ih =>
    rw [cutSugar] at mem
    split at mem
    next taken =>
      rcases List.mem_cons.mp mem with rfl | later
      · simp only [Bool.or_eq_true, Bool.and_eq_true, beq_iff_eq] at taken
        rcases taken with (word | dot) | ⟨minus, _⟩
        · exact .inl word
        · exact .inr (.inl dot)
        · exact .inr (.inr minus)
      · exact ih later
    next => cases mem

/-- The word `range` with a dot behind it makes one token with the run that follows. -/
theorem readAll_sugar (rest : Text) :
    readAll ("range".toList ++ '.' :: rest) =
      .range ("range".toList ++ (cutSugar 'e' ('.' :: rest)).1) ::
        readAllFrom false (cutSugar 'e' ('.' :: rest)).2 := by
  have word : Text.leadingWord ("range".toList ++ '.' :: rest) = "range".toList :=
    (stopsAt_cons (by decide) rest).takeWhile_append (List.all_eq_true.mp (by decide))
  have after : Text.afterWord ("range".toList ++ '.' :: rest) = '.' :: rest :=
    (stopsAt_cons (by decide) rest).dropWhile_append (List.all_eq_true.mp (by decide))
  have first : read false 'r' ("ange".toList ++ '.' :: rest) =
      (.range ("range".toList ++ (cutSugar 'e' ('.' :: rest)).1),
        (cutSugar 'e' ('.' :: rest)).2) := by
    rw [read, if_neg (by decide), if_pos (by decide)]
    change readWord false (Text.leadingWord ("range".toList ++ '.' :: rest))
      (Text.afterWord ("range".toList ++ '.' :: rest)) = _
    rw [word, after, readWord, if_neg (by decide), if_neg (by decide), if_pos ⟨rfl, rfl⟩]
  show readAllFrom false ('r' :: ("ange".toList ++ '.' :: rest)) = _
  rw [readAllFrom, first]
  rfl

end Token

/-! ## Letters that only headers know -/

namespace Grammar

/-- A character of words that starts names starts words: a number of any script is a letter in
headers only if it is alphabetic. -/
theorem isWordStart_of_isNameStart [Letters] {c : Char} (start : isNameStart c = true)
    (word : Text.isWordChar c = true) : Text.isWordStart c = true := by
  rw [Text.isWordStart, Bool.or_eq_true]
  rw [isNameStart, Bool.or_eq_true] at start
  rw [Text.isWordChar, Bool.or_eq_true, Bool.or_eq_true] at word
  rcases start with letter | underscore
  · rcases word with (alphabetic | numeric) | underscore
    · exact .inl alphabetic
    · exact .inl (Letters.number numeric letter)
    · exact .inr underscore
  · exact .inr underscore

/-- A name that is no identifier holds a letter that is no character of words. -/
theorem exists_of_not_isIdentifier [Letters] {name : Text} (named : isName name = true)
    (other : Text.isIdentifier name = false) : ∃ c ∈ name, Text.isWordChar c = false := by
  by_contra none
  have words : ∀ c ∈ name, Text.isWordChar c = true := by
    intro c mem
    by_contra outside
    exact none ⟨c, mem, by simpa using outside⟩
  cases name with
  | nil => cases named
  | cons c rest =>
    rw [isName, Bool.and_eq_true] at named
    have start := isWordStart_of_isNameStart named.1 (words c List.mem_cons_self)
    have more : rest.all Text.isWordChar = true :=
      List.all_eq_true.mpr fun d mem => words d (List.mem_cons_of_mem _ mem)
    rw [Text.isIdentifier, start, more] at other
    cases other

end Grammar

/-! ## Both readings -/

theorem Expression.read_eq_ok_iff [Letters] {line : Nat} {raw : Text} {e : Expression} :
    Expression.read line raw = .ok e ↔ Expression.ofText raw = .ok e := by
  rw [Expression.read]
  cases Expression.ofText raw <;> simp

namespace RangeSugar

open Grammar

/-- The text of the call that range sugar with given bounds stands for. -/
def callText (found : List Text) : Text := "range(".toList ++ [',', ' '].intercalate found ++ [')']

/-- The call that range sugar with given bounds stands for: it refers to the names among them, and
takes no members. -/
structure Calls [Letters] (found : List Text) (e : Expression) : Prop where
  text : e.text = callText found
  references : ∀ name, name ∈ e.references ↔ name ∈ found ∧ isName name = true
  noMembers : ∀ name, name ∉ e.memberRoots

variable {s : Text} {found : List Text}

/-- An integer starts no word. -/
theorem isWordStart_head_of_isInteger {bound : Text} (integer : isInteger bound = true) :
    bound.head?.any Text.isWordStart = false := by
  cases bound with
  | nil => rfl
  | cons c rest =>
    rw [isInteger] at integer
    split at integer
    next minus =>
      subst minus
      rfl
    next => exact Text.isWordStart_eq_false_of_isDigit (isDigits_cons.mp integer).1

/-- Sugar whose names are identifiers becomes a call with its bounds. -/
theorem exists_calls [Letters] (trimmed : Text.Trimmed s) (sugar : IsSugar s found)
    (identifiers : ∀ bound ∈ found, isName bound = true → Text.isIdentifier bound = true) :
    ∃ e, Expression.ofText s = .ok e ∧ Calls found e := by
  have kinds : ∀ bound ∈ found, isInteger bound = true ∨ Text.isIdentifier bound = true :=
    fun bound mem => (sugar.bound bound mem).imp_right (identifiers bound mem)
  have run := Token.cutSugar_dotted kinds 'e'
  rw [dotted_eq_cons sugar.filled] at run
  have tokens : Token.readAll s = [.range s] := by
    rw [sugar.whole]
    change Token.readAll ("range".toList ++ '.' :: ['.'].intercalate found) = _
    rw [Token.readAll_sugar, run, Token.readAllFrom]
    rfl
  have call : Expression.ofRange s = .ok
      { text := callText found
        references := .ofList (found.filter fun bound => bound.head?.any Text.isWordStart) } := by
    rw [Expression.ofRange, (bounds_eq_ok_iff trimmed).mpr sugar]
    rfl
  rw [Expression.ofText_eq, Text.trim_eq_self trimmed, tokens, Expression.ofTokens]
  refine ⟨_, bind_eq_ok.mpr ⟨[], rfl, bind_eq_ok.mpr ⟨_, call, bind_eq_ok.mpr ⟨{}, rfl, rfl⟩⟩⟩,
    List.append_nil _, fun name => ?_, fun name => ?_⟩
  · show name ∈ NameSet.union (.ofList _) .empty ↔ _
    rw [NameSet.mem_union, NameSet.mem_ofList, List.mem_filter]
    constructor
    · rintro (⟨mem, start⟩ | none)
      · refine ⟨mem, (sugar.bound name mem).resolve_left fun integer => ?_⟩
        rw [isWordStart_head_of_isInteger integer] at start
        cases start
      · exact absurd none (NameSet.not_mem_empty name)
    · rintro ⟨mem, named⟩
      refine .inl ⟨mem, ?_⟩
      have identifier := identifiers name mem named
      cases name with
      | nil => cases named
      | cons c rest =>
        rw [Text.isIdentifier, Bool.and_eq_true] at identifier
        exact identifier.1
  · show name ∉ NameSet.union .empty .empty
    rw [NameSet.mem_union]
    exact not_or.mpr ⟨NameSet.not_mem_empty name, NameSet.not_mem_empty name⟩

/-- A character that does not belong to the run is a token of its own behind it. -/
theorem readAll_of_stray [Letters] (sugar : IsSugar s found) {c : Char} (mem : c ∈ s)
    (outside : Text.isWordChar c = false) (notDot : c ≠ '.') (notMinus : c ≠ '-') :
    ∃ run d more, Token.readAll s = .range run :: .symbol d :: more := by
  have whole : s = "range".toList ++ '.' :: ['.'].intercalate found := sugar.whole
  have neutral := sugar.isNeutral
  generalize ['.'].intercalate found = rest at whole
  have parts := Token.text_cutSugar 'e' ('.' :: rest)
  have stop := Token.head_cutSugar 'e' ('.' :: rest)
  have tokens := Token.readAll_sugar rest
  have inRun := @Token.mem_cutSugar 'e' c ('.' :: rest)
  rw [← whole] at tokens
  generalize (Token.cutSugar 'e' ('.' :: rest)).1 = run at parts tokens inRun
  generalize (Token.cutSugar 'e' ('.' :: rest)).2 = left at parts stop tokens
  rw [← parts] at whole
  cases left with
  | nil =>
    rw [whole, List.append_nil, List.mem_append] at mem
    rcases mem with word | inside
    · have words := List.all_eq_true.mp (show "range".toList.all Text.isWordChar = true by decide)
      rw [words c word] at outside
      cases outside
    · rcases inRun inside with word | dot | minus
      · rw [word] at outside
        cases outside
      · exact absurd dot notDot
      · exact absurd minus notMinus
  | cons d more =>
    have word : Text.isWordChar d = false := stop
    have start : Text.isWordStart d = false :=
      Bool.eq_false_iff.mpr fun start => by
        rw [Text.isWordChar_of_isWordStart start] at word
        cases word
    have digit : d.isDigit = false :=
      Bool.eq_false_iff.mpr fun digit => by
        rw [Text.isWordChar_of_isDigit digit] at word
        cases word
    have quote : Text.isQuote d = false := by
      have plain := neutral d (by simp [whole])
      simp only [Nesting.isNeutral, Bool.and_eq_true, Bool.not_eq_true'] at plain
      exact plain.1.1
    have symbol : Token.read false d more = (.symbol d, more) := by
      rw [Token.read, quote, start, digit]
      rfl
    rw [tokens, Token.readAllFrom, symbol]
    exact ⟨_, _, _, rfl⟩

/-- What follows range sugar stays behind the call it stands for. -/
theorem text_of_stray [Letters] {inner : Text → Except Expression.Fault Expression} {run : Text}
    {d : Char} {more : List Token} {e : Expression}
    (made : Expression.ofTokens inner [] (.range run :: .symbol d :: more) = .ok e) :
    ∃ given later, e.text =
      "range(".toList ++ [',', ' '].intercalate given ++ ')' :: d :: later := by
  rw [Expression.ofTokens] at made
  obtain ⟨_, _, made⟩ := bind_eq_ok.mp made
  obtain ⟨call, called, made⟩ := bind_eq_ok.mp made
  obtain ⟨after, behind, made⟩ := bind_eq_ok.mp made
  obtain rfl := Except.ok.inj made
  rw [Expression.ofTokens] at behind
  obtain ⟨_, _, behind⟩ := bind_eq_ok.mp behind
  obtain ⟨first, own, behind⟩ := bind_eq_ok.mp behind
  obtain ⟨later, _, behind⟩ := bind_eq_ok.mp behind
  obtain rfl := Except.ok.inj behind
  obtain rfl := Except.ok.inj own
  change Expression.ofRange run = .ok call at called
  rw [Expression.ofRange] at called
  split at called
  next => cases called
  next given _ =>
    obtain rfl := Except.ok.inj called
    exact ⟨given, later.text, by simp [Expression.append, Expression.plain]⟩

/-- Sugar becomes the call with its bounds only if its names are identifiers: from a character that
is none of words on, it would be left behind the call. -/
theorem isIdentifier_of_callText [Letters] (trimmed : Text.Trimmed s) (sugar : IsSugar s found)
    {e : Expression} (made : Expression.ofText s = .ok e) (written : e.text = callText found) :
    ∀ bound ∈ found, isName bound = true → Text.isIdentifier bound = true := by
  intro bound mem named
  by_contra other
  have inside := bounds_subset ((bounds_eq_ok_iff trimmed).mpr sugar)
  obtain ⟨c, inBound, outside⟩ := exists_of_not_isIdentifier named (by simpa using other)
  have inName := isNameChar_of_isName named c inBound
  have notDot : c ≠ '.' := ne_of_isNameChar inName (by decide) (by decide)
  have notMinus : c ≠ '-' := ne_of_isNameChar inName (by decide) (by decide)
  obtain ⟨run, d, more, tokens⟩ :=
    readAll_of_stray sugar (inside bound mem inBound) outside notDot notMinus
  rw [Expression.ofText_eq, Text.trim_eq_self trimmed, tokens] at made
  obtain ⟨given, later, stray⟩ := text_of_stray made
  have noClosing : ')' ∉ [',', ' '].intercalate found := by
    intro closing
    rcases Text.mem_intercalate closing with between | ⟨text, inFound, inText⟩
    · exact absurd between (by decide)
    · exact absurd (sugar.isNeutral _ (inside text inFound inText)) (by decide)
  -- The call with all bounds has its only closing bracket at its end.
  have same : [',', ' '].intercalate found ++ ')' :: [] =
      [',', ' '].intercalate given ++ ')' :: (d :: later) := by
    refine @List.append_cancel_left _ "range(".toList _ _ ?_
    rw [← List.append_assoc, ← List.append_assoc]
    exact written.symm.trans stray
  have ends := (List.append_cons_inj_of_notMem noClosing List.not_mem_nil).mp same
  cases ends.2.2

/-- Both readings agree exactly on the sugar whose names are identifiers. -/
theorem calls_iff [Letters] (trimmed : Text.Trimmed s) (sugar : IsSugar s found) :
    (∃ e, Expression.ofText s = .ok e ∧ Calls found e) ↔
      ∀ bound ∈ found, isName bound = true → Text.isIdentifier bound = true := by
  constructor
  · rintro ⟨e, made, calls⟩
    exact isIdentifier_of_callText trimmed sugar made calls.text
  · exact exists_calls trimmed sugar

/-! ## Loops over a range -/

/-- What a loop runs over is trimmed. -/
theorem trimmed_iterable [Letters] {iterable : Text} {targets : List Text}
    (read : Header.read? s = some (.forLoop targets iterable)) : Text.Trimmed iterable := by
  rcases Header.read?_cases read with found | found | ⟨condition, _, same⟩ |
    ⟨condition, _, same⟩ | ⟨condition, _, same⟩ | found
  · obtain ⟨_, _, same, _⟩ := Header.readFunction?_texts found
    cases same
  · obtain ⟨_, _, more⟩ := Option.bind_eq_some_iff.mp found
    obtain ⟨_, _, more⟩ := Option.bind_eq_some_iff.mp more
    obtain ⟨_, _, more⟩ := Option.bind_eq_some_iff.mp more
    obtain ⟨rest, last, more⟩ := Option.bind_eq_some_iff.mp more
    obtain ⟨_, rfl⟩ := Header.forLoop.inj (Option.some.inj more)
    rw [readRest?] at last
    split at last
    · cases last
    · obtain rfl := Option.some.inj last
      exact Text.trimmed_trim _
  · cases same
  · cases same
  · cases same
  · cases Header.readElse?_eq_some found

/-- The role of a loop over a range is given to range sugar only. -/
theorem isSugar_of_decision [Letters] {table : SymbolTable} {context : Classify.Context}
    {previous : Option Role} {node : Node} {shapes : List Shape} {role : Role}
    (decided : Classify.Decision table context previous node shapes role) {targets : List Text}
    {range : Text} (isRange : role = .rangeForHeader targets range) :
    Text.Trimmed range ∧ ∃ found, IsSugar range found := by
  cases decided with
  | header _ header _ _ _ _ _ read decided =>
    subst isRange
    cases decided with
    | rangeLoop _ _ _ found _ sugar =>
      have trimmed := trimmed_iterable read
      exact ⟨trimmed, found, (bounds_eq_ok_iff trimmed).mp sugar⟩
  | _ => cases isRange

/-- A loop over a range is written with the call of its bounds exactly when its names are
identifiers. -/
theorem output_iff [Letters] {node : Node} {targets : List Text}
    (role : node.role = .rangeForHeader targets s) (trimmed : Text.Trimmed s)
    (sugar : IsSugar s found) (children : Forest Node) :
    Program.output node children =
        .ok (.block (Program.forHeader targets (callText found)) .header, []) ↔
      ∀ bound ∈ found, isName bound = true → Text.isIdentifier bound = true := by
  have value : Program.output node children = (Program.value node.line s >>= fun result =>
      .ok (.block (Program.forHeader targets result.1) .header, result.2)) := by
    rw [Program.output, role]
    rfl
  rw [value]
  constructor
  · intro ok
    obtain ⟨⟨text, roots⟩, read, ok⟩ := bind_eq_ok.mp ok
    obtain ⟨e, made, same⟩ := bind_eq_ok.mp read
    obtain ⟨rfl, rfl⟩ := Prod.mk.inj (Except.ok.inj same)
    obtain ⟨sameBlock, _⟩ := Prod.mk.inj (Except.ok.inj ok)
    have written : e.text = callText found :=
      List.append_cancel_left (Program.Output.block.inj sameBlock).1
    exact isIdentifier_of_callText trimmed sugar (Expression.read_eq_ok_iff.mp made) written
  · intro identifiers
    obtain ⟨e, made, calls⟩ := exists_calls trimmed sugar identifiers
    have noRoots : e.memberRoots.toList = [] :=
      List.eq_nil_iff_forall_not_mem.mpr calls.noMembers
    refine bind_eq_ok.mpr ⟨(callText found, []), bind_eq_ok.mpr ⟨e, ?_, ?_⟩, rfl⟩
    · exact Expression.read_eq_ok_iff.mpr made
    · rw [calls.text, noRoots]
      rfl

/-- The range sugar that is accepted is that of its form. -/
theorem read_eq_ok_iff [Letters] {line : Nat} (trimmed : Text.Trimmed s) :
    read line s = .ok found ↔ IsSugar s found := by
  rw [← bounds_eq_ok_iff trimmed, read]
  cases bounds s <;> simp

/-- Range sugar is read exactly where it has its form. As a value it becomes the call with its
bounds, which refers to the names among them and takes no members, exactly when these names are
identifiers; and then a loop over it is written with that call. -/
theorem read_agrees [Letters] (line : Nat) (s : Text) :
    (Text.Trimmed s →
      (∀ found, read line s = .ok found ↔ IsSugar s found) ∧
        ∀ found, read line s = .ok found →
          ((∃ e, Expression.read line s = .ok e ∧ Calls found e) ↔
            ∀ bound ∈ found, isName bound = true → Text.isIdentifier bound = true)) ∧
      ∀ forest forest' table, Forest.classify forest = .ok (forest', table) →
        ∀ node ∈ forest'.preorder, ∀ targets, node.role = .rangeForHeader targets s →
          ∃ found, IsSugar s found ∧
            ∀ children,
              Program.output node children =
                  .ok (.block (Program.forHeader targets (callText found)) .header, []) ↔
                ∀ bound ∈ found, isName bound = true → Text.isIdentifier bound = true := by
  refine ⟨fun trimmed => ⟨fun found => read_eq_ok_iff trimmed, ?_⟩, ?_⟩
  · intro found ok
    simp only [Expression.read_eq_ok_iff]
    exact calls_iff trimmed ((read_eq_ok_iff trimmed).mp ok)
  · intro forest forest' table ok node mem targets role
    obtain ⟨before, after, split⟩ := List.append_of_mem mem
    obtain ⟨_, _, _, _, decided, _⟩ := Classify.decision_of_classify ok split
    obtain ⟨trimmed, found, sugar⟩ := isSugar_of_decision decided role
    exact ⟨found, sugar, output_iff role trimmed sugar⟩

/-- A loop over sugar with a negative step, and the same sugar as a value. -/
theorem read_agrees_step :
    let sugar := "range.n.0.-1".toList
    let found := ["n".toList, "0".toList, "-1".toList]
    let forest := Forest.ofLevels (Nest.placed [.code 0 "for i in range.n.0.-1:".toList 1,
      .code 1 "pass".toList 2])
    Text.Trimmed sugar ∧ read 1 sugar = .ok found ∧
      (∃ e, Expression.read 1 sugar = .ok e ∧ Calls found e) ∧
      ∃ forest' table node, forest.classify = .ok (forest', table) ∧ node ∈ forest'.preorder ∧
        node.role = .rangeForHeader ["i".toList] sugar ∧
        Program.output node .nil =
          .ok (.block "for i in range(n, 0, -1)".toList .header, []) := by
  intro sugar found forest
  have trimmed : Text.Trimmed sugar := Text.trimmed_trim " range.n.0.-1".toList
  have isSugar : IsSugar sugar found := ⟨by decide, .inr rfl, by decide⟩
  have identifiers : ∀ bound ∈ found, isName bound = true → Text.isIdentifier bound = true := by
    decide
  have ok := (((read_agrees 1 sugar).1 trimmed).1 found).mpr isSugar
  have given : (forest.classify.toOption.map fun result =>
      result.1.preorder.head?.map Node.role) =
        some (some (.rangeForHeader ["i".toList] sugar)) := by
    decide +kernel
  obtain ⟨⟨forest', table⟩, classified, first⟩ := Option.map_eq_some_iff.mp given
  obtain ⟨node, head, role⟩ := Option.map_eq_some_iff.mp first
  have mem := List.mem_of_mem_head? head
  obtain ⟨found', isSugar', written⟩ :=
    (read_agrees 1 sugar).2 forest forest' table (eq_ok_of_toOption classified) node mem _ role
  have ok' := (((read_agrees 1 sugar).1 trimmed).1 found').mpr isSugar'
  obtain rfl : found = found' := Except.ok.inj (ok.symm.trans ok')
  exact ⟨trimmed, ok, (((read_agrees 1 sugar).1 trimmed).2 found ok).mpr identifiers, forest',
    table, node, eq_ok_of_toOption classified, mem, role, (written .nil).mpr identifiers⟩

/-- Range sugar with a letter that only headers know: a loop over it is given its role, but its
value is refused, because the run ends at that letter. -/
theorem read_disagrees :
    let sugar := "range.\ua7dd.5".toList
    let forest := Forest.ofLevels (Nest.placed [.code 0 "for i in range.\ua7dd.5:".toList 1,
      .code 1 "pass".toList 2])
    let error := Error.expression 1 "malformed range sugar `range.`"
    Text.Trimmed sugar ∧ read 1 sugar = .ok ["\ua7dd".toList, "5".toList] ∧
      Expression.read 1 sugar = .error error ∧
      ∃ forest' table node, forest.classify = .ok (forest', table) ∧ node ∈ forest'.preorder ∧
        node.role = .rangeForHeader ["i".toList] sugar ∧
        Program.output node .nil = .error error := by
  intro sugar forest error
  have trimmed : Text.Trimmed sugar := Text.trimmed_trim " range.\ua7dd.5".toList
  have refused : Expression.read 1 sugar = .error error := by decide +kernel
  have given : (forest.classify.toOption.map fun result =>
      result.1.preorder.head?.map fun node => (node.role, node.line)) =
        some (some (.rangeForHeader ["i".toList] sugar, 1)) := by
    decide +kernel
  obtain ⟨⟨forest', table⟩, classified, first⟩ := Option.map_eq_some_iff.mp given
  obtain ⟨node, head, same⟩ := Option.map_eq_some_iff.mp first
  obtain ⟨role, line⟩ := Prod.mk.inj same
  have failed : Program.output node .nil = .error error := by
    rw [Program.output, role, line]
    refine bind_eq_error.mpr (.inl (bind_eq_error.mpr (.inl refused)))
  exact ⟨trimmed, by decide +kernel, refused, forest', table, node, eq_ok_of_toOption classified,
    List.mem_of_mem_head? head, role, failed⟩

end RangeSugar
end Outline
