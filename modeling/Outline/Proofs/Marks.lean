import Outline.Header.Edition
import Outline.Proofs.Names
import Outline.Proofs.PassThrough
import Outline.Proofs.Strings

/-!
# Marks before strings

A string with placeholders gets the mark `f`, put before the marks that it has. The result is a mark
of the target language if the string had no mark, or one that asks for interpolation. It is none if
the string is marked `u`, and none if a word of the language stands right before the string, because
the mark joins that word (`Expression.ofText_mark`).
-/

set_option autoImplicit false

namespace Outline

/-! ## Longest tokens -/

namespace Token

/-- A word is read to its end, and is no mark of a string behind it. -/
def EndsWord (name after : Text) : Prop :=
  after.head?.any Text.isWordChar = false ∧
    (after.head?.any Text.isQuote = true → isMark name = false)

/-- What reading promises of a token and the text behind it. -/
def Reads (afterDot : Bool) (after : Text) : Token → Prop
  | .word name member =>
    afterDot = false ∧ Text.isIdentifier name = true ∧ EndsWord name after ∧
      member = followedByMember after
  | .attribute name => afterDot = true ∧ Text.isIdentifier name = true ∧ EndsWord name after
  | .number digits =>
    (∃ c rest, c.isDigit = true ∧ digits = (cutNumber (c :: rest)).1) ∧
      after.head?.any Text.isWordChar = false
  | .range _ => after.head?.any Text.isWordChar = false
  | .literal mark _ _ => mark = [] ∨ Text.isIdentifier mark = true ∧ isMark mark = true
  | .unterminated _ => True
  | .symbol c => Text.isQuote c = false ∧ Text.isWordStart c = false ∧ c.isDigit = false

/-- A number is read to its end. -/
theorem head_cutNumber (s : Text) : (cutNumber s).2.head?.any Text.isWordChar = false := by
  induction s with
  | nil => rfl
  | cons c rest ih =>
    rw [cutNumber]
    split
    · exact ih
    next stops =>
      simp only [Bool.or_eq_true, not_or] at stops
      exact Bool.eq_false_iff.mpr stops.1

/-- Range sugar is read to its end. -/
theorem head_cutSugar (previous : Char) (s : Text) :
    (cutSugar previous s).2.head?.any Text.isWordChar = false := by
  induction s generalizing previous with
  | nil => rfl
  | cons c rest ih =>
    rw [cutSugar]
    split
    · exact ih c
    next stops =>
      simp only [Bool.or_eq_true, not_or] at stops
      exact Bool.eq_false_iff.mpr stops.1.1

/-- Reading keeps its promise for a string literal. -/
theorem reads_readLiteral {mark : Text}
    (marked : mark = [] ∨ Text.isIdentifier mark = true ∧ isMark mark = true) (afterDot : Bool)
    (quote : Char) (rest : Text) :
    (readLiteral mark quote rest).1.Reads afterDot (readLiteral mark quote rest).2 := by
  rw [readLiteral]
  split
  · exact marked
  · trivial

/-- Reading keeps its promise for a token that starts with a word. -/
theorem reads_readWord {name after : Text} (identifier : Text.isIdentifier name = true)
    (ends : after.head?.any Text.isWordChar = false) (afterDot : Bool) :
    (readWord afterDot name after).1.Reads afterDot (readWord afterDot name after).2 := by
  cases after with
  | nil =>
    have last : EndsWord name [] := ⟨rfl, fun quote => by cases quote⟩
    cases afterDot with
    | true => exact ⟨rfl, identifier, last⟩
    | false => exact ⟨rfl, identifier, last, rfl⟩
  | cons c rest =>
    rw [readWord]
    split
    next marked =>
      rw [Bool.and_eq_true] at marked
      exact reads_readLiteral (.inr ⟨identifier, marked.2⟩) afterDot c rest
    next unmarked =>
      have last : EndsWord name (c :: rest) := by
        refine ⟨ends, fun quote => Bool.eq_false_iff.mpr fun mark => unmarked ?_⟩
        rw [show Text.isQuote c = true from quote, mark]
        rfl
      cases afterDot with
      | true => exact ⟨rfl, identifier, last⟩
      | false =>
        rw [if_neg Bool.false_ne_true]
        split
        · exact head_cutSugar 'e' (c :: rest)
        · exact ⟨rfl, identifier, last, rfl⟩

/-- The word at the front of a text is an identifier if it does not start with a digit. -/
theorem isIdentifier_leadingWord {c : Char} (start : Text.isWordStart c = true) (rest : Text) :
    Text.isIdentifier (Text.leadingWord (c :: rest)) = true := by
  rw [Text.leadingWord, List.takeWhile_cons_of_pos (Text.isWordChar_of_isWordStart start),
    Text.isIdentifier, start, Bool.true_and]
  exact List.all_takeWhile

/-- A token is read as far as it goes. -/
theorem reads_read (afterDot : Bool) (c : Char) (rest : Text) :
    (read afterDot c rest).1.Reads afterDot (read afterDot c rest).2 := by
  rw [read]
  split
  · exact reads_readLiteral (.inl rfl) afterDot c rest
  next noQuote =>
    split
    next start =>
      refine reads_readWord (isIdentifier_leadingWord start rest) ?_ afterDot
      have stops := List.head?_dropWhile_not Text.isWordChar (c :: rest)
      rw [Text.afterWord]
      cases next : ((c :: rest).dropWhile Text.isWordChar).head? with
      | none => rfl
      | some d =>
        rw [next] at stops
        exact stops
    next noStart =>
      split
      next digit => exact ⟨⟨c, rest, digit, rfl⟩, head_cutNumber (c :: rest)⟩
      next noDigit =>
        exact ⟨Bool.eq_false_iff.mpr noQuote, Bool.eq_false_iff.mpr noStart,
          Bool.eq_false_iff.mpr noDigit⟩

/-- A token among those of a text is read from where the tokens before it end. -/
theorem exists_read_of_readAllFrom {afterDot : Bool} {s : Text} {front back : List Token}
    {token : Token} (split : readAllFrom afterDot s = front ++ token :: back) :
    ∃ afterDot' c rest, s = front.flatMap text ++ c :: rest ∧
      (read afterDot' c rest).1 = token ∧
      readAllFrom (leavesDot afterDot' token) (read afterDot' c rest).2 = back := by
  induction front generalizing afterDot s with
  | nil =>
    cases s with
    | nil =>
      rw [readAllFrom] at split
      cases split
    | cons c rest =>
      rw [readAllFrom] at split
      obtain ⟨rfl, rfl⟩ := List.cons.inj split
      exact ⟨afterDot, c, rest, rfl, rfl, rfl⟩
  | cons first front ih =>
    cases s with
    | nil =>
      rw [readAllFrom] at split
      cases split
    | cons c rest =>
      rw [readAllFrom] at split
      obtain ⟨rfl, later⟩ := List.cons.inj split
      obtain ⟨afterDot', c', rest', whole, own, more⟩ := ih later
      refine ⟨afterDot', c', rest', ?_, own, more⟩
      rw [List.flatMap_cons, List.append_assoc, ← whole, text_read]

end Token

/-! ## The word at the end of a text -/

namespace Text

variable {s t : Text} {c : Char}

/-- The word that a text ends with, possibly empty. -/
def lastWord (s : Text) : Text := (s.reverse.takeWhile isWordChar).reverse

/-- Characters of words at the end of a text belong to its last word. -/
theorem lastWord_append_of_all (all : ∀ c ∈ t, isWordChar c = true) (s : Text) :
    lastWord (s ++ t) = lastWord s ++ t := by
  have reversed : ∀ c ∈ t.reverse, isWordChar c = true := fun c mem =>
    all c (List.mem_reverse.mp mem)
  rw [lastWord, List.reverse_append, List.takeWhile_append_of_pos reversed, List.reverse_append,
    List.reverse_reverse, lastWord]

theorem lastWord_of_all (all : ∀ c ∈ t, isWordChar c = true) : lastWord t = t :=
  lastWord_append_of_all all []

/-- A text that does not end in a word hides what stands before it. -/
theorem lastWord_append_of_last (filled : t ≠ []) (last : t.getLast?.any isWordChar = false)
    (s : Text) : lastWord (s ++ t) = [] := by
  rw [List.getLast?_eq_some_getLast filled, Option.any_some] at last
  rw [lastWord, ← List.dropLast_concat_getLast filled, List.reverse_append, List.reverse_append,
    List.reverse_singleton, List.append_assoc, List.singleton_append,
    List.takeWhile_cons_of_neg (by rw [last]; decide), List.reverse_nil]

theorem mem_lastWord_of_last (last : s.getLast? = some c) (word : isWordChar c = true) :
    c ∈ lastWord s := by
  obtain ⟨front, rfl⟩ := List.getLast?_eq_some_iff.mp last
  have own : ∀ d ∈ [c], isWordChar d = true := by
    intro d mem
    obtain rfl := List.mem_singleton.mp mem
    exact word
  rw [lastWord_append_of_all own]
  exact List.mem_append_right _ List.mem_cons_self

/-- A text without a last word does not end with a character of words. -/
theorem last_of_lastWord_eq_nil (none : lastWord s = []) : s.getLast?.any isWordChar = false := by
  cases last : s.getLast? with
  | none => rfl
  | some c =>
    cases word : isWordChar c with
    | false => exact word
    | true =>
      have mem := mem_lastWord_of_last last word
      rw [none] at mem
      cases mem

/-- Text put before another takes nothing from its last word. -/
theorem lastWord_subset (s t : Text) : lastWord t ⊆ lastWord (s ++ t) := by
  intro c mem
  rw [lastWord, List.mem_reverse] at mem ⊢
  rw [List.reverse_append, List.takeWhile_append]
  split
  · exact List.mem_append_left _ ((List.takeWhile_sublist _).subset mem)
  · exact mem

theorem isWordChar_eq_false_of_isQuote (quote : isQuote c = true) : isWordChar c = false := by
  cases word : isWordChar c with
  | false => rfl
  | true =>
    have neutral := Expression.isNeutral_of_isTame (Token.isTame_of_isWordChar word)
    simp [Nesting.isNeutral, quote] at neutral

theorem isWordStart_eq_false_of_isDigit (digit : c.isDigit = true) : isWordStart c = false := by
  simp only [Char.isDigit, Bool.and_eq_true, decide_eq_true_eq] at digit
  have low : 48 ≤ c.toNat := digit.1
  have high : c.toNat ≤ 57 := digit.2
  have noLetter : c.isAlpha = false := by
    rw [Bool.eq_false_iff]
    intro letter
    unfold Char.isAlpha Char.isUpper Char.isLower at letter
    simp only [Bool.or_eq_true, Bool.and_eq_true, decide_eq_true_eq] at letter
    have bounds : 65 ≤ c.toNat ∧ c.toNat ≤ 90 ∨ 97 ≤ c.toNat ∧ c.toNat ≤ 122 := letter
    omega
  have noScore : c ≠ '_' := by
    rintro rfl
    exact absurd high (by decide)
  have small : c.toNat < 0x80 := by omega
  simp [isWordStart, isAlphabetic, small, noLetter, noScore]

end Text

namespace Token

/-- The word at the end of a number holds a digit: each dot stands before one. -/
theorem exists_digit_cutNumber (s : Text)
    (starts : s.head?.any Char.isDigit = true ∨ (cutNumber s).1.all Text.isWordChar = false) :
    ∃ c ∈ Text.lastWord (cutNumber s).1, c.isDigit = true := by
  induction s with
  | nil => rcases starts with starts | starts <;> cases starts
  | cons c rest ih =>
    cases taken : Text.isWordChar c || c == '.' && rest.head?.any Char.isDigit with
    | false =>
      rw [cutNumber, if_neg (by rw [taken]; decide)] at starts
      rcases starts with digit | mixed
      · rw [Text.isWordChar_of_isDigit digit] at taken
        cases taken
      · cases mixed
    | true =>
      have cut : (cutNumber (c :: rest)).1 = [c] ++ (cutNumber rest).1 := by
        rw [cutNumber, if_pos taken]
        rfl
      rw [cut] at starts ⊢
      have later (found : ∃ d ∈ Text.lastWord (cutNumber rest).1, d.isDigit = true) :
          ∃ d ∈ Text.lastWord ([c] ++ (cutNumber rest).1), d.isDigit = true := by
        obtain ⟨d, mem, digit⟩ := found
        exact ⟨d, Text.lastWord_subset _ _ mem, digit⟩
      cases more : (cutNumber rest).1.all Text.isWordChar with
      | false => exact later (ih (.inr more))
      | true =>
        rcases starts with digit | mixed
        · refine ⟨c, ?_, digit⟩
          rw [Text.lastWord_of_all]
          · exact List.mem_cons_self
          · exact List.forall_mem_cons.mpr
              ⟨Text.isWordChar_of_isDigit digit, List.all_eq_true.mp more⟩
        · rw [List.all_append, more, Bool.and_true, List.all_cons, List.all_nil,
            Bool.and_true] at mixed
          rw [mixed, Bool.false_or, Bool.and_eq_true] at taken
          exact later (ih (.inl taken.2))

/-- The last word of a text that ends with a number has a digit in it. -/
theorem exists_digit_of_number {c : Char} {rest : Text} (digit : c.isDigit = true) (s : Text) :
    ∃ d ∈ Text.lastWord (s ++ (cutNumber (c :: rest)).1), Text.isWordStart d = false := by
  obtain ⟨d, mem, digit⟩ := exists_digit_cutNumber (c :: rest) (.inl digit)
  exact ⟨d, Text.lastWord_subset _ _ mem, Text.isWordStart_eq_false_of_isDigit digit⟩

/-- A token at the end of which there is a word without digits is range sugar or a word. -/
theorem Reads.cases_last {token : Token} {afterDot : Bool} {after s : Text}
    (reads : token.Reads afterDot after) (formed : token.Formed)
    (ended : ∀ rest, token ≠ .unterminated rest) (filled : Text.lastWord (s ++ token.text) ≠ [])
    (letters : ∀ c ∈ Text.lastWord (s ++ token.text), Text.isWordStart c = true) :
    after.head?.any Text.isWordChar = false ∧
      ((∃ sugar, token = .range sugar) ∨
        ∃ name, Text.isIdentifier name = true ∧ EndsWord name after ∧
          (token = .attribute name ∨ ∃ member, token = .word name member)) := by
  cases token with
  | word name member => exact ⟨reads.2.2.1.1, .inr ⟨name, reads.2.1, reads.2.2.1, .inr ⟨_, rfl⟩⟩⟩
  | number digits =>
    obtain ⟨⟨c, rest, digit, rfl⟩, _⟩ := reads
    obtain ⟨d, mem, noLetter⟩ := exists_digit_of_number digit s
    rw [letters d mem] at noLetter
    cases noLetter
  | range sugar => exact ⟨reads, .inl ⟨sugar, rfl⟩⟩
  | literal mark d body =>
    refine absurd (Text.lastWord_append_of_last ?_ ?_ s) filled
    · simp [text, text_delimiter_ne_nil]
    · rw [text, Expression.getLast?_append_delimiter]
      exact Text.isWordChar_eq_false_of_isQuote formed.1
  | unterminated rest => exact absurd rfl (ended rest)
  | symbol c =>
    obtain ⟨_, noStart, _⟩ := reads
    cases word : Text.isWordChar c with
    | false => exact absurd (Text.lastWord_append_of_last (List.cons_ne_nil c []) word s) filled
    | true =>
      have mem : c ∈ Text.lastWord (s ++ [c]) :=
        Text.lastWord_subset s [c] (Text.mem_lastWord_of_last rfl word)
      rw [letters c mem] at noStart
      cases noStart
  | _ => exact ⟨reads.2.2.1, .inr ⟨_, reads.2.1, reads.2.2, .inl rfl⟩⟩

/-- A token is read with the next one right behind it. -/
theorem exists_reads_of_readAllFrom {afterDot : Bool} {s : Text} {front back : List Token}
    {token next : Token} (split : readAllFrom afterDot s = front ++ token :: next :: back) :
    ∃ afterDot' rest, token.Reads afterDot' (next.text ++ rest) ∧ token.Formed ∧ token.text ≠ [] ∧
      next.text ≠ [] := by
  obtain ⟨dot, c, rest, _, rfl, more⟩ := exists_read_of_readAllFrom split
  have alone : readAllFrom (leavesDot dot (read dot c rest).1) (read dot c rest).2 =
      [] ++ next :: back := more
  obtain ⟨dot', c', rest', whole, rfl, _⟩ := exists_read_of_readAllFrom alone
  have reads := reads_read dot c rest
  rw [whole, List.flatMap_nil, List.nil_append, ← text_read dot' c' rest'] at reads
  exact ⟨dot, _, reads, formed_read dot c rest, text_read_ne_nil dot c rest,
    text_read_ne_nil dot' c' rest'⟩

/-- If tokens end in a word without digits, the last of them is range sugar or a word, and the next
one does not go on with the word. -/
theorem exists_word_before {afterDot : Bool} {s : Text} {front back : List Token} {token : Token}
    (split : readAllFrom afterDot s = front ++ token :: back)
    (ended : ∀ other ∈ front, ∀ rest, other ≠ .unterminated rest)
    (filled : Text.lastWord (front.flatMap text) ≠ [])
    (letters : ∀ c ∈ Text.lastWord (front.flatMap text), Text.isWordStart c = true) :
    ∃ before last, front = before ++ [last] ∧ token.text.head?.any Text.isWordChar = false ∧
      ((∃ sugar, last = .range sugar) ∨
        ∃ name, Text.isIdentifier name = true ∧
          (token.text.head?.any Text.isQuote = true → isMark name = false) ∧
          (last = .attribute name ∨ ∃ member, last = .word name member)) := by
  rcases front.eq_nil_or_concat with rfl | ⟨before, last, rfl⟩
  · exact absurd rfl filled
  rw [List.concat_eq_append] at *
  rw [List.append_assoc] at split
  obtain ⟨dot, rest, reads, formed, _, some⟩ := exists_reads_of_readAllFrom split
  rw [List.flatMap_append, List.flatMap_singleton] at filled letters
  have found := reads.cases_last formed (ended last (by simp)) filled letters
  rw [List.head?_append_of_ne_nil _ some] at found
  refine ⟨before, last, rfl, found.1, found.2.imp_right ?_⟩
  rintro ⟨name, identifier, ends, same⟩
  rw [EndsWord, List.head?_append_of_ne_nil _ some] at ends
  exact ⟨name, identifier, ends.2, same⟩

theorem head_literal {mark body : Text} {d : Delimiter} :
    (text (.literal mark d body)).head? = mark.head?.or (some d.quote) := by
  obtain ⟨rest, front⟩ := Expression.head_delimiter d
  cases mark <;> simp [text, front]

/-- A string literal among the tokens has a word for its mark, if it has one, and a quote for its
delimiter. -/
theorem isMark_of_readAllFrom {afterDot : Bool} {s : Text} {front back : List Token}
    {mark body : Text} {d : Delimiter}
    (split : readAllFrom afterDot s = front ++ .literal mark d body :: back) :
    (∀ c ∈ mark, Text.isWordChar c = true) ∧ (mark ≠ [] → isMark mark = true) ∧
      Text.isQuote d.quote = true := by
  obtain ⟨dot, c, rest, _, own, _⟩ := exists_read_of_readAllFrom split
  have reads := reads_read dot c rest
  have formed := formed_read dot c rest
  rw [own] at reads formed
  rcases reads with rfl | ⟨identifier, isMark⟩
  · exact ⟨fun c mem => absurd mem List.not_mem_nil, fun some => absurd rfl some, formed.1⟩
  · exact ⟨Text.isWordChar_of_mem_identifier identifier, fun _ => isMark, formed.1⟩

/-- A string literal that does not start with a character of words has no mark. -/
theorem eq_nil_of_head_literal {mark body : Text} {d : Delimiter}
    (words : ∀ c ∈ mark, Text.isWordChar c = true)
    (stops : (text (.literal mark d body)).head?.any Text.isWordChar = false) : mark = [] := by
  cases mark with
  | nil => rfl
  | cons c mark =>
    rw [head_literal, List.head?_cons, Option.some_or, Option.any_some,
      words c List.mem_cons_self] at stops
    cases stops

/-- What stands right before a string, if the word before its quote has no digits: no word but the
mark of the string, or range sugar, or a word that is no mark. -/
theorem cases_before_literal {afterDot : Bool} {s : Text} {front back : List Token}
    {mark body : Text} {d : Delimiter}
    (split : readAllFrom afterDot s = front ++ .literal mark d body :: back)
    (ended : ∀ token ∈ front, ∀ rest, token ≠ .unterminated rest)
    (letters : ∀ c ∈ Text.lastWord (front.flatMap text ++ mark), Text.isWordStart c = true) :
    Text.lastWord (front.flatMap text) = [] ∨
      mark = [] ∧
        ((∃ before sugar, front = before ++ [.range sugar]) ∨
          ∃ before last name, front = before ++ [last] ∧
            Text.lastWord (before.flatMap text) = [] ∧ Text.isIdentifier name = true ∧
            isMark name = false ∧
            (last = .attribute name ∨ ∃ member, last = .word name member)) := by
  obtain ⟨words, _, isQuote⟩ := isMark_of_readAllFrom split
  rw [Text.lastWord_append_of_all words] at letters
  refine or_iff_not_imp_left.mpr fun filled => ?_
  obtain ⟨before, last, rfl, stops, kinds⟩ := exists_word_before split ended filled
    fun c mem => letters c (List.mem_append_left _ mem)
  -- The mark would go on with the word.
  obtain rfl := eq_nil_of_head_literal words stops
  refine ⟨rfl, ?_⟩
  rcases kinds with ⟨sugar, rfl⟩ | ⟨name, identifier, noMark, kind⟩
  · exact .inl ⟨before, sugar, rfl⟩
  have spelled : last.text = name := by
    rcases kind with rfl | ⟨member, rfl⟩ <;> rfl
  have nameWords := Text.isWordChar_of_mem_identifier identifier
  refine .inr ⟨before, last, name, rfl, ?_, identifier, ?_, kind⟩
  · -- A word before the word would go on with it, too.
    by_contra filled
    rw [List.append_assoc] at split
    have others : ∀ c ∈ Text.lastWord (before.flatMap text), Text.isWordStart c = true := by
      intro c mem
      refine letters c (List.mem_append_left _ ?_)
      rw [List.flatMap_append, List.flatMap_singleton, spelled,
        Text.lastWord_append_of_all nameWords]
      exact List.mem_append_left _ mem
    obtain ⟨_, _, _, stops, _⟩ := exists_word_before split
      (fun token mem => ended token (List.mem_append_left _ mem)) filled others
    rw [spelled] at stops
    cases name with
    | nil => cases identifier
    | cons c name =>
      rw [List.head?_cons, Option.any_some, nameWords c List.mem_cons_self] at stops
      cases stops
  · refine noMark ?_
    rw [head_literal]
    exact isQuote

/-- Nothing marks a string right behind range sugar. -/
theorem mark_eq_nil_of_range {afterDot : Bool} {s : Text} {before back : List Token}
    {sugar mark body : Text} {d : Delimiter}
    (split : readAllFrom afterDot s = before ++ [.range sugar] ++ .literal mark d body :: back) :
    mark = [] := by
  obtain ⟨words, _⟩ := isMark_of_readAllFrom split
  rw [List.append_assoc] at split
  obtain ⟨dot, rest, reads, _, _, some⟩ := exists_reads_of_readAllFrom split
  have stops : (text (.literal mark d body) ++ rest).head?.any Text.isWordChar = false := reads
  rw [List.head?_append_of_ne_nil _ some] at stops
  exact eq_nil_of_head_literal words stops

end Token

/-! ## Marks of the target language -/

/-- The spellings of a word, each letter small or capital. -/
def spellings : Text → List Text
  | [] => [[]]
  | c :: rest => (spellings rest).flatMap fun more => [c :: more, c.toUpper :: more]

/-- The marks that may stand before a string of the target language. -/
def stringMarks : List Text :=
  ["r".toList, "u".toList, "b".toList, "f".toList, "br".toList, "rb".toList, "fr".toList,
    "rf".toList].flatMap spellings

/-- The marks among these that ask for interpolation. -/
def formatMarks : List Text := ["f".toList, "fr".toList, "rf".toList].flatMap spellings

/-- The words of the target language that are no names. -/
def reservedWords : List Text :=
  ["False".toList, "None".toList, "True".toList, "and".toList, "as".toList, "assert".toList,
    "async".toList, "await".toList, "break".toList, "class".toList, "continue".toList,
    "def".toList, "del".toList, "elif".toList, "else".toList, "except".toList, "finally".toList,
    "for".toList, "from".toList, "global".toList, "if".toList, "import".toList, "in".toList,
    "is".toList, "lambda".toList, "nonlocal".toList, "not".toList, "or".toList, "pass".toList,
    "raise".toList, "return".toList, "try".toList, "while".toList, "with".toList,
    "yield".toList]

/-- The marks of the target language are marks. Where placeholders are replaced, a mark asks for
that already, or it is `u`, which the mark `f` cannot join. -/
theorem stringMarks_spec {mark : Text} (mem : mark ∈ stringMarks) :
    Token.isMark mark = true ∧ mark.all Text.isWordStart = true ∧
      (Expression.interpolates mark = true →
        mark ∈ formatMarks ∧ mark ∉ ["u".toList, "U".toList] ∧
            Expression.interpolatedMark mark = mark ∨
          mark ∈ ["u".toList, "U".toList] ∧ 'f' :: mark ∉ formatMarks ∧
            Expression.interpolatedMark mark = 'f' :: mark) := by
  revert mark
  decide

/-- A reserved word is no mark, is not respelled, and joined by `f` is no mark either. -/
theorem reservedWords_spec {word : Text} (mem : word ∈ reservedWords) :
    word ≠ [] ∧ Token.isMark word = false ∧ word.all Text.isWordStart = true ∧
      Expression.respell word = word ∧ word ++ ['f'] ∉ formatMarks := by
  revert word
  decide

/-! ## Rewritten strings -/

/-- Pairs of two lists can be cut where the first list is cut. -/
theorem exists_append_of_forall₂ {α β : Type} {R : α → β → Prop} {front back : List α}
    {made : List β} (pairs : List.Forall₂ R (front ++ back) made) :
    ∃ first later, made = first ++ later ∧ List.Forall₂ R front first ∧
      List.Forall₂ R back later := by
  induction front generalizing made with
  | nil => exact ⟨[], made, rfl, .nil, pairs⟩
  | cons a front ih =>
    obtain ⟨b, others, own, more, rfl⟩ := List.forall₂_cons_left_iff.mp pairs
    obtain ⟨first, later, rfl, front, back⟩ := ih more
    exact ⟨b :: first, later, rfl, .cons own front, back⟩

namespace Expression

open Text

variable {inner : Text → Except Fault Expression}

/-- The expression of a token ends in a word only if the token does. -/
theorem last_ofToken [Letters] {token : Token} {e : Expression} {afterDot : Bool} {after : Text}
    (reads : token.Reads afterDot after) (formed : token.Formed)
    (made : ofToken inner token = .ok e)
    (last : token.text.getLast?.any isWordChar = false ∨ ∃ sugar, token = .range sugar) :
    e.text.getLast?.any isWordChar = false := by
  have ends {t : Text} (filled : t ≠ []) (word : ∀ c ∈ t.getLast?, isWordChar c = true) :
      t.getLast?.any isWordChar ≠ false := by
    have last := List.getLast?_eq_some_getLast filled
    rw [last, Option.any_some, word _ last]
    decide
  cases token with
  | word name member =>
    rcases last with last | ⟨sugar, same⟩
    · have words := Text.isWordChar_of_mem_identifier reads.2.1
      exact absurd last (ends formed.1 fun c mem => words c (List.mem_of_getLast? mem))
    · cases same
  | number digits =>
    obtain ⟨⟨c, rest, _, rfl⟩, _⟩ := reads
    rcases last with last | ⟨sugar, same⟩
    · exact absurd last (ends formed.1 (Token.getLast?_cutNumber (c :: rest)))
    · cases same
  | range sugar =>
    rw [ofToken, ofRange] at made
    split at made
    next => cases made
    next =>
      obtain rfl := Except.ok.inj made
      rw [List.getLast?_concat]
      decide
  | literal mark d body =>
    rw [getLast?_ofLiteral made]
    exact isWordChar_eq_false_of_isQuote formed.1
  | unterminated rest => cases made
  | _ =>
    obtain rfl := Except.ok.inj made
    rcases last with last | ⟨sugar, same⟩
    · exact last
    · cases same

/-- What tokens become ends in a word only if the tokens do, and not behind range sugar. -/
theorem lastWord_rewritten [Letters] {afterDot : Bool} {s : Text} {front back : List Token}
    {next : Token}
    {made : List (List Part)} (split : Token.readAllFrom afterDot s = front ++ next :: back)
    (pairs : List.Forall₂ (Rewritten inner) front made)
    (last : lastWord (front.flatMap Token.text) = [] ∨
      ∃ before sugar, front = before ++ [.range sugar]) :
    lastWord (made.flatten.flatMap Part.text) = [] := by
  rcases front.eq_nil_or_concat with rfl | ⟨before, token, rfl⟩
  · cases pairs
    rfl
  rw [List.concat_eq_append] at *
  rw [List.append_assoc] at split
  obtain ⟨dot, rest, reads, formed, filled, _⟩ := Token.exists_reads_of_readAllFrom split
  obtain ⟨first, later, rfl, _, own⟩ := exists_append_of_forall₂ pairs
  obtain ⟨parts, others, rewritten, more, rfl⟩ := List.forall₂_cons_left_iff.mp own
  cases more
  obtain ⟨e, made, written⟩ := rewritten.text
  rw [List.flatten_append, List.flatten_singleton, List.flatMap_append, written]
  refine lastWord_append_of_last (sameEnds_ofToken outer_isBlank formed filled made).1 ?_ _
  refine last_ofToken reads formed made ?_
  rcases last with none | ⟨before', sugar, same⟩
  · left
    have last := last_of_lastWord_eq_nil none
    rwa [List.flatMap_append, List.flatMap_singleton, List.getLast?_append_of_ne_nil _ filled]
      at last
  · right
    exact ⟨sugar, (List.append_inj' same rfl).2 |> List.cons.inj |>.1⟩

/-- The mark of a string with placeholders is a word if the mark before was. -/
theorem interpolatedMark_word {mark : Text} (words : ∀ c ∈ mark, isWordChar c = true) :
    ∀ c ∈ interpolatedMark mark, isWordChar c = true := by
  rw [interpolatedMark]
  split
  · exact words
  · exact List.forall_mem_cons.mpr ⟨by decide, words⟩

/-- Where a string with placeholders stands in the expression: behind what the tokens before it
become and its own mark, and with as many strings before it as there were. -/
theorem exists_rewritten [Letters] {raw : Text} {e : Expression} {front back : List Token}
    {mark body : Text} {d : Delimiter} (ok : ofText raw = .ok e)
    (split : Token.readAll (trim raw) = front ++ .literal mark d body :: back)
    (active : Token.isTemplate (.literal mark d body) = true) :
    ∃ made body' after, List.Forall₂ (Rewritten ofText) front made ∧
      e.text = made.flatten.flatMap Part.text ++ interpolatedMark mark ++
        (d.text ++ body' ++ d.text ++ after) ∧
      d.Encloses body' after ∧
      Parted (d.text ++ body' ++ d.text ++ after)
        (made.flatten.flatMap Part.text ++ interpolatedMark mark)
        (made.flatten ++ (interpolatedMark mark).map .char) := by
  rw [ofText_eq] at ok
  obtain ⟨made, pairs, parted⟩ := parted_ofTokens ok
  rw [show Token.readAllFrom false (trim raw) = _ from split] at pairs
  obtain ⟨first, later, rfl, before, behind⟩ := exists_append_of_forall₂ pairs
  obtain ⟨parts, others, own, _, rfl⟩ := List.forall₂_cons_left_iff.mp behind
  cases own with
  | plain noString => cases noString
  | kept passive =>
    rw [active] at passive
    cases passive
  | @filled _ _ body' _ _ _ _ _ _ =>
    rw [List.flatten_append, List.flatten_cons, List.append_assoc, ← List.append_assoc,
      List.singleton_append] at parted
    obtain ⟨front', back', whole, cut, string⟩ := parted.exists_append
    have written := cut.text
    rw [List.flatMap_append, text_chars] at written
    subst written
    cases string with
    | @string _ _ after _ encloses _ =>
      rw [List.append_nil] at encloses cut
      exact ⟨first, body', after, before, whole, encloses, cut⟩

/-- Reserved words and marks have no digits. -/
theorem letters_of_legal {word : Text}
    (legal : word = [] ∨ word ∈ reservedWords ∨ word ∈ stringMarks) :
    ∀ c ∈ word, isWordStart c = true := by
  rcases legal with rfl | reserved | mark
  · intro c mem
    cases mem
  · exact List.all_eq_true.mp (reservedWords_spec reserved).2.2.1
  · exact List.all_eq_true.mp (stringMarks_spec mark).2.1

/-- What becomes of the word before a string: `f` alone behind range sugar, else the mark with an
`f`, else a reserved word with an `f`. -/
theorem lastWord_cases [Letters] {afterDot : Bool} {s word : Text} {front back : List Token}
    {mark body : Text} {d : Delimiter} {made : List (List Part)}
    (split : Token.readAllFrom afterDot s = front ++ .literal mark d body :: back)
    (pairs : List.Forall₂ (Rewritten inner) front made)
    (before : lastWord (front.flatMap Token.text ++ mark) = word)
    (legal : word = [] ∨ word ∈ reservedWords ∨ word ∈ stringMarks) :
    let made := lastWord (made.flatten.flatMap Part.text ++ interpolatedMark mark)
    (∃ sugar, front.getLast? = some (.range sugar)) ∧ made = ['f'] ∨
      (∀ sugar, front.getLast? ≠ some (.range sugar)) ∧
        (word ∉ reservedWords ∧ word = mark ∧ made = interpolatedMark word ∨
          word ∈ reservedWords ∧ made = word ++ ['f']) := by
  obtain ⟨words, isMark, _⟩ := Token.isMark_of_readAllFrom split
  have ended := ended_of_rewritten pairs
  rw [lastWord_append_of_all (interpolatedMark_word words)]
  by_cases sugared : ∃ before sugar, front = before ++ [.range sugar]
  · have none := lastWord_rewritten split pairs (.inr sugared)
    obtain ⟨before', sugar, rfl⟩ := sugared
    obtain rfl := Token.mark_eq_nil_of_range split
    rw [none]
    exact .inl ⟨⟨sugar, List.getLast?_concat⟩, rfl⟩
  have unsugared : ∀ sugar, front.getLast? ≠ some (.range sugar) := by
    intro sugar last
    obtain ⟨before', rfl⟩ := List.getLast?_eq_some_iff.mp last
    exact sugared ⟨before', sugar, rfl⟩
  refine .inr ⟨unsugared, ?_⟩
  -- The last word of the source is the mark itself, or the token before an unmarked string is a
  -- word, which is then a reserved one and stays as it is.
  rcases Token.cases_before_literal split ended (before ▸ letters_of_legal legal) with
    none | ⟨rfl, sugar | ⟨before', last, name, rfl, none, identifier, noMark, kind⟩⟩
  · left
    have same : word = mark := by
      rw [← before, lastWord_append_of_all words, none, List.nil_append]
    rw [lastWord_rewritten split pairs (.inl none), List.nil_append, same]
    refine ⟨fun reserved => ?_, rfl, rfl⟩
    obtain ⟨some, noMark, _⟩ := reservedWords_spec reserved
    rw [isMark some] at noMark
    cases noMark
  · exact absurd sugar sugared
  · right
    have nameWords := Text.isWordChar_of_mem_identifier identifier
    have spelled : last.text = name := by
      rcases kind with rfl | ⟨member, rfl⟩ <;> rfl
    have same : word = name := by
      rw [← before, List.append_nil, List.flatMap_append, List.flatMap_singleton, spelled,
        lastWord_append_of_all nameWords, none, List.nil_append]
    subst same
    have reserved : word ∈ reservedWords := by
      rcases legal with rfl | reserved | mark
      · cases identifier
      · exact reserved
      · rw [(stringMarks_spec mark).1] at noMark
        cases noMark
    refine ⟨reserved, ?_⟩
    rw [List.append_assoc] at split
    obtain ⟨first, later, rfl, others, own⟩ := exists_append_of_forall₂ pairs
    obtain ⟨parts, _, rewritten, more, rfl⟩ := List.forall₂_cons_left_iff.mp own
    cases more
    obtain ⟨e, made, written⟩ := rewritten.text
    have kept : e.text = word := by
      rcases kind with rfl | ⟨member, rfl⟩
      · obtain rfl := Except.ok.inj made
        rfl
      · obtain rfl := Except.ok.inj made
        rw [text_ofWord, (reservedWords_spec reserved).2.2.2.1]
    rw [List.flatten_append, List.flatten_singleton, List.flatMap_append, written, kept,
      lastWord_append_of_all nameWords, lastWord_rewritten split others (.inl none)]
    rfl

/-- The mark of a string with placeholders. Let the word right before the quote of the string be
empty, a reserved word or a mark of the target language. In the expression, the word right before
the quote is that word with an `f` put to it: before the mark if there is one that does not ask for
interpolation, behind a reserved word. Behind range sugar it is `f` alone. So it is a mark that
asks for interpolation unless the string is marked `u` or stands right behind a reserved word that
is not part of range sugar. -/
theorem ofText_mark [Letters] {raw word : Text} {e : Expression} {front back : List Token}
    {mark body : Text} {d : Delimiter} (ok : ofText raw = .ok e)
    (split : Token.readAll (trim raw) = front ++ .literal mark d body :: back)
    (active : Token.isTemplate (.literal mark d body) = true)
    (before : lastWord (front.flatMap Token.text ++ mark) = word)
    (legal : word = [] ∨ word ∈ reservedWords ∨ word ∈ stringMarks) :
    ∃ before' body' after parts,
      e.text = before' ++ (d.text ++ body' ++ d.text ++ after) ∧ d.Encloses body' after ∧
      Parted (d.text ++ body' ++ d.text ++ after) before' parts ∧
      (Part.strings parts).length = (front.filterMap Token.string?).length ∧
      ((∃ sugar, front.getLast? = some (.range sugar)) → lastWord before' = ['f']) ∧
      ((∀ sugar, front.getLast? ≠ some (.range sugar)) →
        lastWord before' = if word ∈ reservedWords then word ++ ['f'] else interpolatedMark word) ∧
      (lastWord before' ∈ formatMarks ↔
        word ∉ reservedWords ∧ word ∉ ["u".toList, "U".toList] ∨
          ∃ sugar, front.getLast? = some (.range sugar)) := by
  obtain ⟨made, body', after, pairs, written, encloses, parted⟩ := exists_rewritten ok split active
  have found := lastWord_cases split pairs before legal
  generalize made.flatten.flatMap Part.text ++ interpolatedMark mark = before' at *
  have counted : (Part.strings (made.flatten ++ (interpolatedMark mark).map .char)).length =
      (front.filterMap Token.string?).length := by
    rw [Token.strings_append, Token.strings_chars, List.append_nil]
    exact (survives_of_rewritten pairs).length_eq.symm
  refine ⟨before', body', after, _, written, encloses, parted, counted, ?_⟩
  rw [Token.isTemplate, Bool.and_eq_true] at active
  rcases found with ⟨⟨sugar, last⟩, same⟩ | ⟨noSugar, others⟩
  · refine ⟨fun _ => same, fun none => absurd last (none sugar), ?_⟩
    rw [same]
    exact iff_of_true (by decide) (.inr ⟨sugar, last⟩)
  have unsugared : ¬ ∃ sugar, front.getLast? = some (.range sugar) := by
    rintro ⟨sugar, last⟩
    exact noSugar sugar last
  refine ⟨fun sugar => absurd sugar unsugared, fun _ => ?_, ?_⟩
  · rcases others with ⟨noWord, _, same⟩ | ⟨reserved, same⟩
    · rw [if_neg noWord, same]
    · rw [if_pos reserved, same]
  rw [or_iff_left unsugared]
  rcases others with ⟨noWord, rfl, same⟩ | ⟨reserved, same⟩
  · rw [same]
    rcases legal with rfl | reserved | isMark
    · exact iff_of_true (by decide) ⟨noWord, by decide⟩
    · exact absurd reserved noWord
    · rcases (stringMarks_spec isMark).2.2 active.1 with ⟨mem, noU, kept⟩ | ⟨isU, noMark, put⟩
      · rw [kept]
        exact iff_of_true mem ⟨noWord, noU⟩
      · rw [put]
        exact iff_of_false noMark fun both => both.2 isU
  · rw [same]
    exact iff_of_false (reservedWords_spec reserved).2.2.2.2 fun both => both.1 reserved

/-- A string with a mark of two letters, behind a string without one: `("{ x }", Rf"{ y }")`. -/
theorem ofText_mark_pair :
    let raw := "(\"\x7b x \x7d\", Rf\"\x7b y \x7d\")".toList
    let code := "(f\"\x7bx\x7d\", Rf\"\x7by\x7d\")".toList
    let d : Delimiter := ⟨'"', false⟩
    (ofText raw).toOption.map Expression.text = some code ∧
      ∃ before body after parts, code = before ++ (d.text ++ body ++ d.text ++ after) ∧
        Parted (d.text ++ body ++ d.text ++ after) before parts ∧
        (Part.strings parts).length = 1 ∧ lastWord before = "Rf".toList ∧
        lastWord before ∈ formatMarks := by
  intro raw code d
  have found : (ofText raw).toOption.map Expression.text = some code := by decide +kernel
  obtain ⟨e, read, text⟩ := Option.map_eq_some_iff.mp found
  have ok : ofText raw = .ok e := eq_ok_of_toOption read
  have split : Token.readAll (trim raw) =
      (Token.readAll (trim raw)).take 4 ++
        .literal "Rf".toList d "\x7b y \x7d".toList :: [.symbol ')'] := by
    decide +kernel
  have before :
      lastWord (((Token.readAll (trim raw)).take 4).flatMap Token.text ++ "Rf".toList) =
        "Rf".toList := by
    decide +kernel
  obtain ⟨before', body, after, parts, written, _, parted, counted, _, same, marked⟩ :=
    ofText_mark ok split (by decide +kernel) before (.inr (.inr (by decide)))
  refine ⟨found, before', body, after, parts, text ▸ written, parted, ?_, ?_, ?_⟩
  · rw [counted]
    decide +kernel
  · have last : ((Token.readAll (trim raw)).take 4).getLast? = some (.symbol ' ') := by
      decide +kernel
    refine (same fun sugar => ?_).trans (by decide)
    rw [last]
    intro other
    cases other
  · exact marked.mpr (.inl (by decide))

/-- A string marked `u`, and one right behind a reserved word: `u"{x}"` and `x in"{y}"`. -/
theorem ofText_mark_joined :
    (ofText "u\"\x7bx\x7d\"".toList).toOption.map Expression.text = some "fu\"\x7bx\x7d\"".toList ∧
      "u".toList ∈ stringMarks ∧ "fu".toList ∉ formatMarks ∧
      (ofText "x in\"\x7by\x7d\"".toList).toOption.map Expression.text =
        some "x inf\"\x7by\x7d\"".toList ∧
      "in".toList ∈ reservedWords ∧ "inf".toList ∉ formatMarks := by
  decide +kernel

end Expression

end Outline
