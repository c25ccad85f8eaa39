import Outline.Text.Quoting
import Outline.Text.Word

/-!
# Tokens of a value

A value is read as a list of tokens: words, numbers, range sugar, string literals and single
characters. Reading never fails: a string literal that does not end is a token of its own. The
tokens written one after the other are the value again.
-/

set_option autoImplicit false

namespace Outline

/-- What opens and closes a string literal: a quote, or the same quote three times. -/
structure Delimiter where
  /-- The quote. -/
  quote : Char
  /-- Whether it stands three times. -/
  triple : Bool
  deriving DecidableEq, Repr

namespace Delimiter

/-- A delimiter as written. -/
def text (d : Delimiter) : Text := List.replicate (if d.triple then 3 else 1) d.quote

/-- The delimiter that a quote and the text after it start with. -/
def ofFront (quote : Char) (rest : Text) : Delimiter :=
  ⟨quote, (Text.after? [quote, quote] rest).isSome⟩

end Delimiter

/-- A token of a value. -/
inductive Token where
  /-- A word that does not follow a dot; `member` says whether a dot and an identifier follow. -/
  | word (name : Text) (member : Bool)
  /-- A word that follows a dot. -/
  | attribute (name : Text)
  /-- A number. -/
  | number (digits : Text)
  /-- The word `range` and what is joined to it by dots. -/
  | range (sugar : Text)
  /-- A string literal with the mark before it, such as `r` or `f`. -/
  | literal (mark : Text) (delimiter : Delimiter) (body : Text)
  /-- A string literal that does not end, and all that follows. -/
  | unterminated (rest : Text)
  /-- Any other character. -/
  | symbol (c : Char)
  deriving DecidableEq, Repr

namespace Token

/-- A token as written. -/
def text : Token → Text
  | .word name _ => name
  | .attribute name => name
  | .number digits => digits
  | .range sugar => sugar
  | .literal mark delimiter body => mark ++ delimiter.text ++ body ++ delimiter.text
  | .unterminated rest => rest
  | .symbol c => [c]

/-! ## String literals -/

/-- Whether a word is a mark that may stand before a string literal. -/
def isMark (word : Text) : Bool := word.length ≤ 2 && word.all "rbfuRBFU".toList.contains

/-- The body of a string literal up to its closing delimiter, and what follows that. A backslash
protects the character after it. -/
def readBody? (delimiter : Delimiter) : Text → Option (Text × Text)
  | [] => none
  | c :: rest =>
    match Text.after? delimiter.text (c :: rest) with
    | some after => some ([], after)
    | none =>
      if c = '\\' then
        match rest with
        | [] => none
        | e :: rest =>
          (readBody? delimiter rest).map fun (body, after) => (c :: e :: body, after)
      else (readBody? delimiter rest).map fun (body, after) => (c :: body, after)

/-- The string literal that starts with a quote, after a mark, and what follows it. -/
def readLiteral (mark : Text) (quote : Char) (rest : Text) : Token × Text :=
  let delimiter := Delimiter.ofFront quote rest
  match readBody? delimiter ((quote :: rest).drop delimiter.text.length) with
  | some (body, after) => (.literal mark delimiter body, after)
  | none => (.unterminated (mark ++ quote :: rest), [])

/-! ## Words and numbers -/

/-- The longest number at the front of a text: characters of words, and dots before a digit. -/
def cutNumber : Text → Text × Text
  | [] => ([], [])
  | c :: rest =>
    if Text.isWordChar c || c == '.' && rest.head?.any Char.isDigit then
      let (digits, after) := cutNumber rest
      (c :: digits, after)
    else ([], c :: rest)

/-- The longest run of dots, characters of words, and minus signs right after a dot. -/
def cutSugar (previous : Char) : Text → Text × Text
  | [] => ([], [])
  | c :: rest =>
    if Text.isWordChar c || c == '.' || c == '-' && previous == '.' then
      let (sugar, after) := cutSugar c rest
      (c :: sugar, after)
    else ([], c :: rest)

/-- Whether a dot and an identifier follow. -/
def followedByMember (after : Text) : Bool :=
  match after with
  | '.' :: c :: _ => Text.isWordStart c
  | _ => false

/-- The token that a word starts, given what follows the word. -/
def readWord (afterDot : Bool) (name after : Text) : Token × Text :=
  match after with
  | [] => (if afterDot then .attribute name else .word name false, [])
  | c :: rest =>
    if Text.isQuote c && isMark name then readLiteral name c rest
    else if afterDot then (.attribute name, after)
    else if name = "range".toList ∧ c = '.' then
      let (sugar, after) := cutSugar 'e' after
      (.range (name ++ sugar), after)
    else (.word name (followedByMember after), after)

/-- The token at the front of a text, and what follows it. -/
def read (afterDot : Bool) (c : Char) (rest : Text) : Token × Text :=
  if Text.isQuote c then readLiteral [] c rest
  else if Text.isWordStart c then
    readWord afterDot (Text.leadingWord (c :: rest)) (Text.afterWord (c :: rest))
  else if c.isDigit then
    let (digits, after) := cutNumber (c :: rest)
    (.number digits, after)
  else (.symbol c, rest)

/-- Whether the next token follows a dot, blanks not counted. -/
def leavesDot (afterDot : Bool) : Token → Bool
  | .symbol c => if Text.isBlank c then afterDot else c == '.'
  | _ => false

/-! ## Nothing is lost -/

/-- A number and what follows it are the text. -/
theorem text_cutNumber (s : Text) : (cutNumber s).1 ++ (cutNumber s).2 = s := by
  induction s with
  | nil => rfl
  | cons c rest ih =>
    rw [cutNumber]
    split
    · exact congrArg (c :: ·) ih
    · rfl

/-- Range sugar and what follows it are the text. -/
theorem text_cutSugar (previous : Char) (s : Text) :
    (cutSugar previous s).1 ++ (cutSugar previous s).2 = s := by
  induction s generalizing previous with
  | nil => rfl
  | cons c rest ih =>
    rw [cutSugar]
    split
    · exact congrArg (c :: ·) (ih c)
    · rfl

/-- A body, its delimiter and what follows are the text. -/
theorem text_readBody {delimiter : Delimiter} {s body after : Text}
    (read : readBody? delimiter s = some (body, after)) : body ++ delimiter.text ++ after = s := by
  fun_induction readBody? delimiter s generalizing body with
  | case1 => cases read
  | case2 c rest after' closes =>
    obtain ⟨rfl, rfl⟩ := Prod.mk.inj (Option.some.inj read)
    exact (Text.after?_eq_some_iff.mp closes).symm
  | case3 => cases read
  | case4 e rest _ ih =>
    obtain ⟨⟨body', after'⟩, hrest, heq⟩ := Option.map_eq_some_iff.mp read
    obtain ⟨rfl, rfl⟩ := Prod.mk.inj heq
    simp only [List.cons_append, ih hrest]
  | case5 c rest _ _ ih =>
    obtain ⟨⟨body', after'⟩, hrest, heq⟩ := Option.map_eq_some_iff.mp read
    obtain ⟨rfl, rfl⟩ := Prod.mk.inj heq
    simp only [List.cons_append, ih hrest]

theorem text_ofFront (quote : Char) (rest : Text) :
    (Delimiter.ofFront quote rest).text ++
      (quote :: rest).drop (Delimiter.ofFront quote rest).text.length = quote :: rest := by
  cases front : Text.after? [quote, quote] rest with
  | none => simp [Delimiter.ofFront, Delimiter.text, front]
  | some after =>
    obtain rfl := Text.after?_eq_some_iff.mp front
    rw [Delimiter.ofFront, front]
    rfl

/-- A string literal and what follows it are the text, also if it does not end. -/
theorem text_readLiteral (mark : Text) (quote : Char) (rest : Text) :
    (readLiteral mark quote rest).1.text ++ (readLiteral mark quote rest).2 =
      mark ++ quote :: rest := by
  rw [readLiteral]
  split
  next body after read =>
    simp only [text, List.append_assoc]
    rw [← List.append_assoc body, text_readBody read, text_ofFront]
  next => simp [text]

/-- A token that starts with a word and what follows it are the text. -/
theorem text_readWord (afterDot : Bool) (name after : Text) :
    (readWord afterDot name after).1.text ++ (readWord afterDot name after).2 = name ++ after := by
  cases after with
  | nil => cases afterDot <;> rfl
  | cons c rest =>
    rw [readWord]
    split
    · exact text_readLiteral name c rest
    · split
      · rfl
      · split
        · simp only [text, List.append_assoc, text_cutSugar]
        · rfl

/-- A token and what follows it are the text it was read from. -/
theorem text_read (afterDot : Bool) (c : Char) (rest : Text) :
    (read afterDot c rest).1.text ++ (read afterDot c rest).2 = c :: rest := by
  rw [read]
  split
  · exact text_readLiteral [] c rest
  · split
    · rw [text_readWord, Text.leadingWord, Text.afterWord, List.takeWhile_append_dropWhile]
    · split
      · exact text_cutNumber (c :: rest)
      · rfl

/-! ## Each token takes something -/

/-- A delimiter is at least one quote. -/
theorem text_delimiter_ne_nil (delimiter : Delimiter) : delimiter.text ≠ [] := by
  cases delimiter with
  | mk quote triple => cases triple <;> simp [Delimiter.text]

theorem text_readLiteral_ne_nil (mark : Text) (quote : Char) (rest : Text) :
    (readLiteral mark quote rest).1.text ≠ [] := by
  rw [readLiteral]
  split
  · simp [text, text_delimiter_ne_nil]
  · simp [text]

theorem text_readWord_ne_nil {afterDot : Bool} {name after : Text} (nonempty : name ≠ []) :
    (readWord afterDot name after).1.text ≠ [] := by
  cases after with
  | nil => cases afterDot <;> exact nonempty
  | cons c rest =>
    rw [readWord]
    split
    · exact text_readLiteral_ne_nil name c rest
    · split
      · exact nonempty
      · split
        · simp [text, nonempty]
        · exact nonempty

/-- No token is empty. -/
theorem text_read_ne_nil (afterDot : Bool) (c : Char) (rest : Text) :
    (read afterDot c rest).1.text ≠ [] := by
  rw [read]
  split
  · exact text_readLiteral_ne_nil [] c rest
  · split
    next start =>
      refine text_readWord_ne_nil ?_
      simp [Text.leadingWord, Text.isWordChar_of_isWordStart start]
    next =>
      split
      next digit => simp [text, cutNumber, Text.isWordChar_of_isDigit digit]
      next => simp [text]

/-- Reading a token leaves less, so reading all tokens comes to an end. -/
theorem length_read_lt (afterDot : Bool) (c : Char) (rest : Text) :
    (read afterDot c rest).2.length < (c :: rest).length := by
  have whole := congrArg List.length (text_read afterDot c rest)
  have some := List.length_pos_iff.mpr (text_read_ne_nil afterDot c rest)
  rw [List.length_append] at whole
  omega

/-! ## All tokens -/

/-- The tokens of a text, of which the first may follow a dot. -/
def readAllFrom (afterDot : Bool) (s : Text) : List Token :=
  match s with
  | [] => []
  | c :: rest =>
    (read afterDot c rest).1 ::
      readAllFrom (leavesDot afterDot (read afterDot c rest).1) (read afterDot c rest).2
termination_by s.length
decreasing_by exact length_read_lt afterDot c rest

/-- The tokens of a text. -/
def readAll (s : Text) : List Token := readAllFrom false s

theorem text_readAllFrom (afterDot : Bool) (s : Text) :
    (readAllFrom afterDot s).flatMap text = s := by
  fun_induction readAllFrom afterDot s with
  | case1 => rfl
  | case2 afterDot c rest ih => rw [List.flatMap_cons, ih, text_read]

/-- The tokens of a text, written one after the other, are the text. -/
theorem text_readAll (s : Text) : (readAll s).flatMap text = s := text_readAllFrom false s

end Token
end Outline
