import Outline.Expression.Token
import Outline.Proofs.Checked.Basic

/-!
# Reading tokens by index

A value is read into tokens by a program that moves an index over its characters: it looks at the
characters from the index on, and takes a token as the range between two indices. A backslash in a
string moves the index by two, past the end if it is the last character. An index that is still in
the value when a string ends is what makes the range of its body defined. Reading has no trap and
gives the tokens that the library reads.
-/

set_option autoImplicit false

namespace Outline.Checked

open Text

/-! ## Runs -/

/-- The index at which a run of characters ends. -/
def runEnd (goesOn : Nat → Char → Bool) (chars : Text) (i : Nat) : Nat :=
  match _here : chars[i]? with
  | none => i
  | some c => if goesOn i c then runEnd goesOn chars (i + 1) else i
termination_by chars.length - i
decreasing_by
  have := (List.getElem?_eq_some_iff.mp _here).1
  omega

/-- The index counts what has been read, so what follows is found behind it. -/
theorem getElem?_next {chars before rest : Text} (whole : chars = before ++ rest) (k : Nat) :
    chars[before.length + k]? = rest[k]? := by
  rw [whole, List.getElem?_append_right (Nat.le_add_right _ _), Nat.add_sub_cancel_left]

theorem runEnd_nil (goesOn : Nat → Char → Bool) {chars before : Text}
    (whole : chars = before ++ []) : runEnd goesOn chars before.length = before.length := by
  have here := getElem?_next whole 0
  rw [runEnd]
  split
  next => rfl
  next c same => cases here.symm.trans same

/-- A run goes on over a character of its kind. -/
theorem runEnd_cons (goesOn : Nat → Char → Bool) {chars before rest : Text} {c : Char}
    (whole : chars = before ++ c :: rest) :
    runEnd goesOn chars before.length =
      if goesOn before.length c then runEnd goesOn chars (before ++ [c]).length
      else before.length := by
  have here := getElem?_next whole 0
  rw [runEnd]
  split
  next none => cases here.symm.trans none
  next d same =>
    obtain rfl := Option.some.inj (here.symm.trans same)
    rw [List.length_append]
    rfl

/-- Whether a word goes on. -/
def inWord (_i : Nat) (c : Char) : Bool := isWordChar c

/-- Whether a number goes on. -/
def inNumber (chars : Text) (i : Nat) (c : Char) : Bool :=
  isWordChar c || c == '.' && chars[i + 1]?.any Char.isDigit

/-- Whether range sugar goes on. -/
def inSugar (chars : Text) (i : Nat) (c : Char) : Bool :=
  isWordChar c || c == '.' || c == '-' && (if i = 0 then none else chars[i - 1]?) == some '.'

theorem runEnd_word {chars before rest : Text} (whole : chars = before ++ rest) :
    runEnd inWord chars before.length = before.length + (leadingWord rest).length := by
  induction rest generalizing before with
  | nil => rw [runEnd_nil _ whole]; rfl
  | cons c rest ih =>
    have further : chars = (before ++ [c]) ++ rest := by simp [whole]
    rw [runEnd_cons _ whole, ih further, inWord, leadingWord, leadingWord, List.takeWhile_cons]
    split
    · rw [List.length_append, Nat.add_right_comm]
      rfl
    · rfl

/-- The run of a number ends where the number does. -/
theorem runEnd_number {chars before rest : Text} (whole : chars = before ++ rest) :
    runEnd (inNumber chars) chars before.length =
      before.length + (Token.cutNumber rest).1.length := by
  induction rest generalizing before with
  | nil => rw [runEnd_nil _ whole]; rfl
  | cons c rest ih =>
    have further : chars = (before ++ [c]) ++ rest := by simp [whole]
    have next : chars[before.length + 1]? = rest.head? := by
      rw [getElem?_next whole, List.getElem?_cons_succ, List.head?_eq_getElem?]
    rw [runEnd_cons _ whole, ih further, inNumber, next, Token.cutNumber]
    split
    · rw [List.length_append, Nat.add_right_comm]
      rfl
    · rfl

/-- The run of range sugar ends where the sugar does. The character before it is looked up. -/
theorem runEnd_sugar {chars before rest : Text} {previous : Char}
    (whole : chars = before ++ [previous] ++ rest) :
    runEnd (inSugar chars) chars (before ++ [previous]).length =
      (before ++ [previous]).length + (Token.cutSugar previous rest).1.length := by
  induction rest generalizing before previous with
  | nil => rw [runEnd_nil _ whole]; rfl
  | cons c rest ih =>
    have further : chars = (before ++ [previous]) ++ [c] ++ rest := by simp [whole]
    have last : chars[before.length]? = some previous := by simp [whole]
    have test : inSugar chars (before ++ [previous]).length c =
        (isWordChar c || c == '.' || c == '-' && previous == '.') := by
      simp [inSugar, last]
    rw [runEnd_cons _ whole, ih further, test, Token.cutSugar]
    split
    · have size : (before ++ [previous] ++ [c]).length = (before ++ [previous]).length + 1 :=
        List.length_append
      rw [size, Nat.add_right_comm]
      rfl
    · rfl

/-! ## String literals -/

/-- The index at which the body of a string literal ends and its delimiter starts. A backslash
takes the index past the character after it, or past the end. -/
def bodyEnd? (delimiter : Delimiter) (chars : Text) (i : Nat) : Option Nat :=
  match _here : chars[i]? with
  | none => none
  | some c =>
    let closes := c == delimiter.quote && (!delimiter.triple ||
      chars[i + 1]? == some delimiter.quote && chars[i + 2]? == some delimiter.quote)
    if c = '\\' then bodyEnd? delimiter chars (i + 2)
    else if closes then some i
    else bodyEnd? delimiter chars (i + 1)
termination_by chars.length - i
decreasing_by
  all_goals
    have := (List.getElem?_eq_some_iff.mp _here).1
    omega

theorem bodyEnd?_nil (delimiter : Delimiter) {chars : Text} {i : Nat} (none : chars[i]? = none) :
    bodyEnd? delimiter chars i = .none := by
  rw [bodyEnd?]
  split
  next => rfl
  next c here => cases none.symm.trans here

/-- A delimiter stands at a quote if the quote is all of it, or if two more follow. -/
theorem isSome_after?_delimiter (delimiter : Delimiter) (c : Char) (rest : Text) :
    (after? delimiter.text (c :: rest)).isSome =
      (c == delimiter.quote && (!delimiter.triple ||
        rest[0]? == some delimiter.quote && rest[1]? == some delimiter.quote)) := by
  obtain ⟨quote, triple⟩ := delimiter
  by_cases same : quote = c
  · subst same
    cases triple with
    | false => simp [Delimiter.text, after?]
    | true =>
      rcases rest with _ | ⟨d, _ | ⟨e, rest⟩⟩
      · simp [Delimiter.text, after?]
      · simp [Delimiter.text, after?]
      · by_cases second : quote = d
        · subst second
          by_cases third : quote = e
          · simp [Delimiter.text, after?, third]
          · simp [Delimiter.text, after?, third, Ne.symm third]
        · simp [Delimiter.text, after?, second, Ne.symm second]
  · cases triple <;> simp [Delimiter.text, after?, same, Ne.symm same]

/-- What is done at the next character of the body of a string literal. -/
theorem bodyEnd?_cons (delimiter : Delimiter) {chars before rest : Text} {c : Char}
    (whole : chars = before ++ c :: rest) :
    bodyEnd? delimiter chars before.length =
      if c = '\\' then bodyEnd? delimiter chars (before.length + 2)
      else if (after? delimiter.text (c :: rest)).isSome then some before.length
      else bodyEnd? delimiter chars (before.length + 1) := by
  have here := getElem?_next whole 0
  have second := getElem?_next whole 1
  have third := getElem?_next whole 2
  rw [List.getElem?_cons_succ] at second third
  rw [bodyEnd?]
  split
  next none => cases here.symm.trans none
  next d same =>
    obtain rfl := Option.some.inj (here.symm.trans same)
    rw [isSome_after?_delimiter, second, third]

/-- The body of a string ends at the index where its closing delimiter stands. -/
theorem bodyEnd?_eq {delimiter : Delimiter} (quoted : isQuote delimiter.quote = true)
    {chars before rest : Text} (whole : chars = before ++ rest) :
    bodyEnd? delimiter chars before.length =
      (Token.readBody? delimiter rest).map fun parts => before.length + parts.1.length := by
  fun_induction Token.readBody? delimiter rest generalizing before with
  | case1 =>
    have none : chars[before.length]? = none := getElem?_next whole 0
    rw [bodyEnd?_nil delimiter none]
    rfl
  | case2 c rest after closes =>
    have plain : c ≠ '\\' := by
      rintro rfl
      have same := isSome_after?_delimiter delimiter '\\' rest
      rw [closes, Option.isSome_some, eq_comm, Bool.and_eq_true, beq_iff_eq] at same
      rw [← same.1] at quoted
      cases quoted
    rw [bodyEnd?_cons delimiter whole, if_neg plain, closes]
    rfl
  | case3 =>
    rw [bodyEnd?_cons delimiter whole, if_pos rfl, bodyEnd?_nil delimiter (getElem?_next whole 2)]
    rfl
  | case4 e rest opened ih =>
    have further : chars = (before ++ ['\\', e]) ++ rest := by simp [whole]
    have size : (before ++ ['\\', e]).length = before.length + 2 := List.length_append
    rw [bodyEnd?_cons delimiter whole, if_pos rfl, ← size, ih further, size]
    cases Token.readBody? delimiter rest with
    | none => rfl
    | some parts =>
      simp only [Option.map_some, List.length_cons, Option.some.injEq]
      omega
  | case5 c rest opened plain ih =>
    have further : chars = (before ++ [c]) ++ rest := by simp [whole]
    have size : (before ++ [c]).length = before.length + 1 := List.length_append
    rw [bodyEnd?_cons delimiter whole, if_neg plain, if_neg (by simp [opened]), ← size, ih further,
      size]
    cases Token.readBody? delimiter rest with
    | none => rfl
    | some parts =>
      simp only [Option.map_some, List.length_cons, Option.some.injEq]
      omega

/-- The delimiter that starts at an index. -/
def delimiterAt (quote : Char) (chars : Text) (i : Nat) : Delimiter :=
  ⟨quote, chars[i + 1]? == some quote && chars[i + 2]? == some quote⟩

theorem delimiterAt_eq {chars before rest : Text} {quote : Char}
    (whole : chars = before ++ quote :: rest) :
    delimiterAt quote chars before.length = Delimiter.ofFront quote rest := by
  have thrice := isSome_after?_delimiter ⟨quote, true⟩ quote rest
  have twice : after? (Delimiter.text ⟨quote, true⟩) (quote :: rest) = after? [quote, quote] rest :=
    if_pos rfl
  rw [twice, beq_self_eq_true, Bool.true_and, Bool.not_true, Bool.false_or] at thrice
  rw [delimiterAt, getElem?_next whole, getElem?_next whole, Delimiter.ofFront, thrice]
  rfl

/-- The string literal that starts at an index, after a mark, and the index behind it. -/
def readLiteral (mark chars : Text) (i : Nat) : Checked (Token × Nat) := do
  let quote ← get chars i
  let delimiter := delimiterAt quote chars i
  let start := i + delimiter.text.length
  match bodyEnd? delimiter chars start with
  | none => return (.unterminated (mark ++ chars.drop i), chars.length)
  | some stop =>
    let body ← slice chars start stop
    return (.literal mark delimiter body, stop + delimiter.text.length)

/-- A string literal is the range of its characters, or all that is left. -/
theorem readLiteral_eq {mark chars before rest : Text} {quote : Char}
    (quoted : isQuote quote = true) (whole : chars = (before ++ mark) ++ quote :: rest) :
    readLiteral mark chars (before ++ mark).length =
      .ok ((Token.readLiteral mark quote rest).1,
        before.length + (Token.readLiteral mark quote rest).1.text.length) := by
  have here : get chars (before ++ mark).length = .ok quote :=
    get_of_getElem? (getElem?_next whole 0)
  rw [readLiteral, here, ok_bind, delimiterAt_eq whole, Token.readLiteral]
  dsimp only
  have opened := Token.text_ofFront quote rest
  have sameQuote : (Delimiter.ofFront quote rest).quote = quote := rfl
  generalize Delimiter.ofFront quote rest = delimiter at opened sameQuote ⊢
  generalize (quote :: rest).drop delimiter.text.length = inner at opened ⊢
  have body : chars = (before ++ mark ++ delimiter.text) ++ inner := by
    rw [whole, ← opened, List.append_assoc (before ++ mark)]
  rw [← List.length_append, bodyEnd?_eq (sameQuote ▸ quoted) body]
  cases closed : Token.readBody? delimiter inner with
  | none =>
    have left : chars.drop (before ++ mark).length = quote :: rest := by
      rw [whole, List.drop_left]
    have size : chars.length = before.length + (mark ++ quote :: rest).length := by
      rw [whole, List.append_assoc, List.length_append]
    rw [left, size]
    rfl
  | some parts =>
    obtain ⟨text, after⟩ := parts
    have range : chars =
        (before ++ mark ++ delimiter.text) ++ text ++ (delimiter.text ++ after) := by
      rw [body, ← Token.text_readBody closed]
      simp only [List.append_assoc]
    have size : (before ++ mark ++ delimiter.text).length + text.length + delimiter.text.length =
        before.length + (mark ++ delimiter.text ++ text ++ delimiter.text).length := by
      simp only [List.length_append]
      omega
    rw [Option.map_some]
    dsimp only
    rw [slice_append range rfl rfl, ok_bind, size]
    rfl

/-! ## Words and other tokens -/

/-- The token that the word from an index on starts, and the index behind it. -/
def readWord (afterDot : Bool) (chars : Text) (start : Nat) : Checked (Token × Nat) := do
  let stop := runEnd inWord chars start
  let name ← slice chars start stop
  if chars[stop]?.any isQuote && Token.isMark name then readLiteral name chars stop
  else if afterDot then return (.attribute name, stop)
  else if name = "range".toList ∧ chars[stop]? = some '.' then
    let last := runEnd (inSugar chars) chars stop
    let sugar ← slice chars start last
    return (.range sugar, last)
  else
    return (.word name (chars[stop]? == some '.' && chars[stop + 1]?.any isWordStart), stop)

theorem followedByMember_eq (c : Char) (rest : Text) :
    Token.followedByMember (c :: rest) = (some c == some '.' && rest[0]?.any isWordStart) := by
  cases rest with
  | nil => simp [Token.followedByMember]
  | cons d rest =>
    by_cases dot : c = '.'
    · simp [Token.followedByMember, dot]
    · simp [Token.followedByMember, dot]

theorem readSugar_eq {chars before name after : Text} (isRange : name = "range".toList)
    (whole : chars = (before ++ name) ++ after) :
    runEnd (inSugar chars) chars (before ++ name).length =
        before.length + (name ++ (Token.cutSugar 'e' after).1).length ∧
      slice chars before.length (before.length + (name ++ (Token.cutSugar 'e' after).1).length) =
        .ok (name ++ (Token.cutSugar 'e' after).1) := by
  have last : before ++ name = (before ++ "rang".toList) ++ ['e'] := by simp [isRange]
  have range : chars =
      before ++ (name ++ (Token.cutSugar 'e' after).1) ++ (Token.cutSugar 'e' after).2 := by
    rw [whole, List.append_assoc, List.append_assoc, List.append_assoc, Token.text_cutSugar]
  refine ⟨?_, slice_append range rfl rfl⟩
  have ended := runEnd_sugar (last ▸ whole)
  rw [← last] at ended
  rw [ended, List.length_append, List.length_append, Nat.add_assoc]

/-- A token that starts with a word is read without a trap, and the index behind it is found. -/
theorem readWord_eq (afterDot : Bool) {chars before name after : Text}
    (whole : chars = (before ++ name) ++ after) (isWord : leadingWord (name ++ after) = name) :
    readWord afterDot chars before.length =
      .ok ((Token.readWord afterDot name after).1,
        before.length + (Token.readWord afterDot name after).1.text.length) := by
  have stop : runEnd inWord chars before.length = (before ++ name).length := by
    rw [runEnd_word (whole.trans (List.append_assoc _ _ _)), isWord, List.length_append]
  have here : chars[(before ++ name).length]? = after[0]? := getElem?_next whole 0
  rw [readWord, stop, slice_append whole rfl List.length_append, ok_bind, here,
    getElem?_next whole 1]
  cases after with
  | nil =>
    cases afterDot <;> simp [Token.readWord, Token.text] <;> rfl
  | cons c rest =>
    rw [Token.readWord]
    simp only [List.getElem?_cons_zero, List.getElem?_cons_succ, Option.any_some]
    split
    next marked => exact readLiteral_eq (Bool.and_eq_true_iff.mp marked).1 whole
    next =>
      split
      next =>
        rw [List.length_append]
        rfl
      next =>
        by_cases sugared : name = "range".toList ∧ c = '.'
        · obtain ⟨isRange, rfl⟩ := sugared
          obtain ⟨last, sugar⟩ := readSugar_eq isRange whole
          rw [if_pos ⟨isRange, rfl⟩, if_pos ⟨isRange, rfl⟩, last]
          dsimp only
          rw [sugar, ok_bind]
          rfl
        · have plain : ¬(name = "range".toList ∧ some c = some '.') := by
            rintro ⟨isRange, same⟩
            exact sugared ⟨isRange, Option.some.inj same⟩
          rw [if_neg plain, if_neg sugared, followedByMember_eq, List.length_append]
          rfl

/-- The token at an index, where a given character stands, and the index behind it. -/
def read (afterDot : Bool) (chars : Text) (i : Nat) (c : Char) : Checked (Token × Nat) :=
  if isQuote c then readLiteral [] chars i
  else if isWordStart c then readWord afterDot chars i
  else if c.isDigit then do
    let stop := runEnd (inNumber chars) chars i
    let digits ← slice chars i stop
    return (.number digits, stop)
  else return (.symbol c, i + 1)

/-- A token is read without a trap, and the index behind it is found. -/
theorem read_eq (afterDot : Bool) {chars before rest : Text} {c : Char}
    (whole : chars = before ++ c :: rest) :
    read afterDot chars before.length c =
      .ok ((Token.read afterDot c rest).1,
        before.length + (Token.read afterDot c rest).1.text.length) := by
  rw [read, Token.read]
  split
  next quoted =>
    have unmarked : chars = (before ++ []) ++ c :: rest := by rw [whole, List.append_nil]
    have literal := readLiteral_eq quoted unmarked
    rwa [List.append_nil] at literal
  next =>
    split
    next =>
      have word : leadingWord (c :: rest) ++ afterWord (c :: rest) = c :: rest :=
        List.takeWhile_append_dropWhile
      have parts : chars = (before ++ leadingWord (c :: rest)) ++ afterWord (c :: rest) := by
        rw [whole, List.append_assoc, word]
      exact readWord_eq afterDot parts (by rw [word])
    next =>
      split
      next =>
        have parts : chars =
            before ++ (Token.cutNumber (c :: rest)).1 ++ (Token.cutNumber (c :: rest)).2 := by
          rw [whole, List.append_assoc, Token.text_cutNumber]
        rw [runEnd_number whole]
        dsimp only
        rw [slice_append parts rfl rfl, ok_bind]
        rfl
      next => rfl

/-! ## All tokens -/

/-- Each token moves the index on, so reading comes to an end. -/
theorem lt_of_read {afterDot : Bool} {chars : Text} {i next : Nat} {c : Char} {token : Token}
    (here : chars[i]? = some c) (ok : read afterDot chars i c = .ok (token, next)) : i < next := by
  obtain ⟨inside, rfl⟩ := List.getElem?_eq_some_iff.mp here
  have whole : chars = chars.take i ++ chars[i] :: chars.drop (i + 1) := by
    rw [List.getElem_cons_drop, List.take_append_drop]
  have size : (chars.take i).length = i := by
    rw [List.length_take, Nat.min_eq_left (Nat.le_of_lt inside)]
  have known := read_eq afterDot whole
  rw [size] at known
  obtain ⟨rfl, rfl⟩ := Prod.mk.inj (Except.ok.inj (known.symm.trans ok))
  have := List.length_pos_iff.mpr (Token.text_read_ne_nil afterDot chars[i] (chars.drop (i + 1)))
  omega

/-- The tokens from an index on, of which the first may follow a dot. -/
def readAllFrom (afterDot : Bool) (chars : Text) (i : Nat) : Checked (List Token) :=
  match _here : chars[i]? with
  | none => .ok []
  | some c =>
    match _read : read afterDot chars i c with
    | .error trap => .error trap
    | .ok (token, next) => do
      let tokens ← readAllFrom (Token.leavesDot afterDot token) chars next
      return token :: tokens
termination_by chars.length - i
decreasing_by
  have := (List.getElem?_eq_some_iff.mp _here).1
  have := lt_of_read _here _read
  omega

/-- The tokens of a text are read without a trap. -/
theorem readAllFrom_eq (afterDot : Bool) {chars before rest : Text}
    (whole : chars = before ++ rest) :
    readAllFrom afterDot chars before.length = .ok (Token.readAllFrom afterDot rest) := by
  fun_induction Token.readAllFrom afterDot rest generalizing before with
  | case1 afterDot =>
    have none : chars[before.length]? = none := getElem?_next whole 0
    rw [readAllFrom]
    split
    next => rfl
    next c here => cases none.symm.trans here
  | case2 afterDot c rest ih =>
    have here : chars[before.length]? = some c := getElem?_next whole 0
    have further : chars =
        (before ++ (Token.read afterDot c rest).1.text) ++ (Token.read afterDot c rest).2 := by
      rw [whole, List.append_assoc, Token.text_read]
    rw [readAllFrom]
    split
    next none => cases here.symm.trans none
    next d same =>
      obtain rfl := Option.some.inj (here.symm.trans same)
      split
      next trap failed => cases (read_eq afterDot whole).symm.trans failed
      next token next ok =>
        obtain ⟨rfl, rfl⟩ := Prod.mk.inj (Except.ok.inj ((read_eq afterDot whole).symm.trans ok))
        rw [← List.length_append, ih further]
        rfl

/-- The tokens of a text. -/
def readAll (chars : Text) : Checked (List Token) := readAllFrom false chars 0

theorem readAll_eq (chars : Text) : readAll chars = .ok (Token.readAll chars) :=
  readAllFrom_eq false (List.nil_append chars).symm

end Outline.Checked
