import Outline.Header.Edition
import Outline.Proofs.Balance

/-!
# Values without strings

A value without strings and range sugar is nearly left as it is. It is cut into words, numbers and
single characters (`Lexeme.readAll`), without regard to dots; whether a word follows a dot is told
by the text before it. The value is accepted exactly when its brackets are nested (`Text.Nested`, a
grammar that knows nothing of open brackets), and then only the words `true`, `false` and `null`
that follow no dot change.
-/

set_option autoImplicit false

namespace Outline

/-! ## Nested brackets -/

namespace Text

/-- Texts in which each opening bracket has a closing one of its kind, with a nested text between
them, and each closing bracket has an opening one. -/
inductive Nested : Text → Prop
  | nil : Nested []
  | plain {c : Char} {s : Text} (noOpening : isOpening c = false) (noClosing : isClosing c = false)
      (rest : Nested s) : Nested (c :: s)
  | bracket {c : Char} {s t : Text} (opens : isOpening c = true) (inside : Nested s)
      (rest : Nested t) : Nested (c :: s ++ Expression.closingOf c :: t)

/-- What is left of a text when some brackets are open before it, innermost first: a nested text
before each bracket that closes one of them, and one behind the last. -/
def Closes : (opened : List Char) → Text → Prop
  | [], s => Nested s
  | innermost :: outer, s =>
    ∃ inside rest, s = inside ++ Expression.closingOf innermost :: rest ∧ Nested inside ∧
      Closes outer rest

variable {opened : List Char} {s t : Text} {c : Char}

/-- A character that is no bracket changes nothing in what is closed. -/
theorem Closes.plain (noOpening : isOpening c = false) (noClosing : isClosing c = false)
    (closes : Closes opened s) : Closes opened (c :: s) := by
  cases opened with
  | nil => exact .plain noOpening noClosing closes
  | cons innermost outer =>
    obtain ⟨inside, rest, rfl, nested, more⟩ := closes
    exact ⟨c :: inside, rest, rfl, .plain noOpening noClosing nested, more⟩

/-- An opening bracket is one more to be closed. -/
theorem Closes.bracket (opens : isOpening c = true) (closes : Closes (c :: opened) s) :
    Closes opened (c :: s) := by
  obtain ⟨inside, rest, rfl, nested, more⟩ := closes
  cases opened with
  | nil => exact .bracket opens nested more
  | cons innermost outer =>
    obtain ⟨next, rest, rfl, nested', more⟩ := more
    refine ⟨c :: inside ++ Expression.closingOf c :: next, rest, ?_, .bracket opens nested nested',
      more⟩
    simp

/-- A nested text leaves the open brackets as they are. -/
theorem openAfter?_nested (noQuote : ∀ c ∈ s, isQuote c = false) (nested : Nested s)
    (opened : List Char) (t : Text) : openAfter? opened (s ++ t) = openAfter? opened t := by
  induction nested generalizing opened t with
  | nil => rfl
  | @plain c s noOpening noClosing _ ih =>
    obtain ⟨own, later⟩ := List.forall_mem_cons.mp noQuote
    rw [List.cons_append, openAfter?_neutral (by simp [Nesting.isNeutral, *])]
    exact ih later opened t
  | @bracket c s t' opens _ _ ihInside ihRest =>
    simp only [List.cons_append, List.forall_mem_cons, List.forall_mem_append] at noQuote
    obtain ⟨_, inside, _, rest⟩ := noQuote
    rw [List.cons_append, List.cons_append, List.append_assoc, openAfter?_opening opens,
      ihInside inside, List.cons_append, openAfter?_closing (closingOf_spec c).1 rfl]
    exact ihRest rest opened t

/-- A text that leaves no bracket open closes those before it, one after the other. -/
theorem closes_of_openAfter? (noQuote : ∀ c ∈ s, isQuote c = false)
    (closed : openAfter? opened s = some []) : Closes opened s := by
  induction s generalizing opened with
  | nil =>
    rw [openAfter?_nil] at closed
    obtain rfl := Option.some.inj closed
    exact .nil
  | cons c s ih =>
    obtain ⟨own, later⟩ := List.forall_mem_cons.mp noQuote
    rw [openAfter?.eq_def] at closed
    simp only [own, Bool.false_eq_true, if_false] at closed
    split at closed
    next opens => exact (ih later closed).bracket opens
    next noOpening =>
      split at closed
      next closes =>
        split at closed
        next => cases closed
        next innermost outer =>
          split at closed
          next same => exact ⟨[], s, by rw [same]; rfl, .nil, ih later closed⟩
          next => cases closed
      next noClosing =>
        exact (ih later closed).plain (Bool.eq_false_iff.mpr noOpening)
          (Bool.eq_false_iff.mpr noClosing)

/-- The brackets that are open tell whether a text without strings is nested. -/
theorem nested_iff (noQuote : ∀ c ∈ s, isQuote c = false) :
    Nested s ↔ openAfter? [] s = some [] := by
  constructor
  · intro nested
    have closed := openAfter?_nested noQuote nested [] []
    rwa [List.append_nil, openAfter?_nil] at closed
  · exact fun closed => closes_of_openAfter? noQuote closed

/-- Without strings, what follows a text goes on with the brackets that it leaves open. -/
theorem openAfter?_append_of_noQuote (noQuote : ∀ c ∈ s, isQuote c = false) (opened : List Char)
    (t : Text) :
    openAfter? opened (s ++ t) = (openAfter? opened s).bind fun left => openAfter? left t := by
  induction s generalizing opened with
  | nil => rw [openAfter?_nil, List.nil_append, Option.bind_some]
  | cons c s ih =>
    obtain ⟨own, later⟩ := List.forall_mem_cons.mp noQuote
    rw [List.cons_append, openAfter?.eq_def, openAfter?.eq_def opened (c :: s)]
    simp only [own, Bool.false_eq_true, if_false, ih later]
    split
    · rfl
    · split
      · cases opened with
        | nil => rfl
        | cons innermost outer =>
          show (if _ then _ else _) = (if _ then _ else _ : Option (List Char)).bind _
          split <;> rfl
      · rfl

/-- Blanks around a text do not matter. -/
theorem nested_trim_iff (noQuote : ∀ c ∈ s, isQuote c = false) : Nested (trim s) ↔ Nested s := by
  obtain ⟨lead, tail, split, blankLead, blankTail⟩ := exists_eq_trim_between s
  have passes (tail : Text) (blank : ∀ c ∈ tail, isBlank c = true) (opened : List Char) (t : Text) :
      openAfter? opened (tail ++ t) = openAfter? opened t :=
    openAfter?_neutrals (fun c mem => Nesting.isNeutral_of_isBlank (blank c mem)) opened t
  have inside : ∀ c ∈ trim s, isQuote c = false := fun c mem => noQuote c (mem_of_mem_trim mem)
  have ends (left : List Char) : openAfter? left tail = some left := by
    rw [← List.append_nil tail, passes tail blankTail, openAfter?_nil]
  have same : openAfter? [] s = openAfter? [] (trim s) :=
    calc openAfter? [] s
      _ = openAfter? [] (lead ++ trim s ++ tail) := congrArg (openAfter? []) split
      _ = openAfter? [] (trim s ++ tail) := by rw [List.append_assoc, passes lead blankLead]
      _ = (openAfter? [] (trim s)).bind some := by
        rw [openAfter?_append_of_noQuote inside, funext ends]
      _ = openAfter? [] (trim s) := Option.bind_fun_some _
  rw [nested_iff noQuote, nested_iff inside, same]

/-! ## After a dot -/

/-- Whether a text ends in a dot, blanks behind it not counted. -/
def endsInDot (s : Text) : Bool := (trimEnd s).getLast? == some '.'

/-- What a text ends in is told by its last ink. -/
theorem endsInDot_append_ink (last : t.getLast? = some c) (ink : isBlank c = false) (s : Text) :
    endsInDot (s ++ t) = (c == '.') := by
  have back : (s ++ t).getLast? = some c := by rw [List.getLast?_append, last]; rfl
  rw [endsInDot, trimEnd_eq_self, back, Option.some_beq_some]
  intro d mem
  rw [back] at mem
  obtain rfl := Option.some.inj mem
  exact ink

/-- A blank behind a text does not matter. -/
theorem endsInDot_append_blank (blank : isBlank c = true) (s : Text) :
    endsInDot (s ++ [c]) = endsInDot s := by
  rw [endsInDot, trimEnd, List.reverse_append, List.reverse_singleton, List.singleton_append,
    List.dropWhile_cons_of_pos blank]
  rfl

theorem isBlank_eq_false_of_isWordChar (word : isWordChar c = true) : isBlank c = false := by
  cases blank : isBlank c with
  | false => rfl
  | true =>
    rw [isWordChar_eq_false_of_isBlank blank] at word
    cases word

theorem ne_dot_of_isWordChar (word : isWordChar c = true) : c ≠ '.' := by
  rintro rfl
  exact absurd word (by decide)

/-- What ends in a word does not end in a dot. -/
theorem endsInDot_append_word (last : t.getLast? = some c) (word : isWordChar c = true) (s : Text) :
    endsInDot (s ++ t) = false := by
  rw [endsInDot_append_ink last (isBlank_eq_false_of_isWordChar word), beq_eq_false_iff_ne]
  exact ne_dot_of_isWordChar word

end Text

/-! ## Lexemes -/

/-- A word, a number or a single character. -/
inductive Lexeme where
  | word (name : Text)
  | number (digits : Text)
  | single (c : Char)
  deriving DecidableEq, Repr

namespace Lexeme

/-- A lexeme as written. -/
def text : Lexeme → Text
  | .word name => name
  | .number digits => digits
  | .single c => [c]

/-- The lexeme at the front of a text, and what follows it. -/
def read (c : Char) (rest : Text) : Lexeme × Text :=
  if Text.isWordStart c then (.word (Text.leadingWord (c :: rest)), Text.afterWord (c :: rest))
  else if c.isDigit then
    (.number (Token.cutNumber (c :: rest)).1, (Token.cutNumber (c :: rest)).2)
  else (.single c, rest)

/-- A lexeme and what follows it are the text it was read from. -/
theorem text_read (c : Char) (rest : Text) :
    (read c rest).1.text ++ (read c rest).2 = c :: rest := by
  rw [read]
  split
  · exact List.takeWhile_append_dropWhile
  · split
    · exact Token.text_cutNumber (c :: rest)
    · rfl

theorem length_read_lt (c : Char) (rest : Text) :
    (read c rest).2.length < (c :: rest).length := by
  have whole := congrArg List.length (text_read c rest)
  have some : 0 < (read c rest).1.text.length := by
    rw [read]
    split
    next start => simp [text, Text.leadingWord, Text.isWordChar_of_isWordStart start]
    next =>
      split
      next digit => simp [text, Token.cutNumber, Text.isWordChar_of_isDigit digit]
      next => simp [text]
  rw [List.length_append] at whole
  omega

/-- The lexemes of a text. -/
def readAll (s : Text) : List Lexeme :=
  match s with
  | [] => []
  | c :: rest => (read c rest).1 :: readAll (read c rest).2
termination_by s.length
decreasing_by exact length_read_lt c rest

/-- The lexemes of a text, written one after the other, are the text. -/
theorem text_readAll (s : Text) : (readAll s).flatMap text = s := by
  fun_induction readAll s with
  | case1 => rfl
  | case2 c rest ih => rw [List.flatMap_cons, ih, text_read]

/-- A lexeme as it is spelled in the target language, behind the text before it. -/
def spell (before : Text) : Lexeme → Text
  | .word name => if Text.endsInDot before then name else Expression.respell name
  | lexeme => lexeme.text

/-- Lexemes as they are spelled in the target language, behind the text before them. -/
def spellAll (before : Text) : List Lexeme → Text
  | [] => []
  | lexeme :: rest => lexeme.spell before ++ spellAll (before ++ lexeme.text) rest

/-- A word that follows no dot stands among lexemes, with `after` behind it. -/
def Names (before : Text) (lexemes : List Lexeme) (name : Text) (after : List Lexeme) : Prop :=
  ∃ front, lexemes = front ++ .word name :: after ∧
    Text.endsInDot (before ++ front.flatMap text) = false

variable {before name : Text} {lexeme : Lexeme} {lexemes after : List Lexeme}

theorem not_names_nil : ¬ Names before [] name after := by
  rintro ⟨front, split, _⟩
  cases front <;> cases split

/-- A name among lexemes is the first of them, or one of those behind it. -/
theorem names_cons_iff :
    Names before (lexeme :: lexemes) name after ↔
      lexeme = .word name ∧ lexemes = after ∧ Text.endsInDot before = false ∨
        Names (before ++ lexeme.text) lexemes name after := by
  constructor
  · rintro ⟨front, split, free⟩
    cases front with
    | nil =>
      obtain ⟨rfl, rfl⟩ := List.cons.inj split
      rw [List.flatMap_nil, List.append_nil] at free
      exact .inl ⟨rfl, rfl, free⟩
    | cons first front =>
      obtain ⟨rfl, rfl⟩ := List.cons.inj split
      rw [List.flatMap_cons, ← List.append_assoc] at free
      exact .inr ⟨front, rfl, free⟩
  · rintro (⟨rfl, rfl, free⟩ | ⟨front, rfl, free⟩)
    · exact ⟨[], rfl, by rwa [List.flatMap_nil, List.append_nil]⟩
    · refine ⟨lexeme :: front, rfl, ?_⟩
      rwa [List.flatMap_cons, ← List.append_assoc]

/-! ## The expression of lexemes -/

/-- The expression of a lexeme between the texts around it. -/
def toExpression (before after : Text) : Lexeme → Expression
  | .word name =>
    if Text.endsInDot before then .plain name else .ofWord name (Token.followedByMember after)
  | lexeme => .plain lexeme.text

/-- The expression of lexemes behind the text before them. -/
def expression (before : Text) : List Lexeme → Expression
  | [] => {}
  | lexeme :: rest =>
    (lexeme.toExpression before (rest.flatMap text)).append
      (expression (before ++ lexeme.text) rest)

/-- The text of the expression of lexemes is their spelling. -/
theorem text_expression (before : Text) (lexemes : List Lexeme) :
    (expression before lexemes).text = spellAll before lexemes := by
  induction lexemes generalizing before with
  | nil => rfl
  | cons lexeme rest ih =>
    have first (after : Text) : (lexeme.toExpression before after).text = lexeme.spell before := by
      cases lexeme with
      | word name =>
        rw [toExpression, spell]
        split
        · rfl
        · exact Expression.text_ofWord name _
      | _ => rfl
    rw [expression, spellAll, Expression.append, first, ih]

/-- A word refers to itself, unless it is spelled as a keyword. -/
theorem mem_references_ofWord {word : Text} {member : Bool} :
    name ∈ (Expression.ofWord word member).references ↔
      name = word ∧ Expression.keywords.contains (Expression.respell name) = false := by
  rw [Expression.ofWord]
  split
  next keyword =>
    have none : ¬ name ∈ (Expression.plain (Expression.respell word)).references :=
      NameSet.not_mem_empty name
    refine iff_of_false none ?_
    rintro ⟨rfl, free⟩
    rw [keyword] at free
    cases free
  next free =>
    have free := Bool.eq_false_iff.mpr free
    rw [NameSet.mem_ofList, List.mem_singleton]
    exact ⟨fun same => ⟨same, same ▸ free⟩, And.left⟩

/-- A word is a member root if a member follows, unless it is spelled as a keyword. -/
theorem mem_memberRoots_ofWord {word : Text} {member : Bool} :
    name ∈ (Expression.ofWord word member).memberRoots ↔
      name = word ∧ Expression.keywords.contains (Expression.respell name) = false ∧
        member = true := by
  rw [Expression.ofWord]
  split
  next keyword =>
    have none : ¬ name ∈ (Expression.plain (Expression.respell word)).memberRoots :=
      NameSet.not_mem_empty name
    refine iff_of_false none ?_
    rintro ⟨rfl, free, _⟩
    rw [keyword] at free
    cases free
  next free =>
    have free := Bool.eq_false_iff.mpr free
    cases member with
    | false => simp
    | true =>
      show name ∈ NameSet.ofList [word] ↔ _
      rw [NameSet.mem_ofList, List.mem_singleton]
      exact ⟨fun same => ⟨same, same ▸ free, rfl⟩, And.left⟩

/-- A lexeme refers to the word it is, behind anything but a dot. -/
theorem mem_references_toExpression {after : Text} :
    name ∈ (lexeme.toExpression before after).references ↔
      lexeme = .word name ∧ Text.endsInDot before = false ∧
        Expression.keywords.contains (Expression.respell name) = false := by
  cases lexeme with
  | word word =>
    rw [toExpression, Lexeme.word.injEq]
    split
    next follows => simp [follows, Expression.plain]
    next free =>
      rw [mem_references_ofWord, eq_comm (a := name)]
      simp [free]
  | _ => simp [toExpression, Expression.plain]

/-- A lexeme is a member root if it is a word behind anything but a dot and before a member. -/
theorem mem_memberRoots_toExpression {after : Text} :
    name ∈ (lexeme.toExpression before after).memberRoots ↔
      lexeme = .word name ∧ Text.endsInDot before = false ∧
        Expression.keywords.contains (Expression.respell name) = false ∧
        Token.followedByMember after = true := by
  cases lexeme with
  | word word =>
    rw [toExpression, Lexeme.word.injEq]
    split
    next follows => simp [follows, Expression.plain]
    next free =>
      rw [mem_memberRoots_ofWord, eq_comm (a := name)]
      simp [free]
  | _ => simp [toExpression, Expression.plain]

/-- The names that lexemes refer to are their words that follow no dot. -/
theorem mem_references_expression :
    name ∈ (expression before lexemes).references ↔
      Expression.keywords.contains (Expression.respell name) = false ∧
        ∃ after, Names before lexemes name after := by
  induction lexemes generalizing before with
  | nil =>
    refine iff_of_false (NameSet.not_mem_empty name) ?_
    rintro ⟨_, after, found⟩
    exact not_names_nil found
  | cons lexeme rest ih =>
    rw [expression, Expression.append, NameSet.mem_union, ih, mem_references_toExpression]
    simp only [names_cons_iff]
    grind

/-- The names whose members lexemes take are those of their words that follow no dot and have a
member behind them. -/
theorem mem_memberRoots_expression :
    name ∈ (expression before lexemes).memberRoots ↔
      Expression.keywords.contains (Expression.respell name) = false ∧
        ∃ after, Names before lexemes name after ∧
          Token.followedByMember (after.flatMap text) = true := by
  induction lexemes generalizing before with
  | nil =>
    refine iff_of_false (NameSet.not_mem_empty name) ?_
    rintro ⟨_, after, found, _⟩
    exact not_names_nil found
  | cons lexeme rest ih =>
    rw [expression, Expression.append, NameSet.mem_union, ih, mem_memberRoots_toExpression]
    simp only [names_cons_iff]
    grind

end Lexeme

/-! ## Reading values without strings -/

namespace Token

/-- The token that a lexeme is, before the text that follows it. -/
def ofLexeme (afterDot : Bool) (after : Text) : Lexeme → Token
  | .word name => if afterDot then .attribute name else .word name (followedByMember after)
  | .number digits => .number digits
  | .single c => .symbol c

/-- Without strings and range sugar, reading a token is reading a lexeme. -/
theorem read_eq_ofLexeme {c : Char} {rest : Text}
    (noQuote : ∀ d ∈ c :: rest, Text.isQuote d = false)
    (noSugar : (Lexeme.read c rest).1 = .word "range".toList →
      (Lexeme.read c rest).2.head? ≠ some '.') (afterDot : Bool) :
    read afterDot c rest =
      (ofLexeme afterDot (Lexeme.read c rest).2 (Lexeme.read c rest).1,
        (Lexeme.read c rest).2) := by
  rw [read, if_neg (by rw [noQuote c List.mem_cons_self]; decide)]
  rw [Lexeme.read] at noSugar ⊢
  split
  next start =>
    rw [if_pos start] at noSugar
    show readWord afterDot _ _ = (ofLexeme afterDot _ (.word _), _)
    have later : ∀ d ∈ Text.afterWord (c :: rest), Text.isQuote d = false := fun d mem =>
      noQuote d ((List.dropWhile_sublist _).subset mem)
    generalize Text.leadingWord (c :: rest) = name at noSugar ⊢
    generalize Text.afterWord (c :: rest) = after at noSugar later ⊢
    cases after with
    | nil => cases afterDot <;> rfl
    | cons next after =>
      rw [readWord, later next List.mem_cons_self, Bool.false_and, if_neg Bool.false_ne_true,
        ofLexeme]
      cases afterDot with
      | true => rfl
      | false =>
        rw [if_neg Bool.false_ne_true, if_neg Bool.false_ne_true, if_neg]
        rintro ⟨rfl, rfl⟩
        exact noSugar rfl rfl
  next =>
    split
    · rfl
    · rfl

/-- A number ends in a character of words. -/
theorem getLast?_cutNumber (s : Text) :
    ∀ c ∈ (cutNumber s).1.getLast?, Text.isWordChar c = true := by
  induction s with
  | nil =>
    intro c mem
    cases mem
  | cons first rest ih =>
    intro c mem
    rw [cutNumber] at mem
    split at mem
    next taken =>
      cases more : (cutNumber rest).1 with
      | cons next digits =>
        refine ih c ?_
        rw [more]
        simpa [more] using mem
      | nil =>
        obtain rfl : first = c := by simpa [more] using mem
        rcases Bool.or_eq_true _ _ ▸ taken with word | dot
        · exact word
        · -- A dot is taken before a digit only, which is taken as well.
          rw [Bool.and_eq_true] at dot
          cases rest with
          | nil => cases dot.2
          | cons digit rest =>
            have word := Text.isWordChar_of_isDigit dot.2
            simp [cutNumber, word] at more
    next => cases mem

/-- The reader knows whether the next token follows a dot: it does if the text before it ends in
one. -/
theorem leavesDot_ofLexeme {before : Text} {afterDot : Bool}
    (follows : Text.endsInDot before = afterDot) (c : Char) (rest after : Text) :
    leavesDot afterDot (ofLexeme afterDot after (Lexeme.read c rest).1) =
      Text.endsInDot (before ++ (Lexeme.read c rest).1.text) := by
  rw [Lexeme.read]
  split
  next start =>
    have filled : Text.leadingWord (c :: rest) ≠ [] := by
      simp [Text.leadingWord, Text.isWordChar_of_isWordStart start]
    have last := List.getLast?_eq_some_getLast filled
    have word := List.all_eq_true.mp List.all_takeWhile _ (List.getLast_mem filled)
    rw [Lexeme.text, Text.endsInDot_append_word last word]
    cases afterDot <;> rfl
  next =>
    split
    next digit =>
      have filled : (cutNumber (c :: rest)).1 ≠ [] := by
        simp [cutNumber, Text.isWordChar_of_isDigit digit]
      have last := List.getLast?_eq_some_getLast filled
      have word := getLast?_cutNumber (c :: rest) _ last
      rw [Lexeme.text, Text.endsInDot_append_word last word]
      rfl
    next =>
      show (if Text.isBlank c then afterDot else c == '.') = Text.endsInDot (before ++ [c])
      split
      next blank => rw [Text.endsInDot_append_blank blank, follows]
      next ink => exact (Text.endsInDot_append_ink rfl (Bool.eq_false_iff.mpr ink) before).symm

theorem followedByMember_iff {after : Text} :
    followedByMember after = true ↔
      ∃ c more, after = '.' :: c :: more ∧ Text.isWordStart c = true := by
  rw [followedByMember.eq_def]
  split
  next c more => simp
  next other =>
    refine iff_of_false Bool.false_ne_true ?_
    rintro ⟨c, more, rfl, _⟩
    exact other c more rfl

end Token

namespace Expression

variable {inner : Text → Except Fault Expression} {c : Char} {rest : Text}

/-- The check of brackets takes a lexeme as the brackets that are open do. -/
theorem nest_ofLexeme (noQuote : ∀ d ∈ c :: rest, Text.isQuote d = false) (opened : List Char)
    (afterDot : Bool) :
    (∃ opened',
        nest opened (.ofLexeme afterDot (Lexeme.read c rest).2 (Lexeme.read c rest).1) =
            .ok opened' ∧
          Text.openAfter? opened (c :: rest) = Text.openAfter? opened' (Lexeme.read c rest).2) ∨
      ∃ fault,
        nest opened (.ofLexeme afterDot (Lexeme.read c rest).2 (Lexeme.read c rest).1) =
            .error fault ∧
          Text.openAfter? opened (c :: rest) = none := by
  have whole := Lexeme.text_read c rest
  -- Words and numbers hold no bracket.
  have tame (lexeme : Text) (chars : ∀ d ∈ lexeme, d = '.' ∨ Text.isWordChar d = true)
      (after : Text) (split : lexeme ++ after = c :: rest) :
      Text.openAfter? opened (c :: rest) = Text.openAfter? opened after := by
    rw [← split]
    refine Text.openAfter?_neutrals ?_ opened after
    intro d mem
    rcases chars d mem with rfl | word
    · rfl
    · exact isNeutral_of_isTame (Token.isTame_of_isWordChar word)
  rw [Lexeme.read] at whole ⊢
  split at whole
  next start =>
    rw [if_pos start]
    refine .inl ⟨opened, by cases afterDot <;> rfl, tame _ ?_ _ whole⟩
    intro d mem
    exact .inr (List.all_eq_true.mp List.all_takeWhile d mem)
  next noStart =>
    rw [if_neg noStart]
    split at whole
    next digit =>
      rw [if_pos digit]
      exact .inl ⟨opened, rfl, tame _ (Token.mem_cutNumber (c :: rest)) _ whole⟩
    next noDigit =>
      rw [if_neg noDigit, Text.openAfter?.eq_def]
      simp only [noQuote c List.mem_cons_self, Bool.false_eq_true, if_false, Token.ofLexeme, nest]
      split
      · exact .inl ⟨_, rfl, rfl⟩
      · split
        · cases opened with
          | nil => exact .inr ⟨_, rfl, rfl⟩
          | cons innermost outer =>
            dsimp only
            split
            · exact .inl ⟨_, rfl, rfl⟩
            · exact .inr ⟨_, rfl, rfl⟩
        · exact .inl ⟨_, rfl, rfl⟩

/-- The token of a lexeme makes the expression of that lexeme. -/
theorem ofToken_ofLexeme [Letters] {before : Text} {afterDot : Bool}
    (follows : Text.endsInDot before = afterDot) (after : Text) (lexeme : Lexeme) :
    ofToken inner (.ofLexeme afterDot after lexeme) = .ok (lexeme.toExpression before after) := by
  cases lexeme with
  | word name =>
    rw [Token.ofLexeme, Lexeme.toExpression, follows]
    cases afterDot <;> rfl
  | _ => rfl

/-- Without strings and range sugar, the tokens of a text make the expression of its lexemes if the
text closes the brackets that are open before it, and none otherwise. -/
theorem ofTokens_readAllFrom [Letters] {before s : Text} {afterDot : Bool} (opened : List Char)
    (noQuote : ∀ c ∈ s, Text.isQuote c = false)
    (noSugar : ∀ front after, Lexeme.readAll s = front ++ .word "range".toList :: after →
      (after.flatMap Lexeme.text).head? ≠ some '.')
    (follows : Text.endsInDot before = afterDot) :
    (Text.openAfter? opened s = some [] ∧
        ofTokens inner opened (Token.readAllFrom afterDot s) =
          .ok (Lexeme.expression before (Lexeme.readAll s))) ∨
      Text.openAfter? opened s ≠ some [] ∧
        ∃ fault, ofTokens inner opened (Token.readAllFrom afterDot s) = .error fault := by
  fun_induction Lexeme.readAll s generalizing before afterDot opened with
  | case1 =>
    rw [Text.openAfter?_nil, Token.readAllFrom]
    cases opened with
    | nil => exact .inl ⟨rfl, rfl⟩
    | cons innermost outer => exact .inr ⟨by simp, _, rfl⟩
  | case2 c rest ih =>
    have behind : (Lexeme.read c rest).2 ⊆ c :: rest := by
      rw [← Lexeme.text_read c rest]
      exact List.subset_append_right _ _
    have own : (Lexeme.read c rest).1 = .word "range".toList →
        (Lexeme.read c rest).2.head? ≠ some '.' := by
      intro isRange
      have next := noSugar [] _ (by rw [isRange]; rfl)
      rwa [Lexeme.text_readAll] at next
    have first : ofToken inner (.ofLexeme afterDot (Lexeme.read c rest).2 (Lexeme.read c rest).1) =
        .ok ((Lexeme.read c rest).1.toExpression before (Lexeme.read c rest).2) :=
      ofToken_ofLexeme follows _ _
    have more (opened' : List Char) := ih opened' (fun d mem => noQuote d (behind mem))
      (fun front after split => noSugar (_ :: front) after (congrArg (List.cons _) split))
      (Token.leavesDot_ofLexeme follows c rest (Lexeme.read c rest).2).symm
    rw [Token.readAllFrom, Token.read_eq_ofLexeme noQuote own, Lexeme.expression, ofTokens,
      Lexeme.text_readAll, first]
    rcases nest_ofLexeme noQuote opened afterDot with
      ⟨opened', nested, same⟩ | ⟨fault, nested, same⟩
    · rw [nested, same]
      rcases more opened' with ⟨closed, made⟩ | ⟨unclosed, fault, failed⟩
      · refine .inl ⟨closed, ?_⟩
        dsimp only [bind, Except.bind]
        rw [made]
        rfl
      · refine .inr ⟨unclosed, fault, ?_⟩
        dsimp only [bind, Except.bind]
        rw [failed]
    · rw [nested, same]
      exact .inr ⟨by simp, fault, rfl⟩

/-- A value without strings and range sugar is accepted exactly when its brackets are nested; any
other is refused on its line. What is accepted is trimmed, and of its words only `true`, `false` and
`null` change, unless they follow a dot. The expression refers to the words that follow no dot and
are no keywords, and takes members of those of them that have a dot and an identifier behind them
somewhere. -/
theorem read_passThrough [Letters] (line : Nat) {raw : Text}
    (noQuote : ∀ c ∈ raw, Text.isQuote c = false) (noSugar : ∀ front after,
      Lexeme.readAll (Text.trim raw) = front ++ .word "range".toList :: after →
        (after.flatMap Lexeme.text).head? ≠ some '.') :
    (Text.Nested raw →
      ∃ e, read line raw = .ok e ∧
        e.text = Lexeme.spellAll [] (Lexeme.readAll (Text.trim raw)) ∧
        (∀ name, name ∈ e.references ↔
          keywords.contains (respell name) = false ∧
            ∃ after, Lexeme.Names [] (Lexeme.readAll (Text.trim raw)) name after) ∧
        ∀ name, name ∈ e.memberRoots ↔
          keywords.contains (respell name) = false ∧
            ∃ after c more, Lexeme.Names [] (Lexeme.readAll (Text.trim raw)) name after ∧
              after.flatMap Lexeme.text = '.' :: c :: more ∧ Text.isWordStart c = true) ∧
      (¬ Text.Nested raw → ∃ message, read line raw = .error (.expression line message)) := by
  have inside : ∀ c ∈ Text.trim raw, Text.isQuote c = false := fun c mem =>
    noQuote c (Text.mem_of_mem_trim mem)
  have nested : Text.Nested raw ↔ Text.openAfter? [] (Text.trim raw) = some [] := by
    rw [← Text.nested_trim_iff noQuote, Text.nested_iff inside]
  rw [nested, read, ofText_eq, Token.readAll]
  have free : Text.endsInDot [] = false := rfl
  rcases ofTokens_readAllFrom [] inside noSugar free with
    ⟨closed, made⟩ | ⟨unclosed, fault, failed⟩
  · refine ⟨fun _ => ?_, fun unclosed => absurd closed unclosed⟩
    rw [made]
    refine ⟨_, rfl, Lexeme.text_expression _ _, fun name => Lexeme.mem_references_expression, ?_⟩
    intro name
    rw [Lexeme.mem_memberRoots_expression]
    simp only [Token.followedByMember_iff]
    grind
  · refine ⟨fun closed => absurd closed unclosed, fun _ => ?_⟩
    rw [failed]
    exact ⟨_, rfl⟩

/-- A call with a subscript, of which only the word `true` that follows no dot is respelled; and
brackets that do not match. -/
theorem read_passThrough_sample :
    (∃ e, read 3 " f(true, x . true)[m.n]".toList = .ok e ∧
        e.text = "f(True, x . true)[m.n]".toList ∧ "m".toList ∈ e.memberRoots) ∧
      ∃ message, read 3 "f(true]".toList = .error (.expression 3 message) := by
  have noSugar (raw : Text) (free : .word "range".toList ∉ Lexeme.readAll (Text.trim raw)) :
      ∀ front after, Lexeme.readAll (Text.trim raw) = front ++ .word "range".toList :: after →
        (after.flatMap Lexeme.text).head? ≠ some '.' := by
    intro front after split
    rw [split] at free
    exact absurd (List.mem_append_right _ List.mem_cons_self) free
  have noQuote (raw : Text) (all : (raw.all fun c => !Text.isQuote c) = true) :
      ∀ c ∈ raw, Text.isQuote c = false := by
    intro c mem
    simpa using List.all_eq_true.mp all c mem
  constructor
  · have plain := noQuote " f(true, x . true)[m.n]".toList (by decide)
    obtain ⟨e, made, written, _, roots⟩ :=
      (read_passThrough 3 plain (noSugar _ (by decide +kernel))).1
        ((Text.nested_iff plain).mpr (by decide +kernel))
    refine ⟨e, made, ?_, ?_⟩
    · rw [written]
      decide +kernel
    · rw [roots]
      refine ⟨by decide, [.single '.', .word ['n'], .single ']'], 'n', [']'], ?_, by decide,
        by decide⟩
      refine ⟨(Lexeme.readAll (Text.trim " f(true, x . true)[m.n]".toList)).take 12, ?_, ?_⟩
      · decide +kernel
      · decide +kernel
  · have plain := noQuote "f(true]".toList (by decide)
    exact (read_passThrough 3 plain (noSugar _ (by decide +kernel))).2
      (mt (Text.nested_iff plain).mp (by decide +kernel))

end Expression

end Outline
