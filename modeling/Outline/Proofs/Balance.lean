import Outline.Proofs.Literal

/-!
# Balanced texts

A text is balanced when each string in it ends and its brackets outside strings are nested, each
closed by its own kind. `Text.openAfter?` follows the brackets that are open and takes a string as
the reader of values does. What a value becomes is balanced (`Expression.isBalanced_ofText`): its
own brackets are checked, and rewriting changes strings only inside.
-/

set_option autoImplicit false

namespace Outline

theorem Token.length_readLiteral_lt (quote : Char) (rest : Text) :
    (readLiteral [] quote rest).2.length < (quote :: rest).length := by
  have whole := congrArg List.length (text_readLiteral [] quote rest)
  have some := List.length_pos_iff.mpr (text_readLiteral_ne_nil [] quote rest)
  rw [List.length_append, List.nil_append] at whole
  omega

namespace Text

/-- The brackets that are open after a text, innermost first, given those that are open before it.
There are none to tell if a string does not end or a bracket does not close the innermost one. -/
def openAfter? (opened : List Char) (s : Text) : Option (List Char) :=
  match s with
  | [] => some opened
  | c :: rest =>
    if isQuote c then
      match (Token.readLiteral [] c rest).1 with
      | .literal _ _ _ => openAfter? opened (Token.readLiteral [] c rest).2
      | _ => none
    else if isOpening c then openAfter? (c :: opened) rest
    else if isClosing c then
      match opened with
      | [] => none
      | innermost :: outer =>
        if Expression.closingOf innermost = c then openAfter? outer rest else none
    else openAfter? opened rest
termination_by s.length
decreasing_by
  · exact Token.length_readLiteral_lt c rest
  · exact Nat.lt_succ_self _
  · exact Nat.lt_succ_self _
  · exact Nat.lt_succ_self _

/-- Whether each string in a text ends and its brackets outside strings are nested, each closed by
its own kind. -/
def isBalanced (s : Text) : Bool := openAfter? [] s == some []

theorem isBalanced_iff {s : Text} : isBalanced s = true ↔ openAfter? [] s = some [] := beq_iff_eq

variable {opened : List Char} {s t : Text} {c : Char}

@[simp]
theorem openAfter?_nil (opened : List Char) : openAfter? opened [] = some opened := by
  rw [openAfter?]

/-- A character that is neither a quote nor a bracket leaves the open brackets as they are. -/
theorem openAfter?_neutral (neutral : Nesting.isNeutral c = true) (opened : List Char) (s : Text) :
    openAfter? opened (c :: s) = openAfter? opened s := by
  simp only [Nesting.isNeutral, Bool.and_eq_true, Bool.not_eq_true'] at neutral
  obtain ⟨⟨noQuote, noOpening⟩, noClosing⟩ := neutral
  rw [openAfter?.eq_def]
  simp [noQuote, noOpening, noClosing]

theorem openAfter?_neutrals (neutral : ∀ c ∈ s, Nesting.isNeutral c = true) (opened : List Char)
    (t : Text) : openAfter? opened (s ++ t) = openAfter? opened t := by
  induction s with
  | nil => rfl
  | cons c s ih =>
    rw [List.cons_append, openAfter?_neutral (neutral c List.mem_cons_self)]
    exact ih fun d mem => neutral d (List.mem_cons_of_mem _ mem)

theorem isOpening_cases (opens : isOpening c = true) : c = '(' ∨ c = '[' ∨ c = '{' := by
  simpa only [isOpening, Bool.or_eq_true, beq_iff_eq, or_assoc] using opens

theorem isClosing_cases (closes : isClosing c = true) : c = ')' ∨ c = ']' ∨ c = '}' := by
  simpa only [isClosing, Bool.or_eq_true, beq_iff_eq, or_assoc] using closes

/-- An opening bracket is the innermost one from then on. -/
theorem openAfter?_opening (opens : isOpening c = true) (opened : List Char) (s : Text) :
    openAfter? opened (c :: s) = openAfter? (c :: opened) s := by
  have noQuote : isQuote c = false := by
    rcases isOpening_cases opens with rfl | rfl | rfl <;> rfl
  rw [openAfter?.eq_def]
  simp [noQuote, opens]

/-- A closing bracket of the right kind closes the innermost one. -/
theorem openAfter?_closing (closes : isClosing c = true) {innermost : Char}
    (own : Expression.closingOf innermost = c) (opened : List Char) (s : Text) :
    openAfter? (innermost :: opened) (c :: s) = openAfter? opened s := by
  have others : isQuote c = false ∧ isOpening c = false := by
    rcases isClosing_cases closes with rfl | rfl | rfl <;> exact ⟨rfl, rfl⟩
  rw [openAfter?.eq_def]
  simp [others, closes, own]

/-- A string changes no bracket. -/
theorem openAfter?_literal {d : Delimiter} {body after : Text} (encloses : d.Encloses body after)
    (opened : List Char) :
    openAfter? opened (d.text ++ body ++ d.text ++ after) = openAfter? opened after := by
  obtain ⟨more, front⟩ := Expression.head_delimiter d
  have split :
      d.quote :: (more ++ body ++ d.text ++ after) = d.text ++ body ++ d.text ++ after := by
    rw [front]
    rfl
  have read : Token.readLiteral [] d.quote (more ++ body ++ d.text ++ after) =
      (.literal [] d body, after) :=
    (Token.readLiteral_eq_literal_iff encloses.isQuote).mpr ⟨split, encloses⟩
  rw [← split, openAfter?.eq_def]
  simp only [encloses.isQuote, read, if_true]

/-- What follows a text goes on with the brackets that it leaves open, unless it starts with a
quote; brackets that are open around the text stay open. -/
theorem openAfter?_append {left : List Char} (front : openAfter? opened s = some left)
    (apart : t.head?.any isQuote = false) (around : List Char) :
    openAfter? (opened ++ around) (s ++ t) = openAfter? (left ++ around) t := by
  fun_induction openAfter? opened s with
  | case1 opened =>
    obtain rfl := Option.some.inj front
    rfl
  | case2 opened c rest isQuote mark d body read ih =>
    obtain ⟨split, encloses⟩ := Token.encloses_readLiteral isQuote read
    rw [split, List.append_assoc, openAfter?_literal (encloses.append apart)]
    exact ih front
  | case3 => cases front
  | case4 opened c rest noQuote opens ih =>
    rw [List.cons_append, openAfter?_opening opens]
    exact ih front
  | case5 => cases front
  | case6 rest innermost outer noQuote noOpening closes ih =>
    rw [List.cons_append, List.cons_append, openAfter?_closing closes rfl]
    exact ih front
  | case7 => cases front
  | case8 opened c rest noQuote noOpening noClosing ih =>
    have neutral : Nesting.isNeutral c = true := by
      simp [Nesting.isNeutral, noQuote, noOpening, noClosing]
    rw [List.cons_append, openAfter?_neutral neutral]
    exact ih front

/-! ## Putting balanced texts together -/

/-- A balanced text leaves the brackets around it as they are. -/
theorem openAfter?_balanced (balanced : isBalanced s = true) (apart : t.head?.any isQuote = false)
    (opened : List Char) : openAfter? opened (s ++ t) = openAfter? opened t :=
  openAfter?_append (isBalanced_iff.mp balanced) apart opened

/-- Two balanced texts side by side are balanced, if the second starts with no quote that could join
a string of the first. -/
theorem isBalanced_append (front : isBalanced s = true) (back : isBalanced t = true)
    (apart : t.head?.any isQuote = false) : isBalanced (s ++ t) = true := by
  rw [isBalanced_iff, openAfter?_balanced front apart]
  exact isBalanced_iff.mp back

theorem isBalanced_neutral_append (neutral : ∀ c ∈ s, Nesting.isNeutral c = true)
    (back : isBalanced t = true) : isBalanced (s ++ t) = true := by
  rw [isBalanced_iff, openAfter?_neutrals neutral]
  exact isBalanced_iff.mp back

theorem isBalanced_nil : isBalanced [] = true := isBalanced_iff.mpr (openAfter?_nil [])

/-- A text without quotes and brackets is balanced. -/
theorem isBalanced_of_neutral (neutral : ∀ c ∈ s, Nesting.isNeutral c = true) :
    isBalanced s = true := by
  rw [← List.append_nil s]
  exact isBalanced_neutral_append neutral isBalanced_nil

theorem closingOf_spec (opening : Char) :
    isClosing (Expression.closingOf opening) = true ∧
      isQuote (Expression.closingOf opening) = false := by
  rw [Expression.closingOf]
  split
  · exact ⟨rfl, rfl⟩
  · split <;> exact ⟨rfl, rfl⟩

/-- A balanced text between two brackets of a kind is balanced. -/
theorem isBalanced_bracketed (opens : isOpening c = true) (inside : isBalanced s = true) :
    isBalanced (c :: s ++ [Expression.closingOf c]) = true := by
  obtain ⟨closes, noQuote⟩ := closingOf_spec c
  rw [isBalanced_iff, List.cons_append, openAfter?_opening opens,
    openAfter?_balanced inside (by simpa using noQuote), openAfter?_closing closes rfl]
  exact openAfter?_nil []

/-- Characters that neither end a string nor protect another stand between quotes. -/
theorem isBalanced_quoted {quote : Char} (kind : isQuote quote = true)
    (plain : ∀ c ∈ s, c ≠ quote ∧ c ≠ '\\') :
    isBalanced (quote :: s ++ [quote]) = true := by
  have encloses : Delimiter.Encloses ⟨quote, false⟩ s [] :=
    ⟨kind, Delimiter.keeps_of_forall plain, fun _ _ => by simp⟩
  have literal := openAfter?_literal encloses []
  rw [openAfter?_nil, List.append_nil] at literal
  exact isBalanced_iff.mpr literal

end Text

/-! ## Values -/

/-- A string among the tokens of a text stands between two delimiters. -/
theorem Token.encloses_read {afterDot : Bool} {c : Char} {rest mark body : Text} {d : Delimiter}
    (found : (read afterDot c rest).1 = .literal mark d body) :
    d.Encloses body (read afterDot c rest).2 := by
  rw [read] at found ⊢
  split at found
  next isQuote =>
    rw [if_pos isQuote]
    exact (encloses_readLiteral isQuote found).2
  next noQuote =>
    rw [if_neg noQuote]
    split at found
    next start =>
      rw [if_pos start]
      generalize Text.leadingWord (c :: rest) = name at found ⊢
      cases after : Text.afterWord (c :: rest) with
      | nil =>
        rw [after] at found
        cases afterDot <;> cases found
      | cons next later =>
        rw [after, readWord] at found
        rw [readWord]
        split at found
        next marked =>
          rw [if_pos marked]
          rw [Bool.and_eq_true] at marked
          exact (encloses_readLiteral marked.1 found).2
        next =>
          split at found
          · cases found
          · split at found <;> cases found
    next => split at found <;> cases found

namespace Expression

open Nesting Template

variable {inner : Text → Except Fault Expression}

theorem isNeutral_of_isTame {c : Char} (tame : Token.isTame c = true) :
    Nesting.isNeutral c = true := by
  have quiet := isQuiet_of_isTame tame
  rw [isQuiet, Bool.and_eq_true] at quiet
  exact quiet.1

/-- Only a string without a mark, left as written, starts with a quote. -/
theorem head_ofToken [Letters] {token : Token} {e : Expression} (formed : token.Formed)
    (ok : ofToken inner token = .ok e) {quote : Char} (isQuote : Text.isQuote quote = true)
    (starts : e.text.head? = some quote) : token.text.head? = some quote := by
  have wild {s : Text} (tame : ∀ c ∈ s, Token.isTame c = true) : s.head? ≠ some quote := by
    intro starts
    have neutral := isNeutral_of_isTame (tame quote (List.mem_of_head? starts))
    simp [isNeutral, isQuote] at neutral
  cases token with
  | word name member =>
    obtain rfl := Except.ok.inj ok
    rw [text_ofWord] at starts
    exact absurd starts (wild (respell_tame formed.1 formed.2).2)
  | range sugar =>
    rw [ofToken, ofRange] at ok
    split at ok
    next => cases ok
    next =>
      obtain rfl := Except.ok.inj ok
      obtain rfl : 'r' = quote := Option.some.inj starts
      cases isQuote
  | literal mark d body =>
    rcases ofLiteral_cases ok with ⟨_, same⟩ | ⟨_, segments, filled, _, _, _, _, same⟩
    · rw [same] at starts
      exact starts
    · have marked : interpolatedMark mark ≠ [] := by
        rw [interpolatedMark]
        split
        next f =>
          rintro rfl
          cases f
        next => exact List.cons_ne_nil _ _
      rw [same, List.append_assoc, List.append_assoc,
        List.head?_append_of_ne_nil _ marked] at starts
      exact absurd starts (wild (interpolatedMark_tame formed.2))
  | unterminated rest => cases ok
  | _ =>
    obtain rfl := Except.ok.inj ok
    exact starts

/-- The call that range sugar stands for leaves the open brackets as they are. -/
theorem openAfter?_ofRange [Letters] {sugar : Text} {e : Expression}
    (tame : ∀ c ∈ sugar, Token.isTame c = true) (ok : ofRange sugar = .ok e) (opened : List Char)
    (more : Text) : Text.openAfter? opened (e.text ++ more) = Text.openAfter? opened more := by
  rw [ofRange] at ok
  split at ok
  next => cases ok
  next bounds found =>
    obtain rfl := Except.ok.inj ok
    have word : "range".toList.all isNeutral = true := by decide
    have inside : ∀ c ∈ [',', ' '].intercalate bounds, isNeutral c = true := by
      intro c mem
      rcases Text.mem_intercalate mem with comma | ⟨bound, inBounds, inBound⟩
      · exact List.all_eq_true.mp (by decide : [',', ' '].all isNeutral = true) c comma
      · exact isNeutral_of_isTame (tame c (RangeSugar.bounds_subset found bound inBounds inBound))
    show Text.openAfter? opened
      ("range".toList ++ '(' :: ([',', ' '].intercalate bounds ++ [')']) ++ more) = _
    rw [List.append_assoc, Text.openAfter?_neutrals (List.all_eq_true.mp word), List.cons_append,
      Text.openAfter?_opening rfl, List.append_assoc, Text.openAfter?_neutrals inside]
    exact Text.openAfter?_closing rfl rfl opened more

/-- What a token becomes does to the brackets what the token does. -/
theorem openAfter?_ofToken [Letters] {token : Token} {opened opened' : List Char} {e : Expression}
    {after more : Text} (formed : token.Formed) (nested : nest opened token = .ok opened')
    (ok : ofToken inner token = .ok e)
    (encloses : ∀ mark d body, token = .literal mark d body → d.Encloses body after)
    (starts : ∀ quote, Text.isQuote quote = true → more.head? = some quote →
      after.head? = some quote) :
    Text.openAfter? opened (e.text ++ more) = Text.openAfter? opened' more := by
  have tamePasses {s : Text} (tame : ∀ c ∈ s, Token.isTame c = true) (opened : List Char)
      (more : Text) : Text.openAfter? opened (s ++ more) = Text.openAfter? opened more :=
    Text.openAfter?_neutrals (fun c mem => isNeutral_of_isTame (tame c mem)) opened more
  cases token with
  | word name member =>
    obtain rfl := Except.ok.inj nested
    obtain rfl := Except.ok.inj ok
    rw [text_ofWord]
    exact tamePasses (respell_tame formed.1 formed.2).2 opened more
  | range sugar =>
    obtain rfl := Except.ok.inj nested
    exact openAfter?_ofRange formed.2 ok opened more
  | literal mark d body =>
    obtain rfl := Except.ok.inj nested
    have own := encloses mark d body rfl
    -- Kept or filled, the body stays between its delimiters, and what follows does not join them.
    rcases ofLiteral_cases ok with ⟨_, same⟩ | ⟨_, segments, filled, cut, has, pairs, free, same⟩
    · have kept : d.Encloses body more :=
        ⟨own.isQuote, own.keeps, fun single empty followed =>
          own.apart single empty (starts d.quote own.isQuote followed)⟩
      rw [same, List.append_assoc, List.append_assoc, List.append_assoc, tamePasses formed.2,
        ← List.append_assoc, ← List.append_assoc]
      exact Text.openAfter?_literal kept opened
    · have kept := encloses_render own cut has pairs free more
      rw [same, List.append_assoc, List.append_assoc, List.append_assoc,
        tamePasses (interpolatedMark_tame formed.2), ← List.append_assoc, ← List.append_assoc]
      exact Text.openAfter?_literal kept opened
  | unterminated rest => cases ok
  | symbol c =>
    obtain rfl := Except.ok.inj ok
    show Text.openAfter? opened (c :: more) = _
    rw [nest.eq_def] at nested
    dsimp only at nested
    split at nested
    next opens =>
      obtain rfl := Except.ok.inj nested
      exact Text.openAfter?_opening opens opened more
    next noOpening =>
      split at nested
      next closes =>
        split at nested
        next => cases nested
        next innermost outer =>
          split at nested
          next own =>
            obtain rfl := Except.ok.inj nested
            exact Text.openAfter?_closing closes own outer more
          next => cases nested
      next noClosing =>
        obtain rfl := Except.ok.inj nested
        have noQuote : Text.isQuote c = false := formed
        refine Text.openAfter?_neutral ?_ opened more
        simp [isNeutral, noQuote, noOpening, noClosing]
  | _ =>
    obtain rfl := Except.ok.inj nested
    obtain rfl := Except.ok.inj ok
    exact tamePasses formed.2 opened more

/-- What tokens become closes the brackets that are open before them. -/
theorem openAfter?_ofTokens [Letters] {afterDot : Bool} {s : Text} {opened : List Char}
    {e : Expression} (ok : ofTokens inner opened (Token.readAllFrom afterDot s) = .ok e) :
    Text.openAfter? opened e.text = some [] ∧
      ∀ quote, Text.isQuote quote = true → e.text.head? = some quote → s.head? = some quote := by
  fun_induction Token.readAllFrom afterDot s generalizing opened e with
  | case1 =>
    cases opened with
    | nil =>
      obtain rfl := Except.ok.inj ok
      exact ⟨Text.openAfter?_nil [], fun _ _ starts => starts⟩
    | cons innermost outer => cases ok
  | case2 afterDot c rest ih =>
    rw [ofTokens] at ok
    obtain ⟨opened', nested, ok⟩ := bind_eq_ok.mp ok
    obtain ⟨first, made, ok⟩ := bind_eq_ok.mp ok
    obtain ⟨more, later, ok⟩ := bind_eq_ok.mp ok
    obtain rfl := Except.ok.inj ok
    obtain ⟨closed, starts⟩ := ih later
    have formed := Token.formed_read afterDot c rest
    refine ⟨?_, ?_⟩
    · show Text.openAfter? opened (first.text ++ more.text) = some []
      rw [openAfter?_ofToken formed nested made (fun _ _ _ => Token.encloses_read) starts]
      exact closed
    · intro quote isQuote front
      have filled := (sameEnds_ofToken outer_isBlank formed (Token.text_read_ne_nil _ _ _) made).1
      have whole := Token.text_read afterDot c rest
      have own : first.text.head? = some quote := by
        rwa [append, List.head?_append_of_ne_nil _ filled] at front
      rw [← whole, List.head?_append, head_ofToken formed made isQuote own]
      rfl

/-- What a value becomes is balanced. -/
theorem isBalanced_ofText [Letters] {raw : Text} {e : Expression} (ok : ofText raw = .ok e) :
    Text.isBalanced e.text = true := by
  rw [ofText] at ok
  exact Text.isBalanced_iff.mpr (openAfter?_ofTokens ok).1

end Expression
end Outline
