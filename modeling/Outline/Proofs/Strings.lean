import Outline.Header.Edition
import Outline.Proofs.Balance

/-!
# Strings of a text

A text is cut into the characters outside its strings and its strings (`Text.Parted`): a quote opens
a string, three equal quotes open one that three close, and a string ends at the first delimiter
that no backslash protects. There is at most one such cut, and none if a string does not end. A
value and its expression are cut alike: the same strings come in the same order, and of these only
the strings with placeholders have another body (`Expression.ofText_strings`).
-/

set_option autoImplicit false

namespace Outline

namespace Text

/-- A part of a text: a character outside strings, or a string. -/
inductive Part where
  | char (c : Char)
  | string (delimiter : Delimiter) (body : Text)
  deriving DecidableEq, Repr

/-- A part as written. -/
def Part.text : Part → Text
  | .char c => [c]
  | .string delimiter body => delimiter.text ++ body ++ delimiter.text

/-- The delimiter and the body of a string. -/
def Part.string? : Part → Option (Delimiter × Text)
  | .char _ => none
  | .string delimiter body => some (delimiter, body)

/-- The delimiters and bodies of the strings among parts. -/
def Part.strings (parts : List Part) : List (Delimiter × Text) := parts.filterMap Part.string?

/-- The parts of a text that is followed by `rest`. -/
inductive Parted (rest : Text) : Text → List Part → Prop
  | nil : Parted rest [] []
  | char {c : Char} {s : Text} {parts : List Part} (noQuote : isQuote c = false)
      (more : Parted rest s parts) : Parted rest (c :: s) (.char c :: parts)
  | string {d : Delimiter} {body s : Text} {parts : List Part}
      (encloses : d.Encloses body (s ++ rest)) (more : Parted rest s parts) :
      Parted rest (d.text ++ body ++ d.text ++ s) (.string d body :: parts)

variable {rest s t : Text} {parts others : List Part}

/-- The parts of a text, written one after the other, are the text. -/
theorem Parted.text (parted : Parted rest s parts) : parts.flatMap Part.text = s := by
  induction parted with
  | nil => rfl
  | char _ _ ih => rw [List.flatMap_cons, ih]; rfl
  | string _ _ ih => rw [List.flatMap_cons, ih]; rfl

/-- A text without quotes has no strings in it. -/
theorem parted_of_noQuote (noQuote : ∀ c ∈ s, isQuote c = false) (rest : Text) :
    Parted rest s (s.map .char) := by
  induction s with
  | nil => exact .nil
  | cons c s ih =>
    exact .char (noQuote c List.mem_cons_self)
      (ih fun d mem => noQuote d (List.mem_cons_of_mem _ mem))

/-- A text in front of another is cut with the other in sight. -/
theorem Parted.append (front : Parted (t ++ rest) s parts) (back : Parted rest t others) :
    Parted rest (s ++ t) (parts ++ others) := by
  induction front with
  | nil => exact back
  | char noQuote _ ih => exact .char noQuote ih
  | @string d body s parts encloses _ ih =>
    rw [← List.append_assoc] at encloses
    rw [List.append_assoc]
    exact .string encloses ih

/-- Parts can be cut where the text is cut. -/
theorem Parted.exists_append (parted : Parted rest s (parts ++ others)) :
    ∃ front back, s = front ++ back ∧ Parted (back ++ rest) front parts ∧
      Parted rest back others := by
  induction parts generalizing s with
  | nil => exact ⟨[], s, rfl, .nil, parted⟩
  | cons part parts ih =>
    cases parted with
    | char noQuote more =>
      obtain ⟨front, back, rfl, first, last⟩ := ih more
      exact ⟨_ :: front, back, rfl, .char noQuote first, last⟩
    | string encloses more =>
      obtain ⟨front, back, rfl, first, last⟩ := ih more
      rw [List.append_assoc] at encloses
      exact ⟨_, back, (List.append_assoc _ _ _).symm, .string encloses first, last⟩

/-- Of what follows, only a quote right behind matters. -/
theorem Parted.of_head (parted : Parted rest s parts) {rest' : Text}
    (starts : ∀ quote, isQuote quote = true → rest'.head? = some quote →
      rest.head? = some quote) : Parted rest' s parts := by
  induction parted with
  | nil => exact .nil
  | char noQuote _ ih => exact .char noQuote ih
  | @string d body s parts encloses _ ih =>
    refine .string ⟨encloses.isQuote, encloses.keeps, fun single empty followed => ?_⟩ ih
    refine encloses.apart single empty ?_
    cases s with
    | nil => exact starts d.quote encloses.isQuote followed
    | cons c s => exact followed

/-- Two strings at the front of a text are one. -/
theorem eq_of_encloses {d d' : Delimiter} {body body' after after' : Text}
    (encloses : d.Encloses body after) (encloses' : d'.Encloses body' after')
    (same : d.text ++ body ++ d.text ++ after = d'.text ++ body' ++ d'.text ++ after') :
    d = d' ∧ body = body' ∧ after = after' := by
  obtain ⟨more, front⟩ := Expression.head_delimiter d
  have split :
      d.quote :: (more ++ body ++ d.text ++ after) = d.text ++ body ++ d.text ++ after := by
    rw [front]
    rfl
  have read : Token.readLiteral [] d.quote _ = (.literal [] d body, after) :=
    (Token.readLiteral_eq_literal_iff encloses.isQuote).mpr ⟨split, encloses⟩
  have read' : Token.readLiteral [] d.quote _ = (.literal [] d' body', after') :=
    (Token.readLiteral_eq_literal_iff encloses.isQuote).mpr ⟨split.trans same, encloses'⟩
  obtain ⟨literal, rfl⟩ := Prod.mk.inj (read.symm.trans read')
  obtain ⟨_, rfl, rfl⟩ := Token.literal.inj literal
  exact ⟨rfl, rfl, rfl⟩

theorem not_isQuote_cons {d : Delimiter} {body after after' : Text} {c : Char}
    (encloses : d.Encloses body after) (noQuote : isQuote c = false) (s : Text) :
    c :: s ≠ d.text ++ body ++ d.text ++ after' := by
  obtain ⟨more, front⟩ := Expression.head_delimiter d
  rw [front]
  intro same
  obtain ⟨rfl, _⟩ := List.cons.inj same
  rw [encloses.isQuote] at noQuote
  cases noQuote

/-- Of two cuts from the start of a text, one goes on from where the other stops. -/
theorem Parted.compare {rest' : Text} (first : Parted rest s parts) (second : Parted rest' t others)
    (same : s ++ rest = t ++ rest') :
    (∃ more tail, s = t ++ more ∧ parts = others ++ tail ∧ Parted rest more tail) ∨
      ∃ more tail, t = s ++ more ∧ others = parts ++ tail ∧ Parted rest' more tail := by
  induction first generalizing t others with
  | nil => exact .inr ⟨t, others, rfl, rfl, second⟩
  | @char c s parts noQuote first ih =>
    cases second with
    | nil => exact .inl ⟨_, _, rfl, rfl, .char noQuote first⟩
    | char _ second =>
      obtain ⟨rfl, later⟩ := List.cons.inj same
      rcases ih second later with ⟨more, tail, rfl, rfl, cut⟩ | ⟨more, tail, rfl, rfl, cut⟩
      · exact .inl ⟨more, tail, rfl, rfl, cut⟩
      · exact .inr ⟨more, tail, rfl, rfl, cut⟩
    | string encloses _ =>
      rw [List.cons_append, List.append_assoc] at same
      exact absurd same (not_isQuote_cons encloses noQuote _)
  | @string d body s parts encloses first ih =>
    cases second with
    | nil => exact .inl ⟨_, _, rfl, rfl, .string encloses first⟩
    | char noQuote _ =>
      rw [List.cons_append, List.append_assoc] at same
      exact absurd same.symm (not_isQuote_cons encloses noQuote _)
    | string encloses' second =>
      rw [List.append_assoc, List.append_assoc _ _ rest'] at same
      obtain ⟨rfl, rfl, later⟩ := eq_of_encloses encloses encloses' same
      rcases ih second later with ⟨more, tail, rfl, rfl, cut⟩ | ⟨more, tail, rfl, rfl, cut⟩
      · exact .inl ⟨more, tail, by simp, rfl, cut⟩
      · exact .inr ⟨more, tail, by simp, rfl, cut⟩

theorem Parted.eq_nil (parted : Parted rest [] parts) : parts = [] := by
  have written := parted.text
  cases parts with
  | nil => rfl
  | cons part parts =>
    cases part <;> simp [Part.text, Token.text_delimiter_ne_nil] at written

/-- A text has one cut. -/
theorem Parted.unique (first : Parted rest s parts) (second : Parted rest s others) :
    parts = others := by
  rcases first.compare second rfl with ⟨more, tail, whole, rfl, cut⟩ | ⟨more, tail, whole, rfl, cut⟩
  all_goals
    obtain rfl := List.append_right_eq_self.mp whole.symm
    rw [cut.eq_nil, List.append_nil]

end Text

/-! ## Tokens -/

namespace Token

open Text

/-- The parts of a token as written. -/
def parts : Token → List Part
  | .literal mark delimiter body => mark.map .char ++ [.string delimiter body]
  | token => token.text.map .char

theorem noQuote_of_tame {s : Text} (tame : ∀ c ∈ s, isTame c = true) :
    ∀ c ∈ s, isQuote c = false := by
  intro c mem
  have neutral := Expression.isNeutral_of_isTame (tame c mem)
  simp only [Nesting.isNeutral, Bool.and_eq_true, Bool.not_eq_true'] at neutral
  exact neutral.1.1

/-- A string behind its mark. -/
theorem parted_literal {mark body after : Text} {d : Delimiter} (tame : ∀ c ∈ mark, isTame c = true)
    (encloses : d.Encloses body after) :
    Parted after (mark ++ d.text ++ body ++ d.text) (mark.map .char ++ [.string d body]) := by
  have string : Parted after (d.text ++ body ++ d.text ++ []) [.string d body] :=
    .string encloses .nil
  rw [List.append_nil] at string
  have whole := (parted_of_noQuote (noQuote_of_tame tame) _).append string
  rwa [← List.append_assoc, ← List.append_assoc] at whole

/-- A token has the parts that it is read as, if it ends and nothing behind it goes on with its
string. -/
theorem parted_of_formed {token : Token} {after : Text} (formed : token.Formed)
    (ended : ∀ rest, token ≠ .unterminated rest)
    (encloses : ∀ mark d body, token = .literal mark d body → d.Encloses body after) :
    Parted after token.text token.parts := by
  cases token with
  | literal mark d body => exact parted_literal formed.2 (encloses mark d body rfl)
  | unterminated rest => exact absurd rfl (ended rest)
  | symbol c => exact .char formed .nil
  | _ => exact parted_of_noQuote (noQuote_of_tame formed.2) after

/-- Reading a text whose strings end cuts it into the parts of its tokens. -/
theorem parted_readAllFrom {afterDot : Bool} {s : Text}
    (ended : ∀ token ∈ readAllFrom afterDot s, ∀ rest, token ≠ .unterminated rest) :
    Parted [] s ((readAllFrom afterDot s).flatMap parts) := by
  fun_induction readAllFrom afterDot s with
  | case1 => exact .nil
  | case2 afterDot c rest ih =>
    obtain ⟨own, later⟩ := List.forall_mem_cons.mp ended
    have front := parted_of_formed (formed_read afterDot c rest) own fun _ _ _ => encloses_read
    rw [← List.append_nil (read afterDot c rest).2] at front
    have whole := front.append (ih later)
    rwa [text_read] at whole

/-- A string with the mark before it. -/
structure Marked where
  mark : Text
  delimiter : Delimiter
  body : Text
  deriving DecidableEq, Repr

/-- The string that a token is. -/
def string? : Token → Option Marked
  | .literal mark delimiter body => some ⟨mark, delimiter, body⟩
  | _ => none

theorem strings_chars (s : Text) : Part.strings (s.map .char) = [] := by
  simp [Part.strings, Part.string?]

theorem strings_append (front back : List Part) :
    Part.strings (front ++ back) = Part.strings front ++ Part.strings back :=
  List.filterMap_append

theorem strings_parts (token : Token) :
    Part.strings token.parts =
      (token.string?.map fun found => (found.delimiter, found.body)).toList := by
  cases token with
  | literal mark d body => rw [parts, strings_append, strings_chars]; rfl
  | _ => exact strings_chars _

/-- The strings among the parts of tokens are the strings that tokens are. -/
theorem strings_flatMap_parts (tokens : List Token) :
    Part.strings (tokens.flatMap parts) =
      (tokens.filterMap string?).map fun found => (found.delimiter, found.body) := by
  induction tokens with
  | nil => rfl
  | cons token rest ih =>
    rw [List.flatMap_cons, strings_append, strings_parts, ih, List.filterMap_cons]
    cases token.string? <;> rfl

end Token

/-! ## Rewriting -/

namespace Expression

open Text

variable {inner : Text → Except Fault Expression}

/-- A token and the parts of its expression. -/
inductive Rewritten [Letters] (inner : Text → Except Fault Expression) : Token → List Part → Prop
  | plain {token : Token} {e : Expression} (noString : token.string? = none)
      (made : ofToken inner token = .ok e) : Rewritten inner token (e.text.map .char)
  | kept {mark body : Text} {d : Delimiter} {e : Expression}
      (passive : Token.isTemplate (.literal mark d body) = false)
      (made : ofToken inner (.literal mark d body) = .ok e)
      (written : e.text = mark ++ d.text ++ body ++ d.text) (keeps : d.Keeps body) :
      Rewritten inner (.literal mark d body) (mark.map .char ++ [.string d body])
  | filled {mark body body' : Text} {d : Delimiter} {e : Expression}
      (active : Token.isTemplate (.literal mark d body) = true)
      (made : ofToken inner (.literal mark d body) = .ok e)
      (written : e.text = interpolatedMark mark ++ d.text ++ body' ++ d.text)
      (keeps : d.Keeps body') :
      Rewritten inner (.literal mark d body)
        ((interpolatedMark mark).map .char ++ [.string d body'])

theorem text_chars (s : Text) : (s.map Part.char).flatMap Part.text = s := by
  rw [List.flatMap_map]
  exact List.flatMap_singleton' s

theorem text_marked (mark body : Text) (d : Delimiter) :
    (mark.map Part.char ++ [Part.string d body]).flatMap Part.text =
      mark ++ d.text ++ body ++ d.text := by
  rw [List.flatMap_append, text_chars]
  simp [Part.text]

/-- The parts are the expression of the token. -/
theorem Rewritten.text [Letters] {token : Token} {parts : List Part}
    (rewritten : Rewritten inner token parts) :
    ∃ e, ofToken inner token = .ok e ∧ parts.flatMap Part.text = e.text := by
  cases rewritten with
  | plain _ made => exact ⟨_, made, text_chars _⟩
  | kept _ made written _ => exact ⟨_, made, by rw [text_marked, written]⟩
  | filled _ made written _ => exact ⟨_, made, by rw [text_marked, written]⟩

/-- The expression of a token is cut into its parts, whatever follows that does not start with
another quote than what followed the token. -/
theorem parted_ofToken [Letters] {token : Token} {e : Expression} {after more : Text}
    (formed : token.Formed) (made : ofToken inner token = .ok e)
    (encloses : ∀ mark d body, token = .literal mark d body → d.Encloses body after)
    (starts : ∀ quote, isQuote quote = true → more.head? = some quote →
      after.head? = some quote) :
    ∃ parts, Rewritten inner token parts ∧ Parted more e.text parts := by
  have tamed {s : Text} (tame : ∀ c ∈ s, Token.isTame c = true) : Parted more s (s.map .char) :=
    parted_of_noQuote (Token.noQuote_of_tame tame) more
  cases token with
  | word name member =>
    refine ⟨_, .plain rfl made, ?_⟩
    obtain rfl := Except.ok.inj made
    rw [text_ofWord]
    exact tamed (respell_tame formed.1 formed.2).2
  | range sugar =>
    have own : ∀ c ∈ respelling, isQuote c = false := by
      intro c mem
      have plain := List.all_eq_true.mp (by decide : (respelling.all fun c => !isQuote c) = true)
      simpa using plain c mem
    have noQuote := ofRange_chars own (Token.noQuote_of_tame formed.2) made
    exact ⟨_, .plain rfl made, parted_of_noQuote noQuote more⟩
  | literal mark d body =>
    have own := encloses mark d body rfl
    rcases ofLiteral_cases made with
      ⟨plain, same⟩ | ⟨template, segments, filled, cut, has, pairs, free, same⟩
    · have kept : d.Encloses body more :=
        ⟨own.isQuote, own.keeps, fun single empty followed =>
          own.apart single empty (starts d.quote own.isQuote followed)⟩
      rw [same]
      exact ⟨_, .kept plain made same own.keeps, Token.parted_literal formed.2 kept⟩
    · have kept := encloses_render own cut has pairs free more
      rw [same]
      exact ⟨_, .filled template made same kept.keeps,
        Token.parted_literal (interpolatedMark_tame formed.2) kept⟩
  | unterminated rest => cases made
  | symbol c =>
    refine ⟨_, .plain rfl made, ?_⟩
    obtain rfl := Except.ok.inj made
    exact .char formed .nil
  | _ =>
    refine ⟨_, .plain rfl made, ?_⟩
    obtain rfl := Except.ok.inj made
    exact tamed formed.2

/-- The expression of tokens is cut into the parts of their expressions. -/
theorem parted_ofTokens [Letters] {afterDot : Bool} {s : Text} {opened : List Char} {e : Expression}
    (ok : ofTokens inner opened (Token.readAllFrom afterDot s) = .ok e) :
    ∃ made, List.Forall₂ (Rewritten inner) (Token.readAllFrom afterDot s) made ∧
      Parted [] e.text made.flatten := by
  fun_induction Token.readAllFrom afterDot s generalizing opened e with
  | case1 =>
    cases opened with
    | nil =>
      obtain rfl := Except.ok.inj ok
      exact ⟨[], .nil, .nil⟩
    | cons innermost outer => cases ok
  | case2 afterDot c rest ih =>
    rw [ofTokens] at ok
    obtain ⟨opened', _, ok⟩ := bind_eq_ok.mp ok
    obtain ⟨first, own, ok⟩ := bind_eq_ok.mp ok
    obtain ⟨more, later, ok⟩ := bind_eq_ok.mp ok
    obtain rfl := Except.ok.inj ok
    obtain ⟨parts, rewritten, front⟩ := parted_ofToken (Token.formed_read afterDot c rest) own
      (fun _ _ _ => Token.encloses_read) (openAfter?_ofTokens later).2
    obtain ⟨made, pairs, back⟩ := ih later
    refine ⟨parts :: made, .cons rewritten pairs, ?_⟩
    rw [← List.append_nil more.text] at front
    exact front.append back

/-! ## Strings before and after -/

/-- A string, and the string that it is in the expression. -/
structure Survives (before : Token.Marked) (after : Delimiter × Text) : Prop where
  /-- The delimiter stays. -/
  delimiter : after.1 = before.delimiter
  /-- The body does not end the string before its end. -/
  keeps : after.1.Keeps after.2
  /-- Without placeholders the body stays. -/
  plain : (Template.split before.body).toOption.any Template.hasPlaceholders = false →
    after.2 = before.body
  /-- In a raw string or in bytes that do not interpolate the body stays. -/
  raw : (before.mark.any fun c => "rRbB".toList.contains c) = true → hasF before.mark = false →
    after.2 = before.body

/-- A mark for raw strings or bytes, without `f`, replaces no placeholders. -/
theorem interpolates_eq_false {mark : Text}
    (raw : (mark.any fun c => "rRbB".toList.contains c) = true) (noF : hasF mark = false) :
    interpolates mark = false := by
  obtain ⟨c, mem, isRaw⟩ := List.any_eq_true.mp raw
  have letters : (c == 'r' || c == 'R' || c == 'b' || c == 'B') = true := by
    simpa [or_assoc] using isRaw
  rw [interpolates, noF, Bool.false_or, Bool.not_eq_false', List.any_eq_true]
  exact ⟨c, mem, letters⟩

theorem survives_kept {mark body : Text} {d : Delimiter} (keeps : d.Keeps body) :
    Survives ⟨mark, d, body⟩ (d, body) :=
  ⟨rfl, keeps, fun _ => rfl, fun _ _ => rfl⟩

/-- A string whose placeholders are replaced survives with the delimiter it had. -/
theorem survives_filled {mark body body' : Text} {d : Delimiter}
    (template : Token.isTemplate (.literal mark d body) = true) (keeps : d.Keeps body') :
    Survives ⟨mark, d, body⟩ (d, body') := by
  rw [Token.isTemplate, Bool.and_eq_true] at template
  refine ⟨rfl, keeps, fun plain => ?_, fun raw noF => ?_⟩
  · rw [template.2] at plain
    cases plain
  · rw [interpolates_eq_false raw noF] at template
    cases template.1

/-- Every string among the tokens survives, in order. -/
theorem survives_of_rewritten [Letters] {tokens : List Token} {made : List (List Part)}
    (pairs : List.Forall₂ (Rewritten inner) tokens made) :
    List.Forall₂ Survives (tokens.filterMap Token.string?) (Part.strings made.flatten) := by
  induction pairs with
  | nil => exact .nil
  | @cons token parts tokens made first _ ih =>
    rw [List.flatten_cons, Token.strings_append]
    cases first with
    | plain noString =>
      rw [List.filterMap_cons, noString, Token.strings_chars]
      exact ih
    | kept _ _ _ keeps =>
      rw [Token.strings_append, Token.strings_chars]
      exact .cons (survives_kept keeps) ih
    | filled template _ _ keeps =>
      rw [Token.strings_append, Token.strings_chars]
      exact .cons (survives_filled template keeps) ih

/-- A value that can be rewritten has no string that does not end. -/
theorem ended_of_rewritten [Letters] {tokens : List Token} {made : List (List Part)}
    (pairs : List.Forall₂ (Rewritten inner) tokens made) :
    ∀ token ∈ tokens, ∀ rest, token ≠ .unterminated rest := by
  induction pairs with
  | nil =>
    intro token mem
    cases mem
  | cons first _ ih =>
    refine List.forall_mem_cons.mpr ⟨?_, ih⟩
    rintro rest rfl
    obtain ⟨e, made, _⟩ := first.text
    cases made

/-- Strings survive. A value and its expression are cut into parts, so no string in them stays
open. The strings of the value are those that it is read with, and the parts of the expression are
those of its tokens one after the other. Its strings come in the same order with the same
delimiters; each has the same body if there is no placeholder in it, or if its mark makes it raw or
bytes and does not ask for interpolation. -/
theorem ofText_strings [Letters] {raw : Text} {e : Expression} (ok : ofText raw = .ok e) :
    ∃ (parts : List Part) (made : List (List Part)),
      Parted [] (trim raw) parts ∧ Parted [] e.text made.flatten ∧
      Part.strings parts =
        ((Token.readAll (trim raw)).filterMap Token.string?).map
          (fun found => (found.delimiter, found.body)) ∧
      List.Forall₂ (Rewritten ofText) (Token.readAll (trim raw)) made ∧
      List.Forall₂ Survives ((Token.readAll (trim raw)).filterMap Token.string?)
        (Part.strings made.flatten) := by
  rw [ofText_eq] at ok
  obtain ⟨made, pairs, parted⟩ := parted_ofTokens ok
  exact ⟨_, made, Token.parted_readAllFrom (ended_of_rewritten pairs), parted,
    Token.strings_flatMap_parts _, pairs, survives_of_rewritten pairs⟩

/-- A raw string, and a string in three quotes that holds one of them, a protected one and
placeholders: `r'{ x }' + """a"{ f('b') }\"{ y }"""`. -/
theorem ofText_strings_triple :
    let raw := "r'\x7b x \x7d' + \"\"\"a\"\x7b f('b') \x7d\\\"\x7b y \x7d\"\"\"".toList
    let code := "r'\x7b x \x7d' + f\"\"\"a\"\x7bf('b')\x7d\\\"\x7by\x7d\"\"\"".toList
    (ofText raw).toOption.map Expression.text = some code ∧
      ∃ (parts : List Part) (made : List (List Part)),
        Parted [] (trim raw) parts ∧ Parted [] code made.flatten ∧
        Part.strings parts =
          [(⟨'\'', false⟩, "\x7b x \x7d".toList),
            (⟨'"', true⟩, "a\"\x7b f('b') \x7d\\\"\x7b y \x7d".toList)] ∧
        List.Forall₂ Survives ((Token.readAll (trim raw)).filterMap Token.string?)
          (Part.strings made.flatten) := by
  intro raw code
  have found : (ofText raw).toOption.map Expression.text = some code := by decide +kernel
  obtain ⟨e, read, text⟩ := Option.map_eq_some_iff.mp found
  have ok : ofText raw = .ok e := eq_ok_of_toOption read
  obtain ⟨parts, made, before, after, strings, _, survive⟩ := ofText_strings ok
  refine ⟨found, parts, made, before, text ▸ after, strings.trans ?_, survive⟩
  decide +kernel

end Expression

end Outline
