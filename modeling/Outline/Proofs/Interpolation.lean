import Mathlib.Data.List.Forall2
import Outline.Header.Edition
import Outline.Proofs.Template

/-!
# Strings with placeholders read back

A string with placeholders is rewritten segment by segment: literal text stays, and the expression
of a placeholder becomes its own translation. Whether the rewritten string is cut into these
segments again depends on each placeholder by itself. Its expression must not start with a brace,
must not end with an equals sign before the colon of a format, and must be read to its end. The last
is so unless a string with placeholders stands in it and some string in it holds the quote that ends
it, because a scan for the end of a placeholder knows no escapes (`Expression.isSteady`).
-/

set_option autoImplicit false

namespace Outline

/-! ## Tokens -/

namespace Token

/-- A character of words and numbers, or a sign of range sugar. -/
def isTame (c : Char) : Bool := Text.isWordChar c || c == '.' || c == '-'

/-- What reading promises of the characters of a token. -/
def Formed : Token → Prop
  | .word text _ | .attribute text | .number text | .range text =>
    text ≠ [] ∧ ∀ c ∈ text, isTame c = true
  | .literal mark delimiter _ =>
    Text.isQuote delimiter.quote = true ∧ ∀ c ∈ mark, isTame c = true
  | .unterminated _ => True
  | .symbol c => Text.isQuote c = false

theorem isTame_of_isWordChar {c : Char} (word : Text.isWordChar c = true) : isTame c = true := by
  simp [isTame, word]

/-- A string literal that is read has a quote for its delimiter, and a tame mark. -/
theorem formed_readLiteral {quote : Char} {mark : Text} (isQuote : Text.isQuote quote = true)
    (tame : ∀ c ∈ mark, isTame c = true) (rest : Text) :
    (readLiteral mark quote rest).1.Formed := by
  rw [readLiteral]
  split
  · exact ⟨isQuote, tame⟩
  · trivial

/-- Range sugar is made of tame characters. -/
theorem tame_cutSugar (previous : Char) (s : Text) :
    ∀ c ∈ (cutSugar previous s).1, isTame c = true := by
  induction s generalizing previous with
  | nil =>
    intro c mem
    cases mem
  | cons first rest ih =>
    intro c mem
    rw [cutSugar] at mem
    split at mem
    next taken =>
      rcases List.mem_cons.mp mem with rfl | later
      · simp only [Bool.or_eq_true, Bool.and_eq_true, beq_iff_eq] at taken
        simp only [isTame, Bool.or_eq_true, beq_iff_eq]
        exact taken.imp_right And.left
      · exact ih first c later
    next => cases mem

theorem formed_readWord {name : Text} (filled : name ≠ []) (tame : ∀ c ∈ name, isTame c = true)
    (afterDot : Bool) (after : Text) : (readWord afterDot name after).1.Formed := by
  cases after with
  | nil => cases afterDot <;> exact ⟨filled, tame⟩
  | cons c rest =>
    rw [readWord]
    split
    next mark =>
      rw [Bool.and_eq_true] at mark
      exact formed_readLiteral mark.1 tame rest
    next =>
      split
      · exact ⟨filled, tame⟩
      · split
        · refine ⟨by simp [filled], ?_⟩
          intro d mem
          rcases List.mem_append.mp mem with inName | inSugar
          · exact tame d inName
          · exact tame_cutSugar _ _ d inSugar
        · exact ⟨filled, tame⟩

/-- Reading keeps its promise for one token. -/
theorem formed_read (afterDot : Bool) (c : Char) (rest : Text) :
    (read afterDot c rest).1.Formed := by
  rw [read]
  split
  next quote => exact formed_readLiteral quote (fun _ mem => absurd mem List.not_mem_nil) rest
  next plain =>
    split
    next start =>
      have own := Text.isWordChar_of_isWordStart start
      refine formed_readWord ?_ ?_ afterDot _
      · simp [Text.leadingWord, own]
      · intro d mem
        exact isTame_of_isWordChar (List.all_eq_true.mp List.all_takeWhile d mem)
    next =>
      split
      next digit =>
        refine ⟨by simp [cutNumber, Text.isWordChar_of_isDigit digit], ?_⟩
        intro d mem
        rcases mem_cutNumber (c :: rest) d mem with rfl | word
        · rfl
        · exact isTame_of_isWordChar word
      next => exact Bool.eq_false_iff.mpr plain

/-- Reading keeps its promise for every token of a text, and none is empty. -/
theorem formed_readAllFrom (afterDot : Bool) (s : Text) :
    ∀ token ∈ readAllFrom afterDot s, token.Formed ∧ token.text ≠ [] := by
  fun_induction readAllFrom afterDot s with
  | case1 =>
    intro token mem
    cases mem
  | case2 afterDot c rest ih =>
    intro token mem
    rcases List.mem_cons.mp mem with rfl | later
    · exact ⟨formed_read afterDot c rest, text_read_ne_nil afterDot c rest⟩
    · exact ih token later

/-- Whether the token is a string whose placeholders are replaced. -/
def isTemplate : Token → Bool
  | .literal mark _ body =>
    Expression.interpolates mark && (Template.split body).toOption.any Template.hasPlaceholders
  | _ => false

/-- Whether the token is no string that holds the quote that ends it. -/
def keepsQuote : Token → Bool
  | .literal _ delimiter body => !body.contains delimiter.quote
  | _ => true

end Token

/-! ## Rewritten segments -/

/-- A segment and what rewriting makes of it: only the expression of a placeholder changes. -/
inductive Segment.Filled (inner : Text → Except Expression.Fault Expression) :
    Segment → Segment → Prop
  | literal (text : Text) : Filled inner (.literal text) (.literal text)
  | placeholder {expr : Text} {e : Expression} (read : inner expr = .ok e) (spec : Text) :
      Filled inner (.placeholder expr spec) (.placeholder e.text spec)

namespace Expression

variable {inner : Text → Except Fault Expression}

/-- The text of a rewritten string is its rewritten segments, and no placeholder holds the quote. -/
theorem fill_eq_ok {quote : Char} {segments : List Segment} {e : Expression}
    (ok : fill inner quote segments = .ok e) :
    ∃ filled, List.Forall₂ (Segment.Filled inner) segments filled ∧
      e.text = Template.render filled ∧
      ∀ expr spec, Segment.placeholder expr spec ∈ filled → quote ∉ expr := by
  induction segments generalizing e with
  | nil =>
    obtain rfl := Except.ok.inj ok
    exact ⟨[], .nil, rfl, fun _ _ mem => absurd mem List.not_mem_nil⟩
  | cons segment rest ih =>
    cases segment with
    | literal text =>
      obtain ⟨more, later, ok⟩ := bind_eq_ok.mp ok
      obtain rfl := Except.ok.inj ok
      obtain ⟨filled, pairs, written, free⟩ := ih later
      refine ⟨.literal text :: filled, .cons (.literal text) pairs, ?_, ?_⟩
      · rw [Template.render, ← written]
        rfl
      · intro expr spec mem
        rcases List.mem_cons.mp mem with same | mem
        · cases same
        · exact free expr spec mem
    | placeholder expr spec =>
      obtain ⟨first, read, ok⟩ := bind_eq_ok.mp ok
      split at ok
      · cases ok
      next noQuote =>
        obtain ⟨more, later, ok⟩ := bind_eq_ok.mp ok
        obtain rfl := Except.ok.inj ok
        obtain ⟨filled, pairs, written, free⟩ := ih later
        refine ⟨.placeholder first.text spec :: filled, .cons (.placeholder read spec) pairs,
          ?_, ?_⟩
        · simp [append, Template.render, written]
        · intro other otherSpec mem
          rcases List.mem_cons.mp mem with same | mem
          · obtain ⟨rfl, rfl⟩ := Segment.placeholder.inj same
            simpa using noQuote
          · exact free other otherSpec mem

/-- A string is left as written, unless it has placeholders that are replaced; then its segments are
rewritten. -/
theorem ofLiteral_cases {mark body : Text} {delimiter : Delimiter} {e : Expression}
    (ok : ofLiteral inner mark delimiter body = .ok e) :
    (Token.isTemplate (.literal mark delimiter body) = false ∧
        e.text = mark ++ delimiter.text ++ body ++ delimiter.text) ∨
      (Token.isTemplate (.literal mark delimiter body) = true ∧
        ∃ segments filled, Template.split body = .ok segments ∧
          Template.hasPlaceholders segments = true ∧
          List.Forall₂ (Segment.Filled inner) segments filled ∧
          (∀ expr spec, Segment.placeholder expr spec ∈ filled → delimiter.quote ∉ expr) ∧
          e.text = interpolatedMark mark ++ delimiter.text ++ Template.render filled ++
            delimiter.text) := by
  rw [ofLiteral] at ok
  rw [Token.isTemplate]
  split at ok
  next active =>
    rw [active]
    split at ok
    next => cases ok
    next segments cut =>
      rw [cut]
      split at ok
      next has =>
        obtain ⟨whole, made, ok⟩ := bind_eq_ok.mp ok
        obtain rfl := Except.ok.inj ok
        obtain ⟨filled, pairs, written, free⟩ := fill_eq_ok made
        refine .inr ⟨?_, segments, filled, rfl, has, pairs, free, ?_⟩
        · simpa [Except.toOption] using has
        · rw [← written]
      next none =>
        obtain rfl := Except.ok.inj ok
        refine .inl ⟨?_, rfl⟩
        simpa [Except.toOption] using none
  next passive =>
    obtain rfl := Except.ok.inj ok
    exact .inl ⟨by simp [passive], rfl⟩

/-! ## The ends of an expression -/

/-- A respelled word is neither empty nor less tame than the word. -/
theorem respell_tame {name : Text} (filled : name ≠ [])
    (tame : ∀ c ∈ name, Token.isTame c = true) :
    respell name ≠ [] ∧ ∀ c ∈ respell name, Token.isTame c = true := by
  have own (word : Text) (all : word.all Token.isTame = true) : ∀ c ∈ word, Token.isTame c = true :=
    List.all_eq_true.mp all
  rw [respell]
  split
  · exact ⟨by decide, own _ (by decide +kernel)⟩
  split
  · exact ⟨by decide, own _ (by decide +kernel)⟩
  split
  · exact ⟨by decide, own _ (by decide +kernel)⟩
  · exact ⟨filled, tame⟩

theorem interpolatedMark_tame {mark : Text} (tame : ∀ c ∈ mark, Token.isTame c = true) :
    ∀ c ∈ interpolatedMark mark, Token.isTame c = true := by
  rw [interpolatedMark]
  split
  · exact tame
  · exact List.forall_mem_cons.mpr ⟨by decide +kernel, tame⟩

/-- A property of characters that rewriting neither adds at an end of a token nor takes away. -/
structure Outer (p : Char → Bool) : Prop where
  tame : ∀ c, Token.isTame c = true → p c = false
  quote : ∀ c, Text.isQuote c = true → p c = false
  paren : p ')' = false

/-- Two texts of which both or neither start, and both or neither end, with such a character. -/
structure SameEnds (p : Char → Bool) (s t : Text) : Prop where
  head : s.head?.any p = t.head?.any p
  last : s.getLast?.any p = t.getLast?.any p

theorem head_delimiter (delimiter : Delimiter) :
    ∃ rest, delimiter.text = delimiter.quote :: rest := by
  obtain ⟨quote, triple⟩ := delimiter
  cases triple
  · exact ⟨[], rfl⟩
  · exact ⟨[quote, quote], rfl⟩

/-- Rewriting a token keeps what its first and its last character are, as far as such a property
tells. -/
theorem sameEnds_ofToken [Letters] {p : Char → Bool} (outer : Outer p) {token : Token}
    {e : Expression}
    (formed : token.Formed) (filled : token.text ≠ []) (ok : ofToken inner token = .ok e) :
    e.text ≠ [] ∧ SameEnds p e.text token.text := by
  have tameEnds {s : Text} (tame : ∀ c ∈ s, Token.isTame c = true) :
      s.head?.any p = false ∧ s.getLast?.any p = false := by
    constructor
    · rw [Option.any_eq_false]
      intro c head
      simp [outer.tame c (tame c (List.mem_of_head? head))]
    · rw [Option.any_eq_false]
      intro c last
      simp [outer.tame c (tame c (List.mem_of_getLast? last))]
  cases token with
  | word name member =>
    obtain rfl := Except.ok.inj ok
    rw [text_ofWord]
    obtain ⟨some, tame⟩ := respell_tame formed.1 formed.2
    have before := tameEnds formed.2
    have after := tameEnds tame
    exact ⟨some, after.1.trans before.1.symm, after.2.trans before.2.symm⟩
  | range sugar =>
    rw [ofToken, ofRange] at ok
    split at ok
    next => cases ok
    next bounds _ =>
      obtain rfl := Except.ok.inj ok
      have before := tameEnds formed.2
      have first : p 'r' = false := outer.tame 'r' (by decide +kernel)
      refine ⟨by simp, ?_, ?_⟩
      · exact first.trans before.1.symm
      · show (_ ++ [')']).getLast?.any p = _
        rw [List.getLast?_concat]
        exact outer.paren.trans before.2.symm
  | literal mark delimiter body =>
    -- As written or rewritten, a string stands between a mark or a quote and a quote.
    have literalEnds {mark body : Text} (tame : ∀ c ∈ mark, Token.isTame c = true) :
        (mark ++ delimiter.text ++ body ++ delimiter.text).head?.any p = false ∧
          (mark ++ delimiter.text ++ body ++ delimiter.text).getLast?.any p = false := by
      have quote := outer.quote delimiter.quote formed.1
      constructor
      · cases mark with
        | nil =>
          obtain ⟨rest, start⟩ := head_delimiter delimiter
          rw [List.nil_append, start]
          exact quote
        | cons c mark => exact outer.tame c (tame c List.mem_cons_self)
      · rw [getLast?_append_delimiter]
        exact quote
    have before := @literalEnds mark body formed.2
    rcases ofLiteral_cases ok with ⟨_, same⟩ | ⟨_, segments, filled, _, _, _, _, same⟩
    · rw [same]
      exact ⟨filled, rfl, rfl⟩
    · have after := @literalEnds _ (Template.render filled) (interpolatedMark_tame formed.2)
      rw [same]
      refine ⟨?_, after.1.trans before.1.symm, after.2.trans before.2.symm⟩
      simp [Token.text_delimiter_ne_nil]
  | unterminated rest => cases ok
  | _ =>
    obtain rfl := Except.ok.inj ok
    exact ⟨filled, rfl, rfl⟩

/-- Two texts side by side keep their outer ends. -/
theorem sameEnds_append {p : Char → Bool} {s s' t t' : Text} (filled : s ≠ []) (filled' : s' ≠ [])
    (front : SameEnds p s s') (back : SameEnds p t t') (both : t = [] ↔ t' = []) :
    SameEnds p (s ++ t) (s' ++ t') := by
  constructor
  · obtain ⟨c, s, rfl⟩ := List.exists_cons_of_ne_nil filled
    obtain ⟨c', s', rfl⟩ := List.exists_cons_of_ne_nil filled'
    exact front.head
  · rw [List.getLast?_append, List.getLast?_append]
    cases t with
    | nil =>
      rw [both.mp rfl]
      exact front.last
    | cons d t =>
      obtain ⟨d', t', rfl⟩ := List.exists_cons_of_ne_nil (mt both.mpr (List.cons_ne_nil _ _))
      have last := back.last
      rw [List.getLast?_cons, List.getLast?_cons] at last ⊢
      exact last

/-- Rewriting tokens keeps their outer ends, and leaves nothing only if there was nothing. -/
theorem sameEnds_ofTokens [Letters] {p : Char → Bool} (outer : Outer p) {opened : List Char}
    {tokens : List Token} {e : Expression}
    (formed : ∀ token ∈ tokens, token.Formed ∧ token.text ≠ [])
    (ok : ofTokens inner opened tokens = .ok e) :
    (e.text = [] ↔ tokens.flatMap Token.text = []) ∧
      SameEnds p e.text (tokens.flatMap Token.text) := by
  induction tokens generalizing opened e with
  | nil =>
    cases opened with
    | nil =>
      obtain rfl := Except.ok.inj ok
      exact ⟨Iff.rfl, rfl, rfl⟩
    | cons innermost outer => cases ok
  | cons token rest ih =>
    rw [ofTokens] at ok
    obtain ⟨opened', _, ok⟩ := bind_eq_ok.mp ok
    obtain ⟨first, made, ok⟩ := bind_eq_ok.mp ok
    obtain ⟨more, later, ok⟩ := bind_eq_ok.mp ok
    obtain rfl := Except.ok.inj ok
    have own := formed token List.mem_cons_self
    obtain ⟨filled, front⟩ := sameEnds_ofToken outer own.1 own.2 made
    obtain ⟨both, back⟩ := ih (fun other mem => formed other (List.mem_cons_of_mem _ mem)) later
    refine ⟨?_, sameEnds_append filled own.2 front back both⟩
    simp [append, filled, own.2]

/-- Rewriting a value keeps its outer ends. -/
theorem sameEnds_ofText [Letters] {p : Char → Bool} (outer : Outer p) {raw : Text} {e : Expression}
    (trimmed : Text.Trimmed raw) (ok : ofText raw = .ok e) :
    (e.text = [] ↔ raw = []) ∧ SameEnds p e.text raw := by
  rw [ofText_eq, Text.trim_eq_self trimmed] at ok
  have ends := sameEnds_ofTokens outer (Token.formed_readAllFrom false raw) ok
  rwa [Token.text_readAllFrom] at ends

/-- Rewriting puts no blank at an end of a token. -/
theorem outer_isBlank : Outer Text.isBlank where
  tame c tame := by
    cases blank : Text.isBlank c with
    | false => rfl
    | true =>
      rw [Text.eq_false_of_isBlank (p := Token.isTame) (by decide +kernel) blank] at tame
      cases tame
  quote c quote := by
    cases blank : Text.isBlank c with
    | false => rfl
    | true =>
      rw [Quoting.isQuote_eq_false_of_isBlank blank] at quote
      cases quote
  paren := by decide

/-- Rewriting puts a character at an end of a token only if it is a quote, a closing parenthesis or
a tame one. -/
theorem outer_beq {d : Char} (wild : Token.isTame d = false) (noQuote : Text.isQuote d = false)
    (noParen : d ≠ ')') : Outer (· == d) where
  tame c tame := by
    rw [beq_eq_false_iff_ne]
    rintro rfl
    rw [wild] at tame
    cases tame
  quote c quote := by
    rw [beq_eq_false_iff_ne]
    rintro rfl
    rw [noQuote] at quote
    cases quote
  paren := beq_eq_false_iff_ne.mpr (Ne.symm noParen)

/-- Translation keeps a brace or an equals sign at either end of an expression. -/
theorem SameEnds.eq_some_iff {d : Char} {s t : Text} (ends : SameEnds (· == d) s t) :
    (s.head? = some d ↔ t.head? = some d) ∧ (s.getLast? = some d ↔ t.getLast? = some d) := by
  have any_beq (found : Option Char) : found = some d ↔ found.any (· == d) = true := by
    cases found <;> simp
  rw [any_beq s.head?, any_beq t.head?, any_beq s.getLast?, any_beq t.getLast?, ends.head,
    ends.last]
  exact ⟨Iff.rfl, Iff.rfl⟩

/-- The translation of a trimmed value is trimmed. -/
theorem trimmed_ofText [Letters] {raw : Text} {e : Expression} (trimmed : Text.Trimmed raw)
    (ok : ofText raw = .ok e) : Text.Trimmed e.text := by
  obtain ⟨_, ends⟩ := sameEnds_ofText outer_isBlank trimmed ok
  have inked {found : Option Char} (ink : ∀ c ∈ found, Text.isBlank c = false) :
      found.any Text.isBlank = false := by
    rw [Option.any_eq_false]
    intro c mem
    simp [ink c mem]
  have ink {found : Option Char} (none : found.any Text.isBlank = false) :
      ∀ c ∈ found, Text.isBlank c = false := by
    intro c mem
    rw [Option.mem_def.mp mem] at none
    exact none
  exact ⟨ink (ends.head.trans (inked trimmed.front)), ink (ends.last.trans (inked trimmed.back))⟩

end Expression

/-! ## Scans over an expression and its translation -/

namespace Template

open Nesting

/-- Whether a scan may stop at a character. -/
def mayStop (c : Char) : Bool := c == '}' || c == '!' || c == ':'

/-- What the two searches in a placeholder have in common. -/
structure IsStop (stop : Option Char → Char → Option Char → Bool) : Prop where
  sees : SeesEquals stop
  marks : ∀ previous c next, stop previous c next = true → mayStop c = true

theorem isStop_endsHole : IsStop endsHole where
  sees := seesEquals_endsHole
  marks _ c _ stops := by simp [mayStop, show (c == '}') = true from stops]

theorem isStop_startsSpec : IsStop startsSpec where
  sees := seesEquals_startsSpec
  marks _ c _ stops := by
    simp only [startsSpec, Bool.and_eq_true, Bool.or_eq_true] at stops
    rcases stops.2 with mark | ⟨colon, _⟩
    · simp [mayStop, mark]
    · simp [mayStop, colon]

/-- A text that a scan passes over: it stops nowhere, and comes out where it went in. -/
structure Passes (n : Nesting) (s : Text) : Prop where
  fold : s.foldl stepPlain n = n
  clear : ∀ stop, IsStop stop → ∀ previous next, avoids stop previous n s next = true

/-- A scan passes over two texts in turn. -/
theorem Passes.append {n : Nesting} {s t : Text} (front : Passes n s) (back : Passes n t) :
    Passes n (s ++ t) where
  fold := by rw [List.foldl_append, front.fold, back.fold]
  clear stop isStop previous next := by
    rw [avoids_append, front.fold, front.clear stop isStop, back.clear stop isStop]
    rfl

/-- A search passes over characters at which it may not stop. -/
theorem avoids_of_forall {stop : Option Char → Char → Option Char → Bool} (isStop : IsStop stop)
    {s : Text} (passed : ∀ c ∈ s, mayStop c = false) (previous next : Option Char) (n : Nesting) :
    avoids stop previous n s next = true := by
  induction s generalizing previous n with
  | nil => rfl
  | cons c rest ih =>
    have here : stop previous c (rest.head?.or next) = false := by
      cases stops : stop previous c (rest.head?.or next) with
      | false => rfl
      | true =>
        have mark := isStop.marks _ _ _ stops
        rw [passed c List.mem_cons_self] at mark
        cases mark
    rw [avoids, here, Bool.and_false, Bool.not_false, Bool.true_and]
    exact ih (fun d mem => passed d (List.mem_cons_of_mem _ mem)) (some c) (n.stepPlain c)

/-- Whether a scan takes no notice of a character. -/
def isQuiet (c : Char) : Bool := isNeutral c && !mayStop c

theorem isQuiet_of_isTame {c : Char} (tame : Token.isTame c = true) : isQuiet c = true := by
  have wild (d : Char) (loud : Token.isTame d = false) : (c == d) = false := by
    rw [beq_eq_false_iff_ne]
    rintro rfl
    rw [loud] at tame
    cases tame
  simp only [isQuiet, isNeutral, mayStop, Text.isQuote, Text.isOpening, Text.isClosing]
  rw [wild '"' (by decide +kernel), wild '\'' (by decide +kernel), wild '(' (by decide +kernel),
    wild '[' (by decide +kernel), wild '{' (by decide +kernel), wild ')' (by decide +kernel),
    wild ']' (by decide +kernel), wild '}' (by decide +kernel), wild '!' (by decide +kernel),
    wild ':' (by decide +kernel)]
  rfl

/-- A scan passes over characters of which it takes no notice. -/
theorem passes_quiet {n : Nesting} (plain : n.quoting.Plain) {s : Text}
    (quiet : ∀ c ∈ s, isQuiet c = true) : Passes n s := by
  simp only [isQuiet, Bool.and_eq_true, Bool.not_eq_true'] at quiet
  exact ⟨foldl_neutral plain fun c mem => (quiet c mem).1, fun stop isStop previous next =>
    avoids_of_forall isStop (fun c mem => (quiet c mem).2) previous next n⟩

theorem eq_or_of_isQuote {c : Char} (isQuote : Text.isQuote c = true) : c = '"' ∨ c = '\'' := by
  simpa [Text.isQuote] using isQuote

/-- A scan passes over quiet characters in parentheses. -/
theorem passes_parens {n : Nesting} (plain : n.quoting.Plain) {s : Text}
    (quiet : ∀ c ∈ s, isQuiet c = true) : Passes n ('(' :: s ++ [')']) where
  fold := by
    have inside := (passes_quiet (n := n.stepPlain '(') (plain.stepPlain '(') quiet).fold
    rw [List.cons_append, List.foldl_cons, List.foldl_append, inside]
    obtain ⟨depth, quoting⟩ := n
    cases quoting with
    | outside => rfl
    | inside quote => rcases eq_or_of_isQuote plain with rfl | rfl <;> rfl
    | escaped quote => exact plain.elim
  clear stop isStop previous next := by
    refine avoids_of_forall isStop ?_ previous next n
    simp only [isQuiet, Bool.and_eq_true, Bool.not_eq_true'] at quiet
    intro c mem
    rcases List.mem_append.mp mem with front | closing
    · rcases List.mem_cons.mp front with rfl | inside
      · rfl
      · exact (quiet c inside).2
    · obtain rfl := List.mem_singleton.mp closing
      rfl

/-- A delimiter, of one quote or of three, takes a scan into a string and out of it. -/
theorem foldl_delimiter {delimiter : Delimiter} (isQuote : Text.isQuote delimiter.quote = true)
    (depth : Nat) :
    delimiter.text.foldl stepPlain ⟨depth, .outside⟩ = ⟨depth, .inside delimiter.quote⟩ ∧
      delimiter.text.foldl stepPlain ⟨depth, .inside delimiter.quote⟩ = ⟨depth, .outside⟩ := by
  obtain ⟨quote, triple⟩ := delimiter
  rcases eq_or_of_isQuote isQuote with same | same <;> obtain rfl : quote = _ := same
  all_goals cases triple <;> exact ⟨rfl, rfl⟩

/-- Inside a string, a scan passes over everything but the quote that ends it. -/
theorem passes_inside {quote : Char} {s : Text} (free : quote ∉ s) (depth : Nat) :
    Passes ⟨depth, .inside quote⟩ s := by
  induction s with
  | nil => exact ⟨rfl, fun _ _ _ _ => rfl⟩
  | cons c rest ih =>
    have differ : c ≠ quote := fun same => free (same ▸ List.mem_cons_self)
    have stays : (⟨depth, .inside quote⟩ : Nesting).stepPlain c = ⟨depth, .inside quote⟩ := by
      simp [stepPlain, Quoting.stepPlain, differ]
    have later := ih fun mem => free (List.mem_cons_of_mem _ mem)
    constructor
    · rw [List.foldl_cons, stays, later.fold]
    · intro stop isStop previous next
      rw [avoids, stays, later.clear stop isStop]
      simp [isTop]

/-- A string passes if it does not hold its own quote: a scan is inside of it from its first quote
to its last. -/
theorem passes_literal {n : Nesting} (outside : n.quoting = .outside) {mark body : Text}
    {delimiter : Delimiter} (isQuote : Text.isQuote delimiter.quote = true)
    (tame : ∀ c ∈ mark, Token.isTame c = true) (free : delimiter.quote ∉ body) :
    Passes n (mark ++ delimiter.text ++ body ++ delimiter.text) := by
  obtain ⟨depth, quoting⟩ := n
  obtain rfl : quoting = .outside := outside
  have front := passes_quiet (n := ⟨depth, .outside⟩) trivial fun c mem =>
    isQuiet_of_isTame (tame c mem)
  obtain ⟨enter, leave⟩ := foldl_delimiter isQuote depth
  have within := passes_inside free depth
  have quotes : ∀ c ∈ delimiter.text, mayStop c = false := by
    intro c mem
    obtain rfl := List.eq_of_mem_replicate mem
    rcases eq_or_of_isQuote isQuote with same | same <;> rw [same] <;> rfl
  constructor
  · simp only [List.foldl_append, front.fold, enter, within.fold, leave]
  · intro stop isStop previous next
    simp only [avoids_append, List.foldl_append, front.fold, enter, within.fold,
      front.clear stop isStop, within.clear stop isStop, avoids_of_forall isStop quotes,
      Bool.and_true]

/-- A text and what takes its place, for a scan that meets them in the same state. -/
structure Exchange (n : Nesting) (s t : Text) : Prop where
  fold : t.foldl stepPlain n = s.foldl stepPlain n
  clear : ∀ stop, IsStop stop → ∀ previous previous' next next',
    (previous = some '=' ↔ previous' = some '=') → (next = some '=' ↔ next' = some '=') →
    avoids stop previous n s next = true → avoids stop previous' n t next' = true

theorem exchange_refl (n : Nesting) (s : Text) : Exchange n s s where
  fold := rfl
  clear stop isStop previous previous' next next' before after clear := by
    rwa [← avoids_congr isStop.sees before after]

/-- Two texts that a scan passes over can take each other's place. -/
theorem Passes.exchange {n : Nesting} {s t : Text} (front : Passes n s) (back : Passes n t) :
    Exchange n s t where
  fold := by rw [front.fold, back.fold]
  clear stop isStop _ previous' _ next' _ _ _ := back.clear stop isStop previous' next'

end Template

namespace Expression

open Nesting Template

variable {inner : Text → Except Fault Expression}

/-- Range sugar and the call that it stands for are passed alike. -/
theorem exchange_ofRange [Letters] {n : Nesting} (plain : n.quoting.Plain) {sugar : Text}
    {e : Expression} (tame : ∀ c ∈ sugar, Token.isTame c = true) (ok : ofRange sugar = .ok e) :
    Exchange n sugar e.text := by
  have before := passes_quiet plain fun c mem => isQuiet_of_isTame (tame c mem)
  rw [ofRange] at ok
  split at ok
  next => cases ok
  next bounds found =>
    obtain rfl := Except.ok.inj ok
    refine before.exchange ?_
    have word : Passes n "range".toList := by
      refine passes_quiet plain (List.all_eq_true.mp ?_)
      decide
    refine word.append (passes_parens plain ?_)
    intro c mem
    rcases Text.mem_intercalate mem with comma | ⟨bound, inBounds, inBound⟩
    · exact List.all_eq_true.mp (by decide : [',', ' '].all isQuiet = true) c comma
    · exact isQuiet_of_isTame (tame c (RangeSugar.bounds_subset found bound inBounds inBound))

/-- A rewritten body holds the quote of its string only if the body did. -/
theorem quote_not_mem_render {quote : Char} (isQuote : Text.isQuote quote = true) {body : Text}
    {segments filled : List Segment} (cut : split body = .ok segments) (free : quote ∉ body)
    (pairs : List.Forall₂ (Segment.Filled inner) segments filled)
    (placeholders : ∀ expr spec, Segment.placeholder expr spec ∈ filled → quote ∉ expr) :
    quote ∉ render filled := by
  have inBody : ∀ segment ∈ segments, ∀ part ∈ segment.texts, quote ∉ part :=
    fun segment mem part inSegment inPart =>
      free (split_subset cut segment mem part inSegment inPart)
  clear cut
  induction pairs with
  | nil => exact List.not_mem_nil
  | cons pair pairs ih =>
    have later := ih (fun expr spec mem => placeholders expr spec (List.mem_cons_of_mem _ mem))
      fun segment mem => inBody segment (List.mem_cons_of_mem _ mem)
    have own := inBody _ List.mem_cons_self
    cases pair with
    | literal text =>
      rw [render, List.mem_append]
      exact not_or.mpr ⟨own text List.mem_cons_self, later⟩
    | placeholder read spec =>
      have inExpr := placeholders _ _ List.mem_cons_self
      have inSpec := own spec (by simp [Segment.texts])
      have braces : quote ≠ '{' ∧ quote ≠ '}' := by
        constructor <;> (rintro rfl; cases isQuote)
      simp [render, inExpr, inSpec, later, braces]

/-- A token and its translation are passed alike, if the token is no string with placeholders or if
it is met outside strings and does not hold its own quote. -/
theorem exchange_ofToken [Letters] {n : Nesting} (plain : n.quoting.Plain) {token : Token}
    {e : Expression} (formed : token.Formed) (ok : ofToken inner token = .ok e)
    (steady : token.isTemplate = false ∨ n.quoting = .outside ∧ token.keepsQuote = true) :
    Exchange n token.text e.text := by
  cases token with
  | word name member =>
    obtain rfl := Except.ok.inj ok
    rw [text_ofWord]
    have before := passes_quiet plain fun c mem => isQuiet_of_isTame (formed.2 c mem)
    have tame := (respell_tame formed.1 formed.2).2
    exact before.exchange (passes_quiet plain fun c mem => isQuiet_of_isTame (tame c mem))
  | range sugar => exact exchange_ofRange plain formed.2 ok
  | literal mark delimiter body =>
    rcases ofLiteral_cases ok with
      ⟨_, same⟩ | ⟨template, segments, filled, cut, _, pairs, placeholders, same⟩
    · rw [same]
      exact exchange_refl n _
    · rw [template] at steady
      obtain ⟨outside, keeps⟩ := steady.resolve_left (by decide)
      have free : delimiter.quote ∉ body := by simpa [Token.keepsQuote] using keeps
      have free' := quote_not_mem_render formed.1 cut free pairs placeholders
      rw [same]
      exact (passes_literal outside formed.1 formed.2 free).exchange
        (passes_literal outside formed.1 (interpolatedMark_tame formed.2) free')
  | unterminated rest => cases ok
  | _ =>
    obtain rfl := Except.ok.inj ok
    exact exchange_refl n _

/-- A token that does not hold its own quote leaves a scan outside strings. -/
theorem outside_of_keepsQuote [Letters] {n : Nesting} (outside : n.quoting = .outside)
    {token : Token} {e : Expression} (formed : token.Formed) (ok : ofToken inner token = .ok e)
    (keeps : token.keepsQuote = true) : (token.text.foldl stepPlain n).quoting = .outside := by
  have plain : n.quoting.Plain := by
    rw [outside]
    trivial
  have tameText {s : Text} (tame : ∀ c ∈ s, Token.isTame c = true) :
      (s.foldl stepPlain n).quoting = .outside := by
    rw [(passes_quiet plain fun c mem => isQuiet_of_isTame (tame c mem)).fold]
    exact outside
  cases token with
  | literal mark delimiter body =>
    have free : delimiter.quote ∉ body := by simpa [Token.keepsQuote] using keeps
    rw [Token.text, (passes_literal outside formed.1 formed.2 free).fold]
    exact outside
  | unterminated rest => cases ok
  | symbol c =>
    have noQuote : Text.isQuote c = false := formed
    simp [Token.text, stepPlain, outside, Quoting.stepPlain, noQuote]
  | _ => exact tameText formed.2

/-- Where two texts have the same ends, what stands before or behind them is seen alike. -/
theorem SameEnds.or_iff {s t : Text} (ends : SameEnds (· == '=') s t) (both : s = [] ↔ t = [])
    {before after : Option Char} (same : before = some '=' ↔ after = some '=') :
    (s.head?.or before = some '=' ↔ t.head?.or after = some '=') ∧
      (s.getLast?.or before = some '=' ↔ t.getLast?.or after = some '=') := by
  cases s with
  | nil =>
    rw [both.mp rfl]
    exact ⟨same, same⟩
  | cons c s =>
    obtain ⟨d, t, rfl⟩ := List.exists_cons_of_ne_nil (mt both.mpr (List.cons_ne_nil _ _))
    have exactly := ends.eq_some_iff
    rw [List.getLast?_cons, List.getLast?_cons] at exactly ⊢
    exact exactly

theorem outer_equals : Outer (· == '=') := outer_beq (by decide +kernel) (by decide) (by decide)

/-- Tokens and their translation are passed alike. -/
theorem exchange_ofTokens [Letters] {n : Nesting} (plain : n.quoting.Plain) {opened : List Char}
    {tokens : List Token} {e : Expression}
    (formed : ∀ token ∈ tokens, token.Formed ∧ token.text ≠ [])
    (ok : ofTokens inner opened tokens = .ok e)
    (steady : (∀ token ∈ tokens, token.isTemplate = false) ∨
      n.quoting = .outside ∧ ∀ token ∈ tokens, token.keepsQuote = true) :
    Exchange n (tokens.flatMap Token.text) e.text := by
  induction tokens generalizing n opened e with
  | nil =>
    cases opened with
    | nil =>
      obtain rfl := Except.ok.inj ok
      exact exchange_refl n []
    | cons innermost outer => cases ok
  | cons token rest ih =>
    rw [ofTokens] at ok
    obtain ⟨opened', _, ok⟩ := bind_eq_ok.mp ok
    obtain ⟨first, made, ok⟩ := bind_eq_ok.mp ok
    obtain ⟨more, later, ok⟩ := bind_eq_ok.mp ok
    obtain rfl := Except.ok.inj ok
    have own := formed token List.mem_cons_self
    have formedRest := fun other mem => formed other (List.mem_cons_of_mem token mem)
    have here := steady.imp (fun none => none token List.mem_cons_self)
      (And.imp_right fun keeps => keeps token List.mem_cons_self)
    have front := exchange_ofToken plain own.1 made here
    -- A scan that is outside strings before a token that keeps its quote is outside them behind it.
    have back : Exchange (token.text.foldl stepPlain n) (rest.flatMap Token.text) more.text := by
      refine ih (plain_foldl plain _) formedRest later ?_
      refine steady.imp (fun none other mem => none other (List.mem_cons_of_mem _ mem)) ?_
      rintro ⟨outside, keeps⟩
      exact ⟨outside_of_keepsQuote outside own.1 made (keeps token List.mem_cons_self),
        fun other mem => keeps other (List.mem_cons_of_mem _ mem)⟩
    obtain ⟨filled, frontEnds⟩ := sameEnds_ofToken outer_equals own.1 own.2 made
    obtain ⟨both, backEnds⟩ := sameEnds_ofTokens outer_equals formedRest later
    have bothFront : first.text = [] ↔ token.text = [] := iff_of_false filled own.2
    rw [List.flatMap_cons]
    constructor
    · show (first.text ++ more.text).foldl stepPlain n = _
      rw [List.foldl_append, List.foldl_append, front.fold, back.fold]
    · intro stop isStop previous previous' next next' before after clear
      -- Only an equals sign next to a mark matters, and translation neither adds nor removes one.
      have heads := (backEnds.or_iff both after.symm).1.symm
      have lasts := (frontEnds.or_iff bothFront before.symm).2.symm
      rw [avoids_append, Bool.and_eq_true] at clear
      show avoids stop previous' n (first.text ++ more.text) next' = true
      rw [avoids_append, Bool.and_eq_true, front.fold]
      exact ⟨front.clear stop isStop _ _ _ _ before heads clear.1,
        back.clear stop isStop _ _ _ _ lasts after clear.2⟩

/-- Whether the strings in an expression cannot mislead a scan that knows no escapes: none of them
is rewritten, or none holds the quote that ends it. -/
def isSteady (expr : Text) : Bool :=
  (Token.readAll expr).all (fun token => !token.isTemplate) ||
    (Token.readAll expr).all Token.keepsQuote

/-- If an expression is read to its end between the braces of a placeholder, so is its translation,
given that its strings cannot mislead the scan. -/
theorem whole_ofText [Letters] {raw : Text} {e : Expression} (trimmed : Text.Trimmed raw)
    (steady : isSteady raw = true) (ok : ofText raw = .ok e) (whole : IsWhole raw) :
    IsWhole e.text := by
  rw [ofText_eq, Text.trim_eq_self trimmed] at ok
  rw [isSteady, Bool.or_eq_true, List.all_eq_true, List.all_eq_true] at steady
  have exchange : Exchange .start raw e.text := by
    have made := exchange_ofTokens (n := .start) trivial (Token.formed_readAllFrom false raw) ok
      (steady.imp (fun none token mem => by simpa using none token mem) fun keeps => ⟨rfl, keeps⟩)
    rwa [Token.text_readAllFrom] at made
  rw [isWhole_iff] at whole ⊢
  obtain ⟨noEnd, noSpec, top⟩ := whole
  refine ⟨?_, ?_, ?_⟩
  · exact exchange.clear endsHole isStop_endsHole _ _ _ _ Iff.rfl Iff.rfl noEnd
  · exact exchange.clear startsSpec isStop_startsSpec _ _ _ _ Iff.rfl Iff.rfl noSpec
  · rw [exchange.fold]
    exact top

/-! ## Rewritten templates -/

/-- Rewritten segments are in normal form. -/
theorem normal_filled [Letters] {segments filled : List Segment}
    (normal : Normal (fun expr spec => Fit expr spec ∧ IsWhole expr) segments)
    (pairs : List.Forall₂ (Segment.Filled ofText) segments filled) : Normal Fit filled := by
  induction normal generalizing filled with
  | nil =>
    cases pairs
    exact .nil
  | literal spelled some alone _ ih =>
    cases pairs with
    | cons pair pairs =>
      cases pair with
      | literal text =>
        refine .literal spelled some ?_ (ih pairs)
        rintro more later rfl
        cases pairs with
        | cons pair _ =>
          cases pair
          exact alone more _ rfl
  | placeholder formed _ ih =>
    cases pairs with
    | cons pair pairs =>
      cases pair with
      | placeholder read spec =>
        have fit := formed.1
        refine .placeholder ⟨trimmed_ofText fit.trimmed read, ?_, fit.format⟩ (ih pairs)
        exact fun empty => fit.filled ((sameEnds_ofText outer_isBlank fit.trimmed read).1.mp empty)

/-- Whether a placeholder of a rewritten string is read back as the translation of its expression
and as its format. -/
structure ReadsBack [Letters] (expr spec : Text) : Prop where
  /-- The brace that opens the placeholder is not joined by another. -/
  single : expr.head? ≠ some '{'
  /-- The colon of the format does not follow an equals sign. -/
  apart : ¬ (expr.getLast? = some '=' ∧ spec.head? = some ':')
  /-- The translation is read to its end. -/
  whole : ∀ e, ofText expr = .ok e → IsWhole e.text

/-- A translated expression and its format are read back exactly when the conditions of `ReadsBack`
hold for the expression as written. -/
theorem returns_iff [Letters] {expr spec : Text} {e : Expression} (fit : Fit expr spec)
    (read : ofText expr = .ok e) : Returns e.text spec ↔ ReadsBack expr spec := by
  have brace := outer_beq (d := '{') (by decide +kernel) (by decide) (by decide)
  have first := (sameEnds_ofText brace fit.trimmed read).2.eq_some_iff.1
  have last := (sameEnds_ofText outer_equals fit.trimmed read).2.eq_some_iff.2
  constructor
  · rintro ⟨single, apart, whole⟩
    refine ⟨mt first.mpr single, mt (And.imp_left last.mpr) apart, ?_⟩
    intro other readOther
    rw [read] at readOther
    obtain rfl := Except.ok.inj readOther
    exact whole
  · rintro ⟨single, apart, whole⟩
    exact ⟨mt first.mp single, mt (And.imp_left last.mp) apart, whole e read⟩

/-- All placeholders of a filled template are read back exactly when those of the template it was
filled from can be. -/
theorem forall_returns_iff [Letters] {segments filled : List Segment}
    (fits : ∀ expr spec, Segment.placeholder expr spec ∈ segments → Fit expr spec)
    (pairs : List.Forall₂ (Segment.Filled ofText) segments filled) :
    (∀ expr spec, Segment.placeholder expr spec ∈ filled → Returns expr spec) ↔
      ∀ expr spec, Segment.placeholder expr spec ∈ segments → ReadsBack expr spec := by
  induction pairs with
  | nil => simp
  | cons pair pairs ih =>
    have later := ih fun expr spec mem => fits expr spec (List.mem_cons_of_mem _ mem)
    cases pair with
    | literal text => simpa using later
    | placeholder read spec =>
      have here := returns_iff (fits _ _ List.mem_cons_self) read
      simp only [List.mem_cons, Segment.placeholder.injEq, or_imp, and_imp, forall_and,
        forall_eq_apply_imp_iff, forall_eq, later, here]

/-- How the body of a string with placeholders is rewritten, and when it is read back. -/
structure Rewriting [Letters] (body rewritten : Text) (segments filled : List Segment) : Prop where
  /-- The segments are those of the body. -/
  cut : Template.split body = .ok segments
  /-- Literal text and formats stay, and each expression becomes its own translation. -/
  pairs : List.Forall₂ (Segment.Filled ofText) segments filled
  /-- The rewritten body is the rewritten segments, one after the other. -/
  written : rewritten = Template.render filled
  /-- The rewritten body is cut into the rewritten segments exactly when each placeholder is read
  back. -/
  back : Template.split rewritten = .ok filled ↔
    ∀ expr spec, Segment.placeholder expr spec ∈ segments → ReadsBack expr spec
  /-- Only a string that is rewritten, beside a string that holds its own quote, can keep a
  translation from being read to its end. -/
  steady : ∀ expr spec, Segment.placeholder expr spec ∈ segments → isSteady expr = true →
    ∀ e, ofText expr = .ok e → IsWhole e.text

/-- A template is rewritten placeholder by placeholder. -/
theorem rewriting_of_split [Letters] {body : Text} {segments filled : List Segment}
    (cut : Template.split body = .ok segments) (has : hasPlaceholders segments = true)
    (pairs : List.Forall₂ (Segment.Filled ofText) segments filled) :
    Rewriting body (render filled) segments filled := by
  have normal := normal_split cut has
  refine ⟨cut, pairs, rfl, ?_, ?_⟩
  · rw [split_render_iff (normal_filled normal pairs)]
    exact forall_returns_iff (fun expr spec mem => (normal.of_mem mem).1) pairs
  · intro expr spec mem steady e read
    obtain ⟨fit, whole⟩ := normal.of_mem mem
    exact whole_ofText fit.trimmed steady read whole

/-- The text of an expression is what its tokens make, one after the other. -/
theorem ofTokens_texts [Letters] {opened : List Char} {tokens : List Token} {e : Expression}
    (ok : ofTokens inner opened tokens = .ok e) :
    ∃ texts, e.text = texts.flatten ∧
      List.Forall₂ (fun token text => ∃ own, ofToken inner token = .ok own ∧ text = own.text)
        tokens texts := by
  induction tokens generalizing opened e with
  | nil =>
    cases opened with
    | nil =>
      obtain rfl := Except.ok.inj ok
      exact ⟨[], rfl, .nil⟩
    | cons innermost outer => cases ok
  | cons token rest ih =>
    rw [ofTokens] at ok
    obtain ⟨opened', _, ok⟩ := bind_eq_ok.mp ok
    obtain ⟨first, made, ok⟩ := bind_eq_ok.mp ok
    obtain ⟨more, later, ok⟩ := bind_eq_ok.mp ok
    obtain rfl := Except.ok.inj ok
    obtain ⟨texts, joined, pairs⟩ := ih later
    refine ⟨first.text :: texts, ?_, .cons ⟨first, made, rfl⟩ pairs⟩
    rw [List.flatten_cons, ← joined]
    rfl

/-- Strings in a translated value. A translation is the texts of its tokens. A string without
placeholders that are replaced is left as written; of any other string the body is rewritten segment
by segment, and is cut into the rewritten segments again exactly when each placeholder is read back
on its own. -/
theorem ofText_rewriting [Letters] {raw : Text} {e : Expression} (ok : ofText raw = .ok e) :
    ∃ texts, e.text = texts.flatten ∧
      List.Forall₂
        (fun token text => (∃ own, ofToken ofText token = .ok own ∧ text = own.text) ∧
          ∀ mark delimiter body, token = .literal mark delimiter body →
            (token.isTemplate = false → text = token.text) ∧
            (token.isTemplate = true → ∃ rewritten segments filled,
              text = interpolatedMark mark ++ delimiter.text ++ rewritten ++ delimiter.text ∧
              Rewriting body rewritten segments filled))
        (Token.readAll (Text.trim raw)) texts := by
  rw [ofText_eq] at ok
  obtain ⟨texts, joined, pairs⟩ := ofTokens_texts ok
  refine ⟨texts, joined, pairs.imp ?_⟩
  rintro token text ⟨own, made, rfl⟩
  refine ⟨⟨own, made, rfl⟩, ?_⟩
  rintro mark delimiter body rfl
  rcases ofLiteral_cases made with
    ⟨plain, same⟩ | ⟨template, segments, filled, cut, has, pairs, _, same⟩
  · refine ⟨fun _ => same, ?_⟩
    rw [plain]
    intro template
    cases template
  · refine ⟨?_, fun _ => ⟨render filled, segments, filled, same, rewriting_of_split cut has pairs⟩⟩
    rw [template]
    intro plain
    cases plain

/-- A string with doubled and lone braces, a nested string with a placeholder, and a format with a
placeholder of its own: `"a}{ x }{{b}} {f('{ y }'):>{w}}"`. -/
theorem ofText_rewriting_nested :
    let raw := "\"a\x7d\x7b x \x7d\x7b\x7bb\x7d\x7d \x7bf('\x7b y \x7d'):>\x7bw\x7d\x7d\"".toList
    let code := "f\"a\x7d\x7d\x7bx\x7d\x7b\x7bb\x7d\x7d \x7bf(f'\x7by\x7d'):>\x7bw\x7d\x7d\"".toList
    ∃ e, ofText raw = .ok e ∧ e.text = code ∧ ∃ texts, code = texts.flatten ∧
      List.Forall₂
        (fun token text => (∃ own, ofToken ofText token = .ok own ∧ text = own.text) ∧
          ∀ mark delimiter body, token = .literal mark delimiter body →
            (token.isTemplate = false → text = token.text) ∧
            (token.isTemplate = true → ∃ rewritten segments filled,
              text = interpolatedMark mark ++ delimiter.text ++ rewritten ++ delimiter.text ∧
              Rewriting body rewritten segments filled))
        (Token.readAll (Text.trim raw)) texts := by
  intro raw code
  have found : (ofText raw).toOption.map Expression.text = some code := by decide +kernel
  obtain ⟨e, read, text⟩ := Option.map_eq_some_iff.mp found
  have ok : ofText raw = .ok e := eq_ok_of_toOption read
  exact ⟨e, ok, text, text ▸ ofText_rewriting ok⟩

/-- A placeholder that is lost. The blank in `"{ {1: 2}[1]}"` keeps two braces apart. It is trimmed
away, and in `f"{{1: 2}[1]}"` the braces are literal text. -/
theorem split_rewritten_braces :
    let body := "\x7b \x7b1: 2\x7d[1]\x7d".toList
    let expr := "\x7b1: 2\x7d[1]".toList
    let rewritten := "\x7b\x7b1: 2\x7d[1]\x7d".toList
    (ofText ('"' :: body ++ ['"'])).toOption.map Expression.text =
        some ("f\"".toList ++ rewritten ++ ['"']) ∧
      (Template.split body).toOption = some [.placeholder expr []] ∧
      (ofText expr).toOption.map Expression.text = some expr ∧
      rewritten = render [.placeholder expr []] ∧
      (Template.split rewritten).toOption =
        some [.literal "\x7b\x7b1: 2\x7d\x7d[1]\x7d\x7d".toList] := by
  decide +kernel

-- A blank may also keep an equals sign from the colon of a format: `"{a= :x}"`.
example :
    (ofText "\"\x7ba= :x\x7d\"".toList).toOption.map Expression.text =
        some "f\"\x7ba=:x\x7d\"".toList ∧
      (Template.split "\x7ba= :x\x7d".toList).toOption =
        some [.placeholder "a=".toList ":x".toList] ∧
      (Template.split "\x7ba=:x\x7d".toList).toOption =
        some [.placeholder "a=:x".toList []] := by
  decide +kernel

-- An escaped quote ends a string for the scan of a placeholder, which then meets the braces that
-- rewriting adds: `"{'\'(}{x}' + '\''}"`.
example :
    (ofText "\"\x7b'\\'(\x7d\x7bx\x7d' + '\\''\x7d\"".toList).toOption.map Expression.text =
        some "f\"\x7bf'\\'(\x7d\x7d\x7bx\x7d' + '\\''\x7d\"".toList ∧
      (Template.split "\x7bf'\\'(\x7d\x7d\x7bx\x7d' + '\\''\x7d".toList).toOption ≠
        some [.placeholder "f'\\'(\x7d\x7d\x7bx\x7d' + '\\''".toList []] := by
  decide +kernel

end Expression
end Outline
