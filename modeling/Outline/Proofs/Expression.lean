import Outline.Expression.Unfold
import Outline.Proofs.Header
import Outline.Proofs.Outcome

/-!
# The characters of an expression

An expression holds the characters of its value, besides those of the words and signs that
respelling writes. So a property of characters that these have passes from a value to its
expression (`Expression.ofText_chars`). And since every bracket of an expression is closed, it does
not end with an opening brace (`Expression.getLast?_ofText`).
-/

set_option autoImplicit false

namespace Outline

/-! ## Templates -/

/-- The texts that a segment holds. -/
def Segment.texts : Segment → List Text
  | .literal text => [text]
  | .placeholder expr spec => [expr, spec]

namespace Template

/-- The expression and the format of a placeholder are all of it. -/
theorem splitSpecFrom_append (previous : Option Char) (n : Nesting) (s : Text) :
    (splitSpecFrom previous n s).1 ++ (splitSpecFrom previous n s).2 = s := by
  induction s generalizing previous n with
  | nil => rfl
  | cons c rest ih =>
    rw [splitSpecFrom]
    split
    · rfl
    · exact congrArg (c :: ·) (ih _ _)

theorem subset_of_mem_prepend {body text : Text} {segments : List Segment}
    (front : text ⊆ body) (rest : ∀ segment ∈ segments, ∀ part ∈ segment.texts, part ⊆ body) :
    ∀ segment ∈ prepend text segments, ∀ part ∈ segment.texts, part ⊆ body := by
  intro segment mem part inSegment
  unfold prepend at mem
  split at mem
  next => exact rest segment mem part inSegment
  next text more segments _ =>
    rcases List.mem_cons.mp mem with rfl | later
    · obtain rfl := List.mem_singleton.mp inSegment
      have joined := rest (.literal more) List.mem_cons_self more List.mem_cons_self
      exact List.append_subset.mpr ⟨front, joined⟩
    · exact rest segment (List.mem_cons_of_mem _ later) part inSegment
  next text segments _ _ =>
    rcases List.mem_cons.mp mem with rfl | later
    · obtain rfl := List.mem_singleton.mp inSegment
      exact front
    · exact rest segment later part inSegment

/-- The segments of a template hold characters of its body. -/
theorem segments_subset {body : Text} {pieces : List Piece} (cut : pieces? body = some pieces) :
    ∀ segment ∈ segments pieces, ∀ part ∈ segment.texts, part ⊆ body := by
  fun_induction pieces? body generalizing pieces with
  | case1 =>
    cases cut
    intro segment mem
    cases mem
  | case2 rest ih | case3 rest ih =>
    obtain ⟨more, hmore, rfl⟩ := Option.map_eq_some_iff.mp cut
    refine subset_of_mem_prepend (by simp) ?_
    intro segment mem part inSegment c inPart
    have inRest := ih hmore segment mem part inSegment inPart
    exact List.mem_cons_of_mem _ (List.mem_cons_of_mem _ inRest)
  | case4 rest _ inner after found ih =>
    obtain ⟨more, hmore, rfl⟩ := Option.map_eq_some_iff.mp cut
    have whole := eq_append_of_cutAtHoleEnd found
    have inBody : inner ⊆ '{' :: rest := by
      rw [whole]
      intro c mem
      exact List.mem_cons_of_mem _ (List.mem_append_left _ mem)
    have later : ∀ segment ∈ segments more, ∀ part ∈ segment.texts, part ⊆ '{' :: rest := by
      intro segment mem part inSegment c inPart
      rw [whole]
      have inAfter := ih hmore segment mem part inSegment inPart
      exact List.mem_cons_of_mem _ (List.mem_append_right _ (List.mem_cons_of_mem _ inAfter))
    rw [segments]
    split
    next =>
      refine subset_of_mem_prepend ?_ later
      intro c mem
      rcases List.mem_append.mp mem with front | closing
      · rcases List.mem_cons.mp front with rfl | inInner
        · exact List.mem_cons_self
        · exact inBody inInner
      · obtain rfl := List.mem_singleton.mp closing
        rw [whole]
        exact List.mem_cons_of_mem _ (List.mem_append_right _ List.mem_cons_self)
    next =>
      have parts : (splitSpec inner).1 ++ (splitSpec inner).2 = inner :=
        splitSpecFrom_append none .start inner
      intro segment mem part inSegment
      rcases List.mem_cons.mp mem with rfl | inMore
      · rcases List.mem_cons.mp inSegment with rfl | isSpec
        · intro c inExpr
          refine inBody ?_
          rw [← parts]
          exact List.mem_append_left _ (Text.mem_of_mem_trim inExpr)
        · obtain rfl := List.mem_singleton.mp isSpec
          intro c inSpec
          refine inBody ?_
          rw [← parts]
          exact List.mem_append_right _ inSpec
      · exact later segment inMore part inSegment
  | case5 => cases cut
  | case6 rest _ ih =>
    obtain ⟨more, hmore, rfl⟩ := Option.map_eq_some_iff.mp cut
    refine subset_of_mem_prepend (by simp) ?_
    intro segment mem part inSegment c inPart
    exact List.mem_cons_of_mem _ (ih hmore segment mem part inSegment inPart)
  | case7 c rest _ _ _ _ ih =>
    obtain ⟨more, hmore, rfl⟩ := Option.map_eq_some_iff.mp cut
    refine subset_of_mem_prepend (by simp) ?_
    intro segment mem part inSegment d inPart
    exact List.mem_cons_of_mem _ (ih hmore segment mem part inSegment inPart)

/-- The segments of a template hold characters of the template only. -/
theorem split_subset {body : Text} {cut : List Segment} (ok : split body = .ok cut) :
    ∀ segment ∈ cut, ∀ part ∈ segment.texts, part ⊆ body := by
  obtain ⟨pieces, found, _, rfl⟩ := split_eq_ok_iff.mp ok
  exact segments_subset found

end Template

/-! ## Range sugar -/

namespace RangeSugar

open Grammar

theorem readInteger?_subset {s digits rest : Text} (read : readInteger? s = some (digits, rest)) :
    digits ⊆ s ∧ rest ⊆ s := by
  have parts (lead tail : Text) :
      lead ++ tail.takeWhile Char.isDigit ⊆ lead ++ tail ∧
        tail.dropWhile Char.isDigit ⊆ lead ++ tail := by
    constructor
    · exact List.append_subset.mpr ⟨List.subset_append_left _ _, fun _ mem =>
        List.mem_append_right _ (List.takeWhile_subset _ mem)⟩
    · exact fun _ mem => List.mem_append_right _ (List.dropWhile_subset _ mem)
  unfold readInteger? at read
  split at read
  next c tail =>
    split at read
    · obtain ⟨rfl, rfl⟩ := Prod.mk.inj (Option.some.inj read)
      exact parts ['-', c] tail
    · cases read
  next c tail _ =>
    split at read
    · obtain ⟨rfl, rfl⟩ := Prod.mk.inj (Option.some.inj read)
      exact parts [c] tail
    · cases read
  next => cases read

theorem readComponent?_subset [Letters] {s component rest : Text}
    (read : readComponent? s = some (component, rest)) : component ⊆ s ∧ rest ⊆ s := by
  unfold readComponent? at read
  split at read
  next tail =>
    have inTail : component ⊆ tail ∧ rest ⊆ tail := by
      cases integer : readInteger? tail with
      | some pair =>
        rw [integer] at read
        cases read
        exact readInteger?_subset integer
      | none =>
        rw [integer] at read
        exact readName?_subset read
    exact ⟨fun _ mem => List.mem_cons_of_mem _ (inTail.1 mem),
      fun _ mem => List.mem_cons_of_mem _ (inTail.2 mem)⟩
  next => cases read

/-- The components of range sugar hold characters of the sugar only. -/
theorem readComponents_subset [Letters] (s : Text) :
    ∀ component ∈ (readComponents s).1, component ⊆ s := by
  fun_induction readComponents s with
  | case1 s component rest read components after more ih =>
    rw [more] at ih
    have parts := readComponent?_subset read
    intro other mem
    rcases List.mem_cons.mp mem with rfl | later
    · exact parts.1
    · exact fun _ inOther => parts.2 (ih other later inOther)
  | case2 =>
    intro component mem
    cases mem

/-- The bounds of range sugar are pieces of it. -/
theorem bounds_subset [Letters] {sugar : Text} {found : List Text} (ok : bounds sugar = .ok found) :
    ∀ bound ∈ found, bound ⊆ sugar := by
  rw [bounds] at ok
  split at ok
  next => cases ok
  next components read =>
    split at ok
    · obtain rfl := Except.ok.inj ok
      obtain ⟨rest, front, more⟩ := Option.bind_eq_some_iff.mp read
      change (if _ then none else some (readComponents rest).1) = some components at more
      split at more
      · cases more
      · obtain rfl := Option.some.inj more
        intro bound mem c inBound
        have inRest := readComponents_subset rest bound mem inBound
        apply skipGap_subset sugar
        rw [Text.after?_eq_some_iff.mp front]
        exact List.mem_append_right _ inRest
    · cases ok

end RangeSugar

/-! ## Expressions -/

namespace Expression

/-- The characters of the words and signs that respelling writes. -/
def respelling : Text := "True False None range(, ) f{}".toList

/-- A respelled word has characters of the word and of the respelling only. -/
theorem mem_respell {word : Text} {c : Char} (mem : c ∈ respell word) :
    c ∈ word ∨ c ∈ respelling := by
  have words : "True".toList ++ "False".toList ++ "None".toList ⊆ respelling :=
    Text.subset_of_all (by decide)
  rw [respell] at mem
  split at mem
  · exact .inr (words (by simp only [List.mem_append, mem, true_or]))
  split at mem
  · exact .inr (words (by simp only [List.mem_append, mem, true_or, or_true]))
  split at mem
  · exact .inr (words (by simp only [List.mem_append, mem, or_true]))
  · exact .inl mem

theorem text_ofWord (name : Text) (member : Bool) : (ofWord name member).text = respell name := by
  rw [ofWord]
  split <;> rfl

section

variable {p : Char → Prop} {inner : Text → Except Fault Expression}

theorem ofRange_chars [Letters] (own : ∀ c ∈ respelling, p c) {sugar : Text} {e : Expression}
    (chars : ∀ c ∈ sugar, p c) (ok : ofRange sugar = .ok e) : ∀ c ∈ e.text, p c := by
  rw [ofRange] at ok
  split at ok
  next => cases ok
  next bounds found =>
    obtain rfl := Except.ok.inj ok
    have signs : "range(".toList ++ [',', ' '] ++ [')'] ⊆ respelling :=
      Text.subset_of_all (by decide)
    intro c mem
    rcases List.mem_append.mp mem with front | closing
    · rcases List.mem_append.mp front with word | between
      · exact own c (signs (by simp only [List.mem_append, word, true_or]))
      · rcases Text.mem_intercalate between with comma | ⟨bound, inBounds, inBound⟩
        · exact own c (signs (by simp only [List.mem_append, comma, true_or, or_true]))
        · exact chars c (RangeSugar.bounds_subset found bound inBounds inBound)
    · exact own c (signs (by simp only [List.mem_append, closing, or_true]))

/-- The segments of a string pass their characters on, if the placeholders do. -/
theorem fill_chars (own : ∀ c ∈ respelling, p c) {quote : Char} {segments : List Segment}
    {e : Expression} (chars : ∀ segment ∈ segments, ∀ part ∈ segment.texts, ∀ c ∈ part, p c)
    (placeholders : ∀ expr spec, Segment.placeholder expr spec ∈ segments → ∀ e,
      inner expr = .ok e → ∀ c ∈ e.text, p c)
    (ok : fill inner quote segments = .ok e) : ∀ c ∈ e.text, p c := by
  induction segments generalizing e with
  | nil =>
    obtain rfl := Except.ok.inj ok
    intro c mem
    cases mem
  | cons segment rest ih =>
    have later {more : Expression} (ok : fill inner quote rest = .ok more) : ∀ c ∈ more.text, p c :=
      ih (fun other mem => chars other (List.mem_cons_of_mem _ mem))
        (fun expr spec mem => placeholders expr spec (List.mem_cons_of_mem _ mem)) ok
    have here := chars segment List.mem_cons_self
    intro c mem
    cases segment with
    | literal text =>
      obtain ⟨more, filled, ok⟩ := bind_eq_ok.mp ok
      obtain rfl := Except.ok.inj ok
      rcases List.mem_append.mp mem with front | after
      · exact here text List.mem_cons_self c front
      · exact later filled c after
    | placeholder expr spec =>
      obtain ⟨first, read, ok⟩ := bind_eq_ok.mp ok
      split at ok
      · cases ok
      · obtain ⟨more, filled, ok⟩ := bind_eq_ok.mp ok
        obtain rfl := Except.ok.inj ok
        have inFirst := placeholders expr spec List.mem_cons_self first read
        have inSpec := here spec (by simp [Segment.texts])
        simp only [append, List.cons_append, List.append_assoc, List.mem_cons, List.mem_append,
          List.not_mem_nil, false_or] at mem
        rcases mem with rfl | front | middle | rfl | after
        · exact own '{' (by decide)
        · exact inFirst c front
        · exact inSpec c middle
        · exact own '}' (by decide)
        · exact later filled c after

/-- A property of the characters of a string literal is one of its expression, if respelling and
placeholders keep it. -/
theorem ofLiteral_chars (own : ∀ c ∈ respelling, p c) {mark body : Text} {delimiter : Delimiter}
    {e : Expression} (chars : ∀ c ∈ mark ++ delimiter.text ++ body ++ delimiter.text, p c)
    (placeholders : ∀ expr, expr.length < body.length → (∀ c ∈ expr, p c) → ∀ e,
      inner expr = .ok e → ∀ c ∈ e.text, p c)
    (ok : ofLiteral inner mark delimiter body = .ok e) : ∀ c ∈ e.text, p c := by
  simp only [List.mem_append, or_imp, forall_and] at chars
  obtain ⟨⟨⟨inMark, inDelimiter⟩, inBody⟩, _⟩ := chars
  have asWritten : ∀ c ∈ mark ++ delimiter.text ++ body ++ delimiter.text, p c := by
    simp only [List.mem_append, or_imp, forall_and]
    exact ⟨⟨⟨inMark, inDelimiter⟩, inBody⟩, inDelimiter⟩
  rw [ofLiteral] at ok
  split at ok
  · split at ok
    next => cases ok
    next segments cut =>
      split at ok
      · obtain ⟨filled, made, ok⟩ := bind_eq_ok.mp ok
        obtain rfl := Except.ok.inj ok
        have inSegments : ∀ segment ∈ segments, ∀ part ∈ segment.texts, ∀ c ∈ part, p c :=
          fun segment mem part inSegment c inPart =>
            inBody c (Template.split_subset cut segment mem part inSegment inPart)
        have inFilled : ∀ c ∈ filled.text, p c := by
          refine fill_chars own inSegments ?_ made
          intro expr spec mem
          exact placeholders expr (Template.length_lt_of_mem_split cut mem)
            (inSegments _ mem expr List.mem_cons_self)
        have inMark' : ∀ c ∈ interpolatedMark mark, p c := by
          intro c mem
          rw [interpolatedMark] at mem
          split at mem
          · exact inMark c mem
          · rcases List.mem_cons.mp mem with rfl | old
            · exact own 'f' (by decide)
            · exact inMark c old
        simp only [List.mem_append, or_imp, forall_and]
        exact ⟨⟨⟨inMark', inDelimiter⟩, inFilled⟩, inDelimiter⟩
      · obtain rfl := Except.ok.inj ok
        exact asWritten
  · obtain rfl := Except.ok.inj ok
    exact asWritten

/-- So it is for a token. -/
theorem ofToken_chars [Letters] (own : ∀ c ∈ respelling, p c) {token : Token} {e : Expression}
    (chars : ∀ c ∈ token.text, p c)
    (placeholders : ∀ expr, expr.length < token.text.length → (∀ c ∈ expr, p c) → ∀ e,
      inner expr = .ok e → ∀ c ∈ e.text, p c)
    (ok : ofToken inner token = .ok e) : ∀ c ∈ e.text, p c := by
  cases token with
  | word name member =>
    obtain rfl := Except.ok.inj ok
    intro c mem
    rw [text_ofWord] at mem
    rcases mem_respell mem with inName | written
    · exact chars c inName
    · exact own c written
  | range sugar => exact ofRange_chars own chars ok
  | literal mark delimiter body =>
    refine ofLiteral_chars own chars ?_ ok
    intro expr short
    refine placeholders expr ?_
    simp only [Token.text, List.length_append]
    omega
  | unterminated rest => cases ok
  | _ =>
    obtain rfl := Except.ok.inj ok
    exact chars

/-- So it is for tokens. -/
theorem ofTokens_chars [Letters] (own : ∀ c ∈ respelling, p c) {opened : List Char}
    {tokens : List Token} {e : Expression} (chars : ∀ token ∈ tokens, ∀ c ∈ token.text, p c)
    (placeholders : ∀ token ∈ tokens, ∀ expr, expr.length < token.text.length →
      (∀ c ∈ expr, p c) → ∀ e, inner expr = .ok e → ∀ c ∈ e.text, p c)
    (ok : ofTokens inner opened tokens = .ok e) : ∀ c ∈ e.text, p c := by
  induction tokens generalizing opened e with
  | nil =>
    cases opened with
    | nil =>
      obtain rfl := Except.ok.inj ok
      intro c mem
      cases mem
    | cons innermost outer => cases ok
  | cons token rest ih =>
    rw [ofTokens] at ok
    obtain ⟨opened', _, ok⟩ := bind_eq_ok.mp ok
    obtain ⟨first, made, ok⟩ := bind_eq_ok.mp ok
    obtain ⟨more, later, ok⟩ := bind_eq_ok.mp ok
    obtain rfl := Except.ok.inj ok
    have here := ofToken_chars own (chars token List.mem_cons_self)
      (placeholders token List.mem_cons_self) made
    have after := ih (fun other mem => chars other (List.mem_cons_of_mem _ mem))
      (fun other mem => placeholders other (List.mem_cons_of_mem _ mem)) later
    intro c mem
    rcases List.mem_append.mp mem with front | back
    · exact here c front
    · exact after c back

/-- A property of characters that respelling keeps passes from a value to its expression. -/
theorem ofText_chars [Letters] (own : ∀ c ∈ respelling, p c) {raw : Text} {e : Expression}
    (chars : ∀ c ∈ raw, p c) (ok : ofText raw = .ok e) : ∀ c ∈ e.text, p c := by
  rw [ofText_eq] at ok
  refine ofTokens_chars own ?_ ?_ ok
  · intro token mem c inToken
    refine chars c (Text.mem_of_mem_trim ?_)
    rw [← Token.text_readAll (Text.trim raw)]
    exact List.mem_flatMap.mpr ⟨token, mem, inToken⟩
  · intro token mem expr short inExpr e read
    have h₁ := Token.length_text_le_of_mem mem
    have h₂ := Text.length_trim_le raw
    exact ofText_chars own inExpr read
termination_by raw.length
decreasing_by omega

end

end Expression

/-! ## How tokens end -/

namespace Token

/-- What reading promises of a token: a word or a number is not empty and has no brace, and a
literal is between quotes. -/
def Proper : Token → Prop
  | .word text _ | .attribute text | .number text => text ≠ [] ∧ '{' ∉ text
  | .literal _ delimiter _ => Text.isQuote delimiter.quote = true
  | _ => True

theorem brace_not_mem {s : Text} (chars : ∀ c ∈ s, c = '.' ∨ Text.isWordChar c = true) :
    '{' ∉ s := by
  intro mem
  have brace : Text.isWordChar '{' = false := by decide +kernel
  rcases chars '{' mem with dot | word
  · exact absurd dot (by decide)
  · rw [brace] at word
    cases word

theorem proper_readLiteral {quote : Char} (isQuote : Text.isQuote quote = true) (mark rest : Text) :
    (readLiteral mark quote rest).1.Proper := by
  rw [readLiteral]
  split
  · exact isQuote
  · trivial

theorem proper_readWord {name : Text} (some : name ≠ []) (noBrace : '{' ∉ name) (afterDot : Bool)
    (after : Text) : (readWord afterDot name after).1.Proper := by
  cases after with
  | nil => cases afterDot <;> exact ⟨some, noBrace⟩
  | cons c rest =>
    rw [readWord]
    split
    next mark =>
      rw [Bool.and_eq_true] at mark
      exact proper_readLiteral mark.1 name rest
    next =>
      split
      · exact ⟨some, noBrace⟩
      · split
        · trivial
        · exact ⟨some, noBrace⟩

theorem mem_cutNumber (s : Text) :
    ∀ c ∈ (cutNumber s).1, c = '.' ∨ Text.isWordChar c = true := by
  induction s with
  | nil =>
    intro c mem
    cases mem
  | cons first rest ih =>
    intro c mem
    rw [cutNumber] at mem
    split at mem
    next taken =>
      rcases List.mem_cons.mp mem with rfl | later
      · rw [Bool.or_eq_true, Bool.and_eq_true, beq_iff_eq] at taken
        rcases taken with word | ⟨dot, _⟩
        · exact .inr word
        · exact .inl dot
      · exact ih c later
    next => cases mem

/-- Reading keeps its promise for one token. -/
theorem proper_read (afterDot : Bool) (c : Char) (rest : Text) :
    (read afterDot c rest).1.Proper := by
  have some := text_read_ne_nil afterDot c rest
  unfold read at some ⊢
  split
  next quote => exact proper_readLiteral quote [] rest
  next plain =>
    split
    next start =>
      refine proper_readWord ?_ ?_ afterDot _
      · simp [Text.leadingWord, Text.isWordChar_of_isWordStart start]
      · refine brace_not_mem fun d mem => .inr ?_
        exact List.all_eq_true.mp List.all_takeWhile d mem
    next noStart =>
      split
      next digit =>
        rw [if_neg plain, if_neg noStart, if_pos digit] at some
        exact ⟨some, brace_not_mem (mem_cutNumber (c :: rest))⟩
      next => trivial

/-- Reading keeps its promise for every token of a text. -/
theorem proper_readAllFrom (afterDot : Bool) (s : Text) :
    ∀ token ∈ readAllFrom afterDot s, token.Proper := by
  fun_induction readAllFrom afterDot s with
  | case1 =>
    intro token mem
    cases mem
  | case2 afterDot c rest ih =>
    intro token mem
    rcases List.mem_cons.mp mem with rfl | later
    · exact proper_read afterDot c rest
    · exact ih token later

end Token

namespace Expression

variable {inner : Text → Except Fault Expression}

theorem getLast?_append_delimiter (front : Text) (delimiter : Delimiter) :
    (front ++ delimiter.text).getLast? = some delimiter.quote := by
  cases delimiter with
  | mk quote triple => cases triple <;> simp [Delimiter.text, List.replicate]

/-- The expression of a string literal ends with its quote. -/
theorem getLast?_ofLiteral {mark body : Text} {delimiter : Delimiter} {e : Expression}
    (ok : ofLiteral inner mark delimiter body = .ok e) :
    e.text.getLast? = some delimiter.quote := by
  rw [ofLiteral] at ok
  split at ok
  · split at ok
    next => cases ok
    next =>
      split at ok
      · obtain ⟨filled, _, ok⟩ := bind_eq_ok.mp ok
        obtain rfl := Except.ok.inj ok
        exact getLast?_append_delimiter _ delimiter
      · obtain rfl := Except.ok.inj ok
        exact getLast?_append_delimiter _ delimiter
  · obtain rfl := Except.ok.inj ok
    exact getLast?_append_delimiter _ delimiter

/-- Every token writes something, and only an opening brace writes one at its end. -/
theorem getLast?_ofToken [Letters] {token : Token} {e : Expression} (proper : token.Proper)
    (ok : ofToken inner token = .ok e) :
    ∃ c, e.text.getLast? = some c ∧ (c = '{' → token = .symbol '{') := by
  have named {text : Text} (some : text ≠ []) (noBrace : '{' ∉ text) :
      ∃ c, text.getLast? = .some c ∧ (c = '{' → token = .symbol '{') := by
    refine ⟨text.getLast some, List.getLast?_eq_some_getLast some, ?_⟩
    intro brace
    exact absurd (brace ▸ List.getLast_mem some) noBrace
  cases token with
  | word name member =>
    obtain rfl := Except.ok.inj ok
    rw [text_ofWord, respell]
    split
    · exact ⟨'e', rfl, fun brace => absurd brace (by decide)⟩
    split
    · exact ⟨'e', rfl, fun brace => absurd brace (by decide)⟩
    split
    · exact ⟨'e', rfl, fun brace => absurd brace (by decide)⟩
    · exact named proper.1 proper.2
  | range sugar =>
    rw [ofToken, ofRange] at ok
    split at ok
    next => cases ok
    next =>
      obtain rfl := Except.ok.inj ok
      exact ⟨')', List.getLast?_concat, fun brace => absurd brace (by decide)⟩
  | literal mark delimiter body =>
    refine ⟨delimiter.quote, getLast?_ofLiteral ok, ?_⟩
    intro brace
    have quote : Text.isQuote delimiter.quote = true := proper
    rw [brace] at quote
    cases quote
  | unterminated rest => cases ok
  | symbol c =>
    obtain rfl := Except.ok.inj ok
    exact ⟨c, rfl, fun brace => by rw [brace]⟩
  | _ =>
    obtain rfl := Except.ok.inj ok
    exact named proper.1 proper.2

/-- Tokens that leave no bracket open do not end with one. -/
theorem getLast?_ofTokens [Letters] {opened : List Char} {tokens : List Token} {e : Expression}
    (proper : ∀ token ∈ tokens, token.Proper) (ok : ofTokens inner opened tokens = .ok e) :
    e.text.getLast? ≠ some '{' ∧ (e.text = [] → opened = []) := by
  induction tokens generalizing opened e with
  | nil =>
    cases opened with
    | nil =>
      obtain rfl := Except.ok.inj ok
      exact ⟨nofun, fun _ => rfl⟩
    | cons innermost outer => cases ok
  | cons token rest ih =>
    rw [ofTokens] at ok
    obtain ⟨opened', nested, ok⟩ := bind_eq_ok.mp ok
    obtain ⟨first, made, ok⟩ := bind_eq_ok.mp ok
    obtain ⟨more, later, ok⟩ := bind_eq_ok.mp ok
    obtain rfl := Except.ok.inj ok
    obtain ⟨last, isLast, onlySymbol⟩ := getLast?_ofToken (proper token List.mem_cons_self) made
    obtain ⟨ends, closed⟩ := ih (fun other mem => proper other (List.mem_cons_of_mem _ mem)) later
    show (first.text ++ more.text).getLast? ≠ some '{' ∧ (first.text ++ more.text = [] → _)
    rw [List.getLast?_append, isLast]
    constructor
    · intro brace
      cases tail : more.text.getLast? with
      | some c =>
        rw [tail] at brace ends
        exact ends brace
      | none =>
        -- Nothing is written after the token, so it cannot have opened a bracket.
        rw [tail] at brace
        have none := closed (List.getLast?_eq_none_iff.mp tail)
        rw [onlySymbol (Option.some.inj brace), none] at nested
        cases nested
    · intro empty
      rw [(List.append_eq_nil_iff.mp empty).1] at isLast
      cases isLast

/-- An expression does not end with an opening brace. -/
theorem getLast?_ofText [Letters] {raw : Text} {e : Expression} (ok : ofText raw = .ok e) :
    e.text.getLast? ≠ some '{' := by
  rw [ofText_eq] at ok
  exact (getLast?_ofTokens (Token.proper_readAllFrom false _) ok).1

end Expression
end Outline
