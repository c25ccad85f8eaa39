import Outline.Header.Edition
import Outline.Program.Basic
import Outline.Proofs.Data
import Outline.Proofs.Literal

/-!
# Templates without quotes

A printed value with placeholders and without quotes is put between double quotes, with a backslash
before each backslash and double quote in it, and read as a string. The backslashes mislead no
search of a template (`Template.split_escape`), so the string has the segments of the value, all of
them escaped: the literal text, and the expressions and formats as well. Reading an expression keeps
its backslashes and double quotes (`Expression.escapable_ofText`). So the placeholders are printed
as they are written exactly when there is nothing to escape in them and each is read back
(`Program.output_print_iff`).
-/

set_option autoImplicit false

namespace Outline

namespace Text

/-! ## Escaping -/

/-- Whether a character is escaped between double quotes. -/
def needsEscape (c : Char) : Bool := c == '\\' || c == '"'

/-- A text with a backslash before each character that is escaped between double quotes. -/
def escape (s : Text) : Text := s.flatMap fun c => if c = '\\' ∨ c = '"' then ['\\', c] else [c]

/-- The characters of a text that are escaped between double quotes. -/
def escapable (s : Text) : Text := s.filter needsEscape

/-- A character that needs no escape stays as it is. -/
theorem escape_cons_plain {c : Char} (plain : needsEscape c = false) (s : Text) :
    escape (c :: s) = c :: escape s := by
  rw [escape, List.flatMap_cons, if_neg (by simpa [needsEscape] using plain)]
  rfl

/-- A character that needs an escape gets a backslash before it. -/
theorem escape_cons_escaped {c : Char} (needs : needsEscape c = true) (s : Text) :
    escape (c :: s) = '\\' :: c :: escape s := by
  rw [escape, List.flatMap_cons, if_pos (by simpa [needsEscape] using needs)]
  rfl

theorem escape_append (s t : Text) : escape (s ++ t) = escape s ++ escape t := List.flatMap_append

theorem escape_eq_nil_iff {s : Text} : escape s = [] ↔ s = [] := by
  cases s with
  | nil => exact Iff.rfl
  | cons c s =>
    cases needs : needsEscape c with
    | false => simp [escape_cons_plain needs]
    | true => simp [escape_cons_escaped needs]

/-- A text without characters to escape stays as it is. -/
theorem escape_eq_self {s : Text} (plain : escapable s = []) : escape s = s := by
  induction s with
  | nil => rfl
  | cons c s ih =>
    have all := List.filter_eq_nil_iff.mp plain
    have here : needsEscape c = false := by simpa using all c List.mem_cons_self
    rw [escape_cons_plain here, ih (List.filter_eq_nil_iff.mpr fun d mem =>
      all d (List.mem_cons_of_mem _ mem))]

/-- Escaping adds as many characters as it escapes, and these would be escaped again. -/
theorem length_escapable_escape (s : Text) :
    (escapable (escape s)).length = (escapable s).length + (escapable s).length := by
  induction s with
  | nil => rfl
  | cons c s ih =>
    cases needs : needsEscape c with
    | false =>
      rw [escape_cons_plain needs, escapable, escapable, List.filter_cons_of_neg (by simp [needs]),
        List.filter_cons_of_neg (by simp [needs])]
      exact ih
    | true =>
      rw [escape_cons_escaped needs, escapable, escapable, List.filter_cons_of_pos rfl,
        List.filter_cons_of_pos needs, List.filter_cons_of_pos needs]
      simp only [List.length_cons]
      rw [escapable, escapable] at ih
      omega

/-- Escaping puts nothing but a backslash before a text. -/
theorem head?_escape_iff {d : Char} (plain : needsEscape d = false) {s : Text} :
    (escape s).head? = some d ↔ s.head? = some d := by
  cases s with
  | nil => exact Iff.rfl
  | cons c s =>
    cases needs : needsEscape c with
    | false => rw [escape_cons_plain needs]; rfl
    | true =>
      rw [escape_cons_escaped needs, List.head?_cons, List.head?_cons]
      constructor
      · intro slash
        obtain rfl := Option.some.inj slash
        cases plain
      · intro same
        obtain rfl := Option.some.inj same
        rw [plain] at needs
        cases needs

/-- A backslash is only ever put before a character, so the last character stays the last. -/
theorem getLast?_escape (s : Text) : (escape s).getLast? = s.getLast? := by
  induction s with
  | nil => rfl
  | cons c s ih =>
    cases needs : needsEscape c with
    | false => rw [escape_cons_plain needs, List.getLast?_cons, List.getLast?_cons, ih]
    | true =>
      rw [escape_cons_escaped needs, List.getLast?_cons_cons, List.getLast?_cons,
        List.getLast?_cons, ih]

theorem needsEscape_eq_false_of_isBlank {c : Char} (blank : isBlank c = true) :
    needsEscape c = false :=
  eq_false_of_isBlank (by decide) blank

theorem escapable_eq_nil {s : Text} (plain : ∀ c ∈ s, needsEscape c = false) : escapable s = [] :=
  List.filter_eq_nil_iff.mpr fun c mem => by simp [plain c mem]

theorem escapable_append (s t : Text) : escapable (s ++ t) = escapable s ++ escapable t :=
  List.filter_append s t

/-- Blanks need no escape. -/
theorem escapable_blanks {s : Text} (blank : ∀ c ∈ s, isBlank c = true) : escapable s = [] :=
  escapable_eq_nil fun c mem => needsEscape_eq_false_of_isBlank (blank c mem)

/-- Trimming takes off nothing that needs an escape. -/
theorem escapable_trim (s : Text) : escapable (trim s) = escapable s := by
  obtain ⟨lead, tail, split, blankLead, blankTail⟩ := exists_eq_trim_between s
  conv_rhs => rw [split, escapable_append, escapable_append, escapable_blanks blankLead,
    escapable_blanks blankTail, List.nil_append, List.append_nil]

/-- Trimming takes off the blanks on both sides of a text that has none at its ends. -/
theorem trim_between {lead s tail : Text} (blankLead : ∀ c ∈ lead, isBlank c = true)
    (trimmed : Trimmed s) (blankTail : ∀ c ∈ tail, isBlank c = true) :
    trim (lead ++ s ++ tail) = s := by
  have back : trimEnd (s ++ tail) = s := by
    have blank : ∀ c ∈ tail.reverse, isBlank c = true := by simpa using blankTail
    rw [trimEnd, List.reverse_append, List.dropWhile_append_of_pos blank]
    exact trimEnd_eq_self trimmed.back
  rw [trim, List.append_assoc, trimStart_append blankLead]
  cases s with
  | nil =>
    have none := trimStart_append blankTail []
    rw [List.append_nil] at none
    rw [List.nil_append, none]
    rfl
  | cons c s =>
    rw [trimStart_eq_self (s := c :: s ++ tail) trimmed.front, back]

/-- Escaping and trimming can be done in either order. -/
theorem trim_escape (s : Text) : trim (escape s) = escape (trim s) := by
  obtain ⟨lead, tail, split, blankLead, blankTail⟩ := exists_eq_trim_between s
  have trimmed : Trimmed (escape (trim s)) := by
    refine ⟨fun c head => ?_, fun c last => ?_⟩
    · cases needs : needsEscape c with
      | false => exact (trimmed_trim s).front c ((head?_escape_iff needs).mp head)
      | true =>
        cases blank : isBlank c with
        | false => rfl
        | true =>
          rw [needsEscape_eq_false_of_isBlank blank] at needs
          cases needs
    · rw [getLast?_escape] at last
      exact (trimmed_trim s).back c last
  conv_lhs => rw [split, escape_append, escape_append, escape_eq_self (escapable_blanks blankLead),
    escape_eq_self (escapable_blanks blankTail)]
  exact trim_between blankLead trimmed blankTail

end Text

/-- A segment with its texts escaped. -/
def Segment.escape : Segment → Segment
  | .literal text => .literal (Text.escape text)
  | .placeholder expr spec => .placeholder (Text.escape expr) (Text.escape spec)

/-! ## Templates under escaping -/

namespace Template

open Nesting Text

/-- A backslash leaves the scan of a placeholder where it is. -/
theorem stepPlain_slash {n : Nesting} (plain : n.quoting.Plain) : n.stepPlain '\\' = n :=
  stepPlain_neutral plain (by decide)

/-- Escaping does not move the end of a placeholder. -/
theorem cutAtHoleEnd?_escape {n : Nesting} (plain : n.quoting.Plain) (s : Text) :
    cutAtHoleEnd? n (escape s) =
      (cutAtHoleEnd? n s).map fun cut => (escape cut.1, escape cut.2) := by
  induction s generalizing n with
  | nil => rfl
  | cons c s ih =>
    have later := ih (n := n.stepPlain c) (plain.stepPlain c)
    cases needs : needsEscape c with
    | false =>
      rw [escape_cons_plain needs, cutAtHoleEnd?, cutAtHoleEnd?, later]
      split
      · rfl
      · rw [Option.map_map, Option.map_map]
        congr 1
        funext cut
        exact Prod.ext (escape_cons_plain needs cut.1).symm rfl
    | true =>
      have noEnd : (n.isTop && c == '}') = false := by
        rw [Bool.and_eq_false_iff, beq_eq_false_iff_ne]
        right
        rintro rfl
        cases needs
      have passes : (n.isTop && '\\' == '}') = false := Bool.and_false _
      rw [escape_cons_escaped needs, cutAtHoleEnd?, cutAtHoleEnd?, cutAtHoleEnd?, passes,
        stepPlain_slash plain, noEnd, later]
      simp only [Bool.false_eq_true, if_false, Option.map_map]
      congr 1
      funext cut
      exact Prod.ext (escape_cons_escaped needs cut.1).symm rfl

/-- Escaping does not move the cut between expression and format. -/
theorem splitSpecFrom_escape {n : Nesting} (plain : n.quoting.Plain) (previous : Option Char)
    (s : Text) :
    splitSpecFrom previous n (escape s) =
      (escape (splitSpecFrom previous n s).1, escape (splitSpecFrom previous n s).2) := by
  induction s generalizing n previous with
  | nil => rfl
  | cons c s ih =>
    have later := ih (n := n.stepPlain c) (plain.stepPlain c) (some c)
    cases needs : needsEscape c with
    | false =>
      have behind : startsSpec previous c (escape s).head? = startsSpec previous c s.head? :=
        seesEquals_startsSpec _ _ c _ _ Iff.rfl (head?_escape_iff (by decide))
      rw [escape_cons_plain needs, splitSpecFrom_cons, splitSpecFrom_cons, later, behind]
      split
      · exact Prod.ext rfl (escape_cons_plain needs s).symm
      · exact Prod.ext (escape_cons_plain needs _).symm rfl
    | true =>
      have noMark {d : Char} (needs : needsEscape d = true) (previous next : Option Char) :
          startsSpec previous d next = false := by
        cases starts : startsSpec previous d next with
        | false => rfl
        | true =>
          simp only [startsSpec, Bool.and_eq_true, Bool.or_eq_true, beq_iff_eq] at starts
          rcases starts.2 with rfl | ⟨rfl, _⟩ <;> cases needs
      rw [escape_cons_escaped needs, splitSpecFrom_cons, splitSpecFrom_cons, splitSpecFrom_cons,
        noMark rfl, noMark needs, noMark needs, stepPlain_slash plain, later]
      simp only [Bool.and_false, Bool.false_eq_true, if_false]
      exact Prod.ext (escape_cons_escaped needs _).symm rfl

/-- The expression and the format of an escaped placeholder are those of the placeholder, escaped.
-/
theorem splitSpec_escape (inner : Text) :
    splitSpec (escape inner) = (escape (splitSpec inner).1, escape (splitSpec inner).2) :=
  splitSpecFrom_escape (n := .start) trivial none inner

/-- Escaping makes no blank expression and leaves none. -/
theorem isBlankHole_escape (inner : Text) : isBlankHole (escape inner) = isBlankHole inner := by
  rw [isBlankHole, isBlankHole, splitSpec_escape, trim_escape, Bool.eq_iff_iff, List.isEmpty_iff,
    List.isEmpty_iff, escape_eq_nil_iff]

/-- Escaping can be done before or after literal texts are joined. -/
theorem map_prepend (text : Text) (segments : List Segment) :
    (prepend text segments).map Segment.escape =
      prepend (escape text) (segments.map Segment.escape) := by
  cases text with
  | nil => rw [prepend_nil, show escape [] = [] from rfl, prepend_nil]
  | cons c text =>
    obtain ⟨d, more, front⟩ := List.exists_cons_of_ne_nil
      (mt escape_eq_nil_iff.mp (List.cons_ne_nil c text))
    cases segments with
    | nil => simp [prepend, front, Segment.escape]
    | cons segment segments =>
      cases segment with
      | literal own =>
        rw [List.map_cons, Segment.escape, front, prepend, prepend, List.map_cons, Segment.escape,
          escape_append, front]
        · rintro ⟨⟩
        · rintro ⟨⟩
      | placeholder expr spec => simp [prepend, front, Segment.escape]

/-- An escaped template has the same pieces, except that an escaped character becomes two, and the
same segments, all of them escaped. -/
theorem exists_pieces?_escape {s : Text} {pieces : List Piece} (read : pieces? s = some pieces) :
    ∃ escaped, pieces? (escape s) = some escaped ∧
      segments escaped = (segments pieces).map Segment.escape ∧
      escaped.any Piece.isBlank = pieces.any Piece.isBlank := by
  have opening (s : Text) : escape ('{' :: s) = '{' :: escape s := escape_cons_plain (by decide) s
  have closing (s : Text) : escape ('}' :: s) = '}' :: escape s := escape_cons_plain (by decide) s
  have front {brace : Char} (plain : needsEscape brace = false) {rest : Text}
      (single : ∀ more, rest = brace :: more → False) : (escape rest).head? ≠ some brace := by
    rw [ne_eq, head?_escape_iff plain, List.head?_eq_some_iff]
    rintro ⟨more, same⟩
    exact single more same
  -- Braces are not escaped, so the escaped text has its pieces where the text has them.
  fun_induction pieces? s generalizing pieces with
  | case1 =>
    obtain rfl := Option.some.inj read
    exact ⟨[], by rw [escape, List.flatMap_nil, pieces?], rfl, rfl⟩
  | case2 rest ih =>
    obtain ⟨more, readMore, rfl⟩ := Option.map_eq_some_iff.mp read
    obtain ⟨escaped, readEscaped, joined, blank⟩ := ih readMore
    refine ⟨.doubled '{' :: escaped, ?_, ?_, blank⟩
    · rw [opening, opening, pieces?_doubled (.inl rfl), readEscaped]
      rfl
    · rw [segments, joined, segments, map_prepend, opening, opening]
      rfl
  | case3 rest ih =>
    obtain ⟨more, readMore, rfl⟩ := Option.map_eq_some_iff.mp read
    obtain ⟨escaped, readEscaped, joined, blank⟩ := ih readMore
    refine ⟨.doubled '}' :: escaped, ?_, ?_, blank⟩
    · rw [closing, closing, pieces?_doubled (.inr rfl), readEscaped]
      rfl
    · rw [segments, joined, segments, map_prepend, closing, closing]
      rfl
  | case4 rest single inner after found ih =>
    obtain ⟨more, readMore, rfl⟩ := Option.map_eq_some_iff.mp read
    obtain ⟨escaped, readEscaped, joined, blank⟩ := ih readMore
    have cut := cutAtHoleEnd?_escape (n := .start) trivial rest
    rw [found, Option.map_some] at cut
    refine ⟨.hole (escape inner) :: escaped, ?_, ?_, ?_⟩
    · rw [opening, pieces?_hole (front (by decide) single), cut, Option.bind_some, readEscaped]
      rfl
    · rw [segments, segments, isBlankHole_escape, splitSpec_escape, trim_escape, joined]
      split
      · rw [map_prepend, escape_append, opening, closing]
        rfl
      · rfl
    · rw [List.any_cons, List.any_cons, blank, Piece.isBlank, Piece.isBlank, isBlankHole_escape]
  | case5 => cases read
  | case6 rest single ih =>
    obtain ⟨more, readMore, rfl⟩ := Option.map_eq_some_iff.mp read
    obtain ⟨escaped, readEscaped, joined, blank⟩ := ih readMore
    refine ⟨.lone :: escaped, ?_, ?_, blank⟩
    · rw [closing, pieces?_lone (front (by decide) single), readEscaped]
      rfl
    · rw [segments, joined, segments, map_prepend, closing, closing]
      rfl
  | case7 c rest _ _ noOpening noClosing ih =>
    obtain ⟨more, readMore, rfl⟩ := Option.map_eq_some_iff.mp read
    obtain ⟨escaped, readEscaped, joined, blank⟩ := ih readMore
    have own : pieces? (c :: escape rest) = some (.char c :: escaped) := by
      rw [pieces?_char noOpening noClosing, readEscaped]
      rfl
    cases needs : needsEscape c with
    | false =>
      refine ⟨.char c :: escaped, ?_, ?_, blank⟩
      · rw [escape_cons_plain needs, own]
      · rw [segments, joined, segments, map_prepend, escape_cons_plain needs]
        rfl
    | true =>
      refine ⟨.char '\\' :: .char c :: escaped, ?_, ?_, blank⟩
      · rw [escape_cons_escaped needs, pieces?_char (by decide) (by decide), own]
        rfl
      · rw [segments, segments, joined, segments, map_prepend, escape_cons_escaped needs,
          prepend_append]
        rfl

/-- Escaping neither adds nor takes away placeholders. -/
theorem hasPlaceholders_escape (segments : List Segment) :
    hasPlaceholders (segments.map Segment.escape) = hasPlaceholders segments := by
  rw [hasPlaceholders, hasPlaceholders, List.any_map]
  congr 1
  funext segment
  cases segment <;> rfl

/-- An escaped template has the segments of the template, all of them escaped. -/
theorem split_escape {body : Text} {template : List Segment} (cut : split body = .ok template) :
    split (escape body) = .ok (template.map Segment.escape) := by
  obtain ⟨pieces, read, accepted, rfl⟩ := split_eq_ok_iff.mp cut
  obtain ⟨escaped, readEscaped, joined, blank⟩ := exists_pieces?_escape read
  refine split_eq_ok_iff.mpr ⟨escaped, readEscaped, ?_, joined⟩
  rw [joined, blank, hasPlaceholders_escape, accepted]

/-! ## What is escaped in a template -/

theorem render_prepend (text : Text) (segments : List Segment) :
    render (prepend text segments) = text ++ render segments := by
  cases text with
  | nil => rw [prepend_nil, List.nil_append]
  | cons c text =>
    cases segments with
    | nil => rfl
    | cons segment segments => cases segment <;> simp [prepend, render]

theorem escapable_opening (s : Text) : escapable ('{' :: s) = escapable s :=
  List.filter_cons_of_neg (by decide)

theorem escapable_closing (s : Text) : escapable ('}' :: s) = escapable s :=
  List.filter_cons_of_neg (by decide)

/-- The braces of a placeholder need no escape, so only its expression and its format count. -/
theorem escapable_hole (expr spec : Text) (rest : List Segment) :
    escapable (render (.placeholder expr spec :: rest)) =
      escapable expr ++ escapable spec ++ escapable (render rest) := by
  rw [render, List.cons_append, List.cons_append, escapable_opening, escapable_append,
    escapable_closing, escapable_append]

/-- Cutting a template keeps its backslashes and double quotes. -/
theorem escapable_segments {body : Text} {pieces : List Piece} (read : pieces? body = some pieces) :
    escapable (render (segments pieces)) = escapable body := by
  fun_induction pieces? body generalizing pieces with
  | case1 =>
    obtain rfl := Option.some.inj read
    rfl
  | case2 rest ih =>
    obtain ⟨more, readMore, rfl⟩ := Option.map_eq_some_iff.mp read
    rw [segments, render_prepend, escapable_append, ih readMore, escapable_opening,
      escapable_opening]
    rfl
  | case3 rest ih =>
    obtain ⟨more, readMore, rfl⟩ := Option.map_eq_some_iff.mp read
    rw [segments, render_prepend, escapable_append, ih readMore, escapable_closing,
      escapable_closing]
    rfl
  | case4 rest _ inner after found ih =>
    obtain ⟨more, readMore, rfl⟩ := Option.map_eq_some_iff.mp read
    have parts : (splitSpec inner).1 ++ (splitSpec inner).2 = inner :=
      splitSpecFrom_append none .start inner
    rw [eq_append_of_cutAtHoleEnd found, escapable_opening, escapable_append, escapable_closing,
      segments]
    split
    · rw [render_prepend, escapable_append, ih readMore, List.cons_append, escapable_opening,
        escapable_append, escapable_closing]
      exact congrArg (· ++ _) (List.append_nil _)
    · rw [escapable_hole, escapable_trim, ← escapable_append, parts, ih readMore]
  | case5 => cases read
  | case6 rest _ ih =>
    obtain ⟨more, readMore, rfl⟩ := Option.map_eq_some_iff.mp read
    rw [segments, render_prepend, escapable_append, ih readMore, escapable_closing]
    rfl
  | case7 c rest _ _ _ _ ih =>
    obtain ⟨more, readMore, rfl⟩ := Option.map_eq_some_iff.mp read
    rw [segments, render_prepend, escapable_append, ih readMore, ← escapable_append,
      List.singleton_append]

/-- Cutting a template loses no character that needs an escape and adds none. -/
theorem escapable_split {body : Text} {template : List Segment}
    (cut : split body = .ok template) : escapable (render template) = escapable body := by
  obtain ⟨pieces, read, _, rfl⟩ := split_eq_ok_iff.mp cut
  exact escapable_segments read

end Template

/-! ## What is escaped in an expression -/

namespace Token

open Text

/-- Neither a backslash nor a double quote is tame. -/
theorem needsEscape_eq_false_of_isTame {c : Char} (tame : isTame c = true) :
    needsEscape c = false := by
  cases needs : needsEscape c with
  | false => rfl
  | true =>
    rw [needsEscape, Bool.or_eq_true, beq_iff_eq, beq_iff_eq] at needs
    rcases needs with rfl | rfl
    · exact absurd tame (by decide)
    · exact absurd tame (by decide)

theorem escapable_of_tame {s : Text} (tame : ∀ c ∈ s, isTame c = true) : escapable s = [] :=
  escapable_eq_nil fun c mem => needsEscape_eq_false_of_isTame (tame c mem)

end Token

namespace Expression

open Text Template

section

variable {inner : Text → Except Fault Expression}

/-- If the placeholders keep the characters that need an escape, so does the template they are
filled into. -/
theorem escapable_fill {segments filled : List Segment}
    (placeholders : ∀ expr spec, Segment.placeholder expr spec ∈ segments → ∀ e,
      inner expr = .ok e → escapable e.text = escapable expr)
    (pairs : List.Forall₂ (Segment.Filled inner) segments filled) :
    escapable (render filled) = escapable (render segments) := by
  induction pairs with
  | nil => rfl
  | cons pair _ ih =>
    have later := ih fun expr spec mem => placeholders expr spec (List.mem_cons_of_mem _ mem)
    cases pair with
    | literal text => rw [render, render, escapable_append, escapable_append, later]
    | @placeholder expr e read spec =>
      have own := placeholders expr spec List.mem_cons_self e read
      rw [escapable_hole, escapable_hole, own, later]

/-- A token keeps the characters that need an escape, given that its placeholders do. -/
theorem escapable_ofToken [Letters] {token : Token} {e : Expression} (formed : token.Formed)
    (placeholders : ∀ expr, expr.length < token.text.length → ∀ e, inner expr = .ok e →
      escapable e.text = escapable expr)
    (ok : ofToken inner token = .ok e) : escapable e.text = escapable token.text := by
  cases token with
  | word name member =>
    obtain rfl := Except.ok.inj ok
    rw [text_ofWord, Token.escapable_of_tame (respell_tame formed.1 formed.2).2]
    exact (Token.escapable_of_tame formed.2).symm
  | range sugar =>
    have own : ∀ c ∈ respelling, needsEscape c = false := by
      intro c mem
      have plain := List.all_eq_true.mp
        (by decide : (respelling.all fun c => !needsEscape c) = true)
      simpa using plain c mem
    have plain : ∀ c ∈ sugar, needsEscape c = false := fun c mem =>
      Token.needsEscape_eq_false_of_isTame (formed.2 c mem)
    rw [escapable_eq_nil (ofRange_chars own plain ok)]
    exact (escapable_eq_nil plain).symm
  | literal mark d body =>
    have marked {mark body : Text} (tame : ∀ c ∈ mark, Token.isTame c = true) :
        escapable (mark ++ d.text ++ body ++ d.text) =
          escapable d.text ++ escapable body ++ escapable d.text := by
      rw [escapable_append, escapable_append, escapable_append, Token.escapable_of_tame tame,
        List.nil_append]
    rcases ofLiteral_cases ok with ⟨_, same⟩ | ⟨_, segments, filled, cut, _, pairs, _, same⟩
    · rw [same]
      rfl
    · have body : escapable (render filled) = escapable body := by
        rw [← escapable_split cut]
        refine escapable_fill (fun expr spec mem e read => placeholders expr ?_ e read) pairs
        have short := length_lt_of_mem_split cut mem
        simp only [Token.text, List.length_append]
        omega
      rw [same, marked (interpolatedMark_tame formed.2), body]
      exact (marked formed.2).symm
  | unterminated rest => cases ok
  | _ =>
    obtain rfl := Except.ok.inj ok
    rfl

/-- Tokens keep the characters that need an escape, given that the placeholders in them do. -/
theorem escapable_ofTokens [Letters] {opened : List Char} {tokens : List Token} {e : Expression}
    (formed : ∀ token ∈ tokens, token.Formed)
    (placeholders : ∀ token ∈ tokens, ∀ expr, expr.length < token.text.length → ∀ e,
      inner expr = .ok e → escapable e.text = escapable expr)
    (ok : ofTokens inner opened tokens = .ok e) :
    escapable e.text = escapable (tokens.flatMap Token.text) := by
  induction tokens generalizing opened e with
  | nil =>
    cases opened with
    | nil =>
      obtain rfl := Except.ok.inj ok
      rfl
    | cons innermost outer => cases ok
  | cons token rest ih =>
    rw [ofTokens] at ok
    obtain ⟨opened', _, ok⟩ := bind_eq_ok.mp ok
    obtain ⟨first, made, ok⟩ := bind_eq_ok.mp ok
    obtain ⟨more, later, ok⟩ := bind_eq_ok.mp ok
    obtain rfl := Except.ok.inj ok
    have front := escapable_ofToken (formed token List.mem_cons_self)
      (placeholders token List.mem_cons_self) made
    have back := ih (fun other mem => formed other (List.mem_cons_of_mem _ mem))
      (fun other mem => placeholders other (List.mem_cons_of_mem _ mem)) later
    rw [List.flatMap_cons, escapable_append, ← front, ← back]
    exact escapable_append first.text more.text

/-- Reading a value keeps its backslashes and double quotes. -/
theorem escapable_ofText [Letters] {raw : Text} {e : Expression} (ok : ofText raw = .ok e) :
    escapable e.text = escapable raw := by
  rw [ofText_eq] at ok
  have kept : escapable e.text =
      escapable ((Token.readAll (trim raw)).flatMap Token.text) := by
    have formed := Token.formed_readAllFrom false (trim raw)
    refine escapable_ofTokens (fun token mem => (formed token mem).1) ?_ ok
    intro token mem expr short e read
    have h₁ := Token.length_text_le_of_mem mem
    have h₂ := Text.length_trim_le raw
    exact escapable_ofText read
  rw [kept, Token.text_readAll, escapable_trim]
termination_by raw.length
decreasing_by omega

end

/-! ## Reading a quoted template -/

/-- An escaped text has no double quote that would end a string literal. -/
theorem keeps_escape (s : Text) : (⟨'"', false⟩ : Delimiter).Keeps (escape s) := by
  induction s with
  | nil => rfl
  | cons c s ih =>
    cases needs : needsEscape c with
    | false =>
      have plain : c ≠ '"' ∧ c ≠ '\\' := by
        constructor <;> (rintro rfl; cases needs)
      rw [escape_cons_plain needs, Delimiter.Keeps, Delimiter.scan_cons,
        Delimiter.step_other plain.1 plain.2]
      exact ih
    | true =>
      rw [escape_cons_escaped needs]
      exact ih

/-- A quoted template is one string. -/
theorem readLiteral_quoteTemplate (s : Text) :
    Token.readLiteral [] '"' (escape s ++ ['"']) = (.literal [] ⟨'"', false⟩ (escape s), []) := by
  have whole : '"' :: (escape s ++ ['"']) =
      Delimiter.text ⟨'"', false⟩ ++ escape s ++ Delimiter.text ⟨'"', false⟩ ++ [] := by
    rw [List.append_nil]
    rfl
  exact (Token.readLiteral_eq_literal_iff rfl).mpr
    ⟨whole, rfl, keeps_escape s, fun _ _ starts => by cases starts⟩

/-- A quoted template is one token: a string literal with the escaped text for a body. -/
theorem readAll_quoteTemplate (s : Text) :
    Token.readAll (trim (quoteTemplate s)) = [.literal [] ⟨'"', false⟩ (escape s)] := by
  have trimmed : Trimmed (quoteTemplate s) := by
    refine ⟨fun c head => ?_, fun c last => ?_⟩
    · obtain rfl := Option.some.inj head
      decide
    · rw [quoteTemplate, List.getLast?_concat] at last
      obtain rfl := Option.some.inj last
      decide
  have read : Token.read false '"' (escape s ++ ['"']) =
      (.literal [] ⟨'"', false⟩ (escape s), []) := readLiteral_quoteTemplate s
  rw [trim_eq_self trimmed]
  show Token.readAllFrom false ('"' :: (escape s ++ ['"'])) = _
  rw [Token.readAllFrom, read, Token.readAllFrom]

/-- A quoted template is read as the string literal with the escaped text for a body. -/
theorem ofText_quoteTemplate_eq_ok_iff [Letters] {s : Text} {e : Expression} :
    ofText (quoteTemplate s) = .ok e ↔
      ∃ own, ofLiteral ofText [] ⟨'"', false⟩ (escape s) = .ok own ∧ own.append {} = e := by
  rw [ofText_eq, readAll_quoteTemplate, ofTokens]
  constructor
  · intro ok
    obtain ⟨_, nested, ok⟩ := bind_eq_ok.mp ok
    obtain rfl := Except.ok.inj nested
    obtain ⟨own, made, ok⟩ := bind_eq_ok.mp ok
    exact ⟨own, made, Except.ok.inj ok⟩
  · rintro ⟨own, made, rfl⟩
    exact bind_eq_ok.mpr ⟨[], rfl, bind_eq_ok.mpr ⟨own, made, rfl⟩⟩

theorem ofText_quoteTemplate_iff [Letters] {s text : Text} :
    (∃ e, ofText (quoteTemplate s) = .ok e ∧ e.text = text) ↔
      ∃ e, ofLiteral ofText [] ⟨'"', false⟩ (escape s) = .ok e ∧ e.text = text := by
  have same (own : Expression) : (own.append {}).text = own.text := List.append_nil own.text
  constructor
  · rintro ⟨e, ok, rfl⟩
    obtain ⟨own, made, rfl⟩ := ofText_quoteTemplate_eq_ok_iff.mp ok
    exact ⟨own, made, (same own).symm⟩
  · rintro ⟨own, made, rfl⟩
    exact ⟨own.append {}, ofText_quoteTemplate_eq_ok_iff.mpr ⟨own, made, rfl⟩, same own⟩

/-- A string in double quotes with placeholders is accepted if its placeholders are and none of
them holds a double quote. -/
theorem exists_fill {inner : Text → Except Fault Expression} {quote : Char}
    {segments : List Segment}
    (accepted : ∀ expr spec, Segment.placeholder expr spec ∈ segments →
      ∃ e, inner expr = .ok e ∧ quote ∉ e.text) :
    ∃ e, fill inner quote segments = .ok e := by
  induction segments with
  | nil => exact ⟨_, rfl⟩
  | cons segment rest ih =>
    obtain ⟨more, later⟩ := ih fun expr spec mem => accepted expr spec (List.mem_cons_of_mem _ mem)
    cases segment with
    | literal text => exact ⟨_, bind_eq_ok.mpr ⟨more, later, rfl⟩⟩
    | placeholder expr spec =>
      obtain ⟨e, read, free⟩ := accepted expr spec List.mem_cons_self
      have noClash : ¬ e.text.contains quote = true := by simpa using free
      refine ⟨({ e with text := '{' :: e.text ++ spec ++ ['}'] } : Expression).append more, ?_⟩
      refine bind_eq_ok.mpr ⟨e, read, ?_⟩
      rw [if_neg noClash]
      exact bind_eq_ok.mpr ⟨more, later, rfl⟩

end Expression

/-! ## Printing -/

/-- A segment of a printed value, and the segment that says the same between double quotes: literal
text is escaped, an expression is translated, and a format stays. -/
inductive Segment.Printed [Letters] : Segment → Segment → Prop
  | literal (text : Text) : Printed (.literal text) (.literal (Text.escape text))
  | placeholder {expr : Text} {e : Expression} (read : Expression.ofText expr = .ok e)
      (spec : Text) : Printed (.placeholder expr spec) (.placeholder e.text spec)

/-- A segment is printed in one way only. -/
theorem Segment.rightUnique_printed [Letters] : Relator.RightUnique Segment.Printed := by
  intro segment first second print print'
  cases print with
  | literal text =>
    cases print'
    rfl
  | placeholder read spec =>
    cases print' with
    | placeholder read' =>
      rw [read] at read'
      obtain rfl := Except.ok.inj read'
      rfl

namespace Program

open Text Template Expression

/-- A bare template has a placeholder. -/
theorem hasPlaceholders_of_isBareTemplate {raw : Text} {segments : List Segment}
    (bare : isBareTemplate raw = true) (cut : split raw = .ok segments) :
    hasPlaceholders segments = true := by
  cases raw with
  | nil => cases bare
  | cons first rest =>
    rw [isBareTemplate, cut, Bool.and_eq_true] at bare
    exact bare.2

section

variable {node : Node} {raw : Text} {segments : List Segment}

/-- A template without quotes is printed as the string that it makes between double quotes. -/
theorem output_print [Letters] (isPrint : node.role = .print) (given : node.value = some raw)
    (bare : isBareTemplate raw = true) {children : Forest Node} {out : Output} :
    (∃ roots, output node children = .ok (out, roots)) ↔
      ∃ e, ofLiteral ofText [] ⟨'"', false⟩ (escape raw) = .ok e ∧
        out = .line (call "print".toList e.text) := by
  have asValue : printed node = value node.line (quoteTemplate raw) := by
    rw [printed, given]
    exact congrArg (value node.line) (if_pos bare)
  rw [output, isPrint]
  constructor
  · rintro ⟨roots, ok⟩
    obtain ⟨⟨text, found⟩, made, ok⟩ := bind_eq_ok.mp ok
    obtain ⟨rfl, rfl⟩ := Prod.mk.inj (Except.ok.inj ok)
    rw [asValue] at made
    obtain ⟨e, read, rfl⟩ := value_eq_ok made
    obtain ⟨own, made, same⟩ := ofText_quoteTemplate_iff.mp ⟨e, read, rfl⟩
    exact ⟨own, made, by rw [same]⟩
  · rintro ⟨own, made, rfl⟩
    obtain ⟨e, read, same⟩ := ofText_quoteTemplate_iff.mpr ⟨own, made, rfl⟩
    have made : printed node =
        .ok (e.text, e.memberRoots.toList.map fun name => ⟨node.line, name⟩) := by
      rw [asValue, value, Expression.read, read]
      rfl
    exact ⟨_, by rw [made, ← same]; rfl⟩

/-- What is printed: the segments of the value, all of them escaped, with each expression replaced
by its own translation. -/
theorem exists_filled_of_output [Letters] (cut : split raw = .ok segments)
    (has : hasPlaceholders segments = true) {e : Expression}
    (made : ofLiteral ofText [] ⟨'"', false⟩ (escape raw) = .ok e) :
    ∃ filled, e.text = "f\"".toList ++ render filled ++ ['"'] ∧
      List.Forall₂ (Segment.Filled ofText) (segments.map Segment.escape) filled := by
  have escaped := split_escape cut
  rcases ofLiteral_cases made with ⟨plain, _⟩ | ⟨_, others, filled, cutOthers, _, pairs, _, text⟩
  · rw [Token.isTemplate, escaped] at plain
    rw [← hasPlaceholders_escape] at has
    simp [Except.toOption, has, interpolates] at plain
  · rw [escaped] at cutOthers
    obtain rfl := Except.ok.inj cutOthers
    exact ⟨filled, text, pairs⟩

/-- Nothing is escaped in the placeholders. -/
def PlainHoles (segments : List Segment) : Prop :=
  ∀ expr spec, Segment.placeholder expr spec ∈ segments →
    escapable expr = [] ∧ escapable spec = []

theorem plainHoles_cons {segment : Segment} :
    PlainHoles (segment :: segments) ↔ PlainHoles [segment] ∧ PlainHoles segments := by
  constructor
  · intro plain
    refine ⟨fun expr spec mem => plain expr spec ?_, fun expr spec mem => plain expr spec ?_⟩
    · exact List.mem_cons.mpr (.inl (List.mem_singleton.mp mem))
    · exact List.mem_cons_of_mem _ mem
  · rintro ⟨own, plain⟩ expr spec mem
    rcases List.mem_cons.mp mem with here | later
    · exact own expr spec (List.mem_singleton.mpr here)
    · exact plain expr spec later

/-- A placeholder is plain if neither its expression nor its format has a character to escape. -/
theorem plainHoles_placeholder_iff {expr spec : Text} :
    PlainHoles [.placeholder expr spec] ↔ escapable expr = [] ∧ escapable spec = [] := by
  simp [PlainHoles]

/-- Each character escaped in a placeholder makes the printed string longer than it should be. -/
theorem length_escapable_printed [Letters] {filled printed : List Segment}
    (fills : List.Forall₂ (Segment.Filled ofText) (segments.map Segment.escape) filled)
    (prints : List.Forall₂ Segment.Printed segments printed) :
    (escapable (render printed)).length ≤ (escapable (render filled)).length ∧
      ((escapable (render filled)).length ≤ (escapable (render printed)).length →
        PlainHoles segments) := by
  induction prints generalizing filled with
  | nil =>
    cases fills
    exact ⟨Nat.le_refl _, fun _ _ _ mem => absurd mem List.not_mem_nil⟩
  | cons print _ ih =>
    obtain ⟨first, later, fill, others, rfl⟩ := List.forall₂_cons_left_iff.mp fills
    obtain ⟨less, plain⟩ := ih others
    rw [plainHoles_cons]
    cases print with
    | literal text =>
      cases fill
      simp only [render, escapable_append, List.length_append]
      refine ⟨by omega, fun more => ⟨?_, plain (by omega)⟩⟩
      simp [PlainHoles]
    | placeholder read spec =>
      cases fill with
      | placeholder readEscaped =>
        rw [escapable_hole, escapable_hole, escapable_ofText read, escapable_ofText readEscaped]
        simp only [List.length_append, length_escapable_escape]
        refine ⟨by omega, fun more => ⟨?_, plain (by omega)⟩⟩
        rw [plainHoles_placeholder_iff, ← List.length_eq_zero_iff, ← List.length_eq_zero_iff]
        omega

theorem PlainHoles.escape_eq_self (plain : PlainHoles segments) {expr spec : Text}
    (mem : Segment.placeholder expr spec ∈ segments) :
    Segment.escape (.placeholder expr spec) = .placeholder expr spec := by
  obtain ⟨plainExpr, plainSpec⟩ := plain expr spec mem
  rw [Segment.escape, Text.escape_eq_self plainExpr, Text.escape_eq_self plainSpec]

/-- Where nothing is escaped in the placeholders, the string says what the value says. -/
theorem printed_iff_filled [Letters] (plain : PlainHoles segments) {filled : List Segment} :
    List.Forall₂ Segment.Printed segments filled ↔
      List.Forall₂ (Segment.Filled ofText) (segments.map Segment.escape) filled := by
  induction segments generalizing filled with
  | nil => rw [List.map_nil, List.forall₂_nil_left_iff, List.forall₂_nil_left_iff]
  | cons segment segments ih =>
    obtain ⟨own, plain⟩ := plainHoles_cons.mp plain
    have same (other : Segment) :
        Segment.Printed segment other ↔ Segment.Filled ofText segment.escape other := by
      cases segment with
      | literal text =>
        constructor
        · rintro ⟨⟩
          exact .literal _
        · rintro ⟨⟩
          exact .literal _
      | placeholder expr spec =>
        rw [own.escape_eq_self List.mem_cons_self]
        constructor
        · rintro (_ | ⟨read, _⟩)
          exact .placeholder read spec
        · rintro (_ | ⟨read, _⟩)
          exact .placeholder read spec
    rw [List.map_cons, List.forall₂_cons_left_iff, List.forall₂_cons_left_iff]
    simp only [same, ih plain]

/-- Escaping changes no placeholder, if all are plain. -/
theorem PlainHoles.mem_map_escape_iff (plain : PlainHoles segments) {expr spec : Text} :
    Segment.placeholder expr spec ∈ segments.map Segment.escape ↔
      Segment.placeholder expr spec ∈ segments := by
  rw [List.mem_map]
  constructor
  · rintro ⟨segment, mem, same⟩
    cases segment with
    | literal text => cases same
    | placeholder expr' spec' =>
      rw [plain.escape_eq_self mem] at same
      rwa [← same]
  · exact fun mem => ⟨_, mem, plain.escape_eq_self mem⟩

/-- A template whose placeholders are plain, and can be read on their own, can be read inside double
quotes. -/
theorem exists_ofLiteral [Letters] (cut : split raw = .ok segments)
    (has : hasPlaceholders segments = true) (plain : PlainHoles segments)
    (accepted : ∀ expr spec, Segment.placeholder expr spec ∈ segments →
      ∃ e, ofText expr = .ok e) :
    ∃ e, ofLiteral ofText [] ⟨'"', false⟩ (escape raw) = .ok e := by
  obtain ⟨whole, filled⟩ : ∃ e, fill ofText '"' (segments.map Segment.escape) = .ok e := by
    refine exists_fill fun expr spec mem => ?_
    rw [plain.mem_map_escape_iff] at mem
    obtain ⟨e, read⟩ := accepted expr spec mem
    refine ⟨e, read, fun quote => ?_⟩
    have among : '"' ∈ escapable e.text := List.mem_filter.mpr ⟨quote, rfl⟩
    rw [escapable_ofText read, (plain expr spec mem).1] at among
    cases among
  rw [← hasPlaceholders_escape] at has
  refine ⟨{ whole with text := "f\"".toList ++ whole.text ++ ['"'] }, ?_⟩
  rw [ofLiteral, split_escape cut, if_pos (show interpolates [] = true from rfl)]
  show (if _ then _ else _) = _
  rw [if_pos has, filled]
  rfl

/-- Calls of the same name are equal only if their arguments are. -/
theorem call_inj {callee s t : Text} (same : call callee s = call callee t) : s = t :=
  List.append_cancel_right (List.cons.inj (List.append_cancel_left
    (show callee ++ '(' :: (s ++ [')']) = callee ++ '(' :: (t ++ [')']) by
      simpa [call] using same))).2

/-- Templates without quotes mean what they say. Where every placeholder of a printed value is
accepted on its own, the value is printed as a string with the same segments, each expression
translated and the literal text escaped, exactly if nothing is escaped in a placeholder and each is
read back. In any case the expression that is translated, and its format, are the escaped ones. -/
theorem output_print_iff [Letters] (isPrint : node.role = .print) (given : node.value = some raw)
    (bare : isBareTemplate raw = true) (cut : split raw = .ok segments)
    (accepted : ∀ expr spec, Segment.placeholder expr spec ∈ segments →
      ∃ e, ofText expr = .ok e) (children : Forest Node) :
    ((∃ body printed roots,
          output node children =
            .ok (.line (call "print".toList ("f\"".toList ++ body ++ ['"'])), roots) ∧
          split body = .ok printed ∧ List.Forall₂ Segment.Printed segments printed) ↔
        ∀ expr spec, Segment.placeholder expr spec ∈ segments →
          (escapable expr = [] ∧ escapable spec = []) ∧ ReadsBack expr spec) ∧
      (∀ out roots, output node children = .ok (out, roots) → ∃ filled,
        out = .line (call "print".toList ("f\"".toList ++ render filled ++ ['"'])) ∧
          List.Forall₂ (Segment.Filled ofText) (segments.map Segment.escape) filled) ∧
      ∀ expr spec, Segment.placeholder expr spec ∈ segments → isSteady expr = true →
        ∀ e, ofText expr = .ok e → IsWhole e.text := by
  have has := hasPlaceholders_of_isBareTemplate bare cut
  have emitted {out : Output} {roots : List MemberRoot}
      (ok : output node children = .ok (out, roots)) : ∃ filled,
      out = .line (call "print".toList ("f\"".toList ++ render filled ++ ['"'])) ∧
        List.Forall₂ (Segment.Filled ofText) (segments.map Segment.escape) filled := by
    obtain ⟨e, made, rfl⟩ := (output_print isPrint given bare).mp ⟨roots, ok⟩
    obtain ⟨filled, text, fills⟩ := exists_filled_of_output cut has made
    exact ⟨filled, by rw [text], fills⟩
  have escapedHas : hasPlaceholders (segments.map Segment.escape) = true := by
    rw [hasPlaceholders_escape, has]
  have back (plain : PlainHoles segments) {filled : List Segment}
      (fills : List.Forall₂ (Segment.Filled ofText) (segments.map Segment.escape) filled) :
      split (render filled) = .ok filled ↔
        ∀ expr spec, Segment.placeholder expr spec ∈ segments → ReadsBack expr spec := by
    rw [(rewriting_of_split (split_escape cut) escapedHas fills).back]
    simp only [plain.mem_map_escape_iff]
  refine ⟨⟨?_, ?_⟩, fun out roots => emitted, ?_⟩
  · rintro ⟨body, printed, roots, ok, cutBody, prints⟩
    obtain ⟨filled, same, fills⟩ := emitted ok
    obtain rfl : body = render filled := by
      have bodies := call_inj (Output.line.inj same)
      rw [List.append_assoc, List.append_assoc] at bodies
      exact List.append_cancel_right (List.append_cancel_left bodies)
    have longer := (length_escapable_printed fills prints).2
    rw [escapable_split cutBody] at longer
    have plain := longer (Nat.le_refl _)
    -- Nothing is escaped in a placeholder, so the string says what the value says.
    have prints' := (printed_iff_filled plain).mpr fills
    obtain rfl : filled = printed :=
      List.right_unique_forall₂' Segment.rightUnique_printed prints' prints
    have reads := (back plain fills).mp cutBody
    exact fun expr spec mem => ⟨plain expr spec mem, reads expr spec mem⟩
  · intro holes
    have plain : PlainHoles segments := fun expr spec mem => (holes expr spec mem).1
    obtain ⟨e, made⟩ := exists_ofLiteral cut has plain accepted
    obtain ⟨filled, text, fills⟩ := exists_filled_of_output cut has made
    obtain ⟨roots, ok⟩ := (output_print isPrint given bare).mpr ⟨e, made, rfl⟩
    refine ⟨render filled, filled, roots, ?_, ?_, (printed_iff_filled plain).mpr fills⟩
    · rw [← text]
      exact ok
    · exact (back plain fills).mpr fun expr spec mem => (holes expr spec mem).2
  · intro expr spec mem steady e read
    obtain ⟨fit, whole⟩ := (normal_split cut has).of_mem mem
    exact whole_ofText fit.trimmed steady read whole

end

/-- A value with double quotes and a backslash in its literal text, and a placeholder with a string
and a format: `Hi "you" \\ {name}, {f('a'):>5}`. -/
theorem output_print_iff_greeting :
    let raw := "Hi \"you\" \\ \x7bname\x7d, \x7bf('a'):>5\x7d".toList
    let node : Node := ⟨.print, .keyed, some "print".toList, some raw, 1⟩
    let segments : List Segment :=
      [.literal "Hi \"you\" \\ ".toList, .placeholder "name".toList [], .literal ", ".toList,
        .placeholder "f('a')".toList ":>5".toList]
    isBareTemplate raw = true ∧ split raw = .ok segments ∧
      ∃ body printed roots,
        output node .nil =
          .ok (.line (call "print".toList ("f\"".toList ++ body ++ ['"'])), roots) ∧
        split body = .ok printed ∧ List.Forall₂ Segment.Printed segments printed := by
  intro raw node segments
  have bare : isBareTemplate raw = true := by decide +kernel
  have cut : split raw = .ok segments := eq_ok_of_toOption (by decide +kernel)
  have holes {P : Text → Text → Prop} (name : P "name".toList [])
      (called : P "f('a')".toList ":>5".toList) :
      ∀ expr spec, Segment.placeholder expr spec ∈ segments → P expr spec := by
    intro expr spec mem
    simp only [segments, List.mem_cons, Segment.placeholder.injEq, reduceCtorEq, false_or,
      List.not_mem_nil, or_false] at mem
    rcases mem with ⟨rfl, rfl⟩ | ⟨rfl, rfl⟩
    · exact name
    · exact called
  have accepts {expr : Text} (some : (ofText expr).toOption.isSome = true) :
      ∃ e, ofText expr = .ok e := by
    obtain ⟨e, read⟩ := Option.isSome_iff_exists.mp some
    exact ⟨e, eq_ok_of_toOption read⟩
  have accepted : ∀ expr spec, Segment.placeholder expr spec ∈ segments →
      ∃ e, ofText expr = .ok e := holes (accepts (by decide +kernel)) (accepts (by decide +kernel))
  obtain ⟨printed, _, whole⟩ :=
    output_print_iff (show node.role = .print from rfl) rfl bare cut accepted .nil
  refine ⟨bare, cut, printed.mpr (holes ?_ ?_)⟩
  · refine ⟨⟨by decide, rfl⟩, by decide, by decide, ?_⟩
    exact whole _ [] (by simp [segments]) (by decide +kernel)
  · refine ⟨⟨by decide, by decide⟩, by decide, by decide, ?_⟩
    exact whole _ ":>5".toList (by simp [segments]) (by decide +kernel)

/-- A placeholder that is printed as another: `print: Hola {'\\n'.join(x)}` prints the placeholder
`'\\\\n'.join(x)`. -/
theorem output_print_doubled :
    let raw := "Hola \x7b'\\n'.join(x)\x7d".toList
    let expr := "'\\n'.join(x)".toList
    let node : Node := ⟨.print, .keyed, some "print".toList, some raw, 1⟩
    isBareTemplate raw = true ∧
      (split raw).toOption = some [.literal "Hola ".toList, .placeholder expr []] ∧
      (ofText expr).toOption.map Expression.text = some expr ∧
      (output node .nil).toOption.map Prod.fst =
        some (.line (call "print".toList "f\"Hola \x7b'\\\\n'.join(x)\x7d\"".toList)) := by
  decide +kernel

end Program
end Outline
