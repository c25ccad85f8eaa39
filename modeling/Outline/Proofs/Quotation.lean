import Outline.Header.Edition
import Outline.Proofs.Pieces
import Outline.Proofs.Printed

/-!
# Quoted text is one string

A text is quoted by a backslash before each backslash and double quote in it, and a double quote at
either end. Done for one kind after the other, the backslashes come first
(`Text.escape_eq_escapeEach`). What stands between the quotes can be decoded, and it is the only
text that decodes to what was quoted (`Text.decode?_eq_some_iff`). The scan for the end of a string
gets through it and stops nowhere on the way (`Token.readLiteral_of_prefix`), so the quoted text is
one string, no front of it is, and without an opening brace it is read as it stands
(`Expression.quoteTemplate_whole`).
-/

set_option autoImplicit false

namespace Outline

namespace Text

/-! ## Escaping and decoding -/

/-- A text with a backslash before each occurrence of one character. -/
def escapeEach (c : Char) (s : Text) : Text := s.flatMap fun d => if d = c then ['\\', d] else [d]

/-- Escaping in one pass is escaping the backslashes and then the double quotes. -/
theorem escape_eq_escapeEach (s : Text) : escape s = escapeEach '"' (escapeEach '\\' s) := by
  rw [escape, escapeEach, escapeEach, List.flatMap_assoc]
  congr 1
  funext c
  by_cases slash : c = '\\'
  · subst slash
    rfl
  · by_cases quote : c = '"'
    · subst quote
      rfl
    · simp [slash, quote]

-- In the other order the backslash before a quote is escaped as well.
example : escapeEach '\\' (escapeEach '"' ['"']) ≠ escape ['"'] := by decide

/-- What an escaped text stands for, read from left to right: a backslash and a backslash or double
quote behind it stand for the second of them. No other character may follow a backslash, and a
double quote may not stand alone. -/
def decode? : Text → Option Text
  | [] => some []
  | '\\' :: c :: rest => if needsEscape c then (decode? rest).map (c :: ·) else none
  | c :: rest => if needsEscape c then none else (decode? rest).map (c :: ·)

theorem decode?_escaped {c : Char} (needs : needsEscape c = true) (s : Text) :
    decode? ('\\' :: c :: s) = (decode? s).map (c :: ·) := by
  rw [decode?, if_pos needs]

theorem decode?_plain {c : Char} (plain : needsEscape c = false) (s : Text) :
    decode? (c :: s) = (decode? s).map (c :: ·) := by
  rw [decode?]
  · rw [plain]
    rfl
  · rintro d rest rfl
    cases plain

theorem decode?_escape (s : Text) : decode? (escape s) = some s := by
  induction s with
  | nil => rfl
  | cons c s ih =>
    cases needs : needsEscape c with
    | false => rw [escape_cons_plain needs, decode?_plain needs, ih, Option.map_some]
    | true => rw [escape_cons_escaped needs, decode?_escaped needs, ih, Option.map_some]

theorem eq_escape_of_decode? {t s : Text} (decoded : decode? t = some s) : t = escape s := by
  fun_induction decode? t generalizing s with
  | case1 =>
    obtain rfl := Option.some.inj decoded
    rfl
  | case2 c rest needs ih =>
    obtain ⟨more, decodedMore, rfl⟩ := Option.map_eq_some_iff.mp decoded
    rw [escape_cons_escaped needs, ← ih decodedMore]
  | case3 => cases decoded
  | case4 => cases decoded
  | case5 c rest _ plain ih =>
    obtain ⟨more, decodedMore, rfl⟩ := Option.map_eq_some_iff.mp decoded
    rw [escape_cons_plain (by simpa using plain), ← ih decodedMore]

/-- Exactly the escaped texts can be decoded. -/
theorem decode?_eq_some_iff {t s : Text} : decode? t = some s ↔ t = escape s := by
  refine ⟨eq_escape_of_decode?, ?_⟩
  rintro rfl
  exact decode?_escape s

end Text

/-! ## Fronts of a string -/

section

variable {d : Delimiter}

/-- The scan gets through every front of a body. -/
theorem Delimiter.Keeps.exists_scan {body lead : Text} (keeps : d.Keeps body)
    (front : lead <+: body) : ∃ state, d.scan {} lead = some state := by
  obtain ⟨tail, rfl⟩ := front
  rw [Keeps, scan_append] at keeps
  obtain ⟨state, passed, _⟩ := Option.bind_eq_some_iff.mp keeps
  exact ⟨state, passed⟩

namespace Token

/-- No string ends in a text that the scan gets through. -/
theorem readBody?_eq_none_of_scan (noSlash : d.quote ≠ '\\') {s : Text} {state : BodyState}
    (passed : d.scan {} s = some state) : readBody? d s = none := by
  cases read : readBody? d s with
  | none => rfl
  | some found =>
    obtain ⟨body, after⟩ := found
    obtain ⟨rfl, keeps⟩ := (readBody?_eq_some_iff noSlash).mp read
    rw [List.append_assoc, Delimiter.scan_append, keeps, Option.bind_some,
      Delimiter.scan_delimiter noSlash] at passed
    cases passed

/-- A string between two single quotes has not ended at any place in its body. -/
theorem readLiteral_of_prefix {body lead : Text} (isQuote : Text.isQuote d.quote = true)
    (single : d.triple = false) (keeps : d.Keeps body) (front : lead <+: body) (mark : Text) :
    readLiteral mark d.quote lead = (.unterminated (mark ++ d.quote :: lead), []) := by
  -- The body does not start with the quote, so its front does not make the delimiter triple.
  have opened : Delimiter.ofFront d.quote lead = d := by
    have other : Text.after? [d.quote, d.quote] lead = none := by
      cases lead with
      | nil => rfl
      | cons c lead =>
        obtain ⟨tail, rfl⟩ := front
        rw [Text.after?, if_neg (Delimiter.head_ne_quote isQuote single keeps).symm]
    rw [Delimiter.ofFront, other, Option.isSome_none, ← single]
  obtain ⟨state, passed⟩ := keeps.exists_scan front
  have behind : (d.quote :: lead).drop d.text.length = lead := by
    rw [Delimiter.text_of_single single]
    rfl
  have endless := readBody?_eq_none_of_scan (Delimiter.ne_slash isQuote) passed
  simp only [readLiteral, opened, behind, endless]

end Token

end

/-! ## Templates without an opening brace -/

namespace Template

theorem Cut.opening_mem {body inner : Text} {pieces : List Piece} (cut : Cut body pieces)
    (hole : .hole inner ∈ pieces) : '{' ∈ body := by
  induction cut with
  | nil => cases hole
  | char _ _ _ ih | lone _ _ ih =>
    exact List.mem_cons_of_mem _ (ih ((List.mem_cons.mp hole).resolve_left Piece.noConfusion))
  | doubled _ _ ih =>
    have later := ih ((List.mem_cons.mp hole).resolve_left Piece.noConfusion)
    exact List.mem_cons_of_mem _ (List.mem_cons_of_mem _ later)
  | hole => exact List.mem_cons_self

/-- Without an opening brace a template is all literal text. -/
theorem exists_split_of_noOpening {body : Text} (noOpening : '{' ∉ body) :
    ∃ segments, split body = .ok segments ∧ hasPlaceholders segments = false := by
  cases found : split body with
  | error fault =>
    rcases split_eq_error_iff.mp found with ⟨_, _, _, _, rfl, _⟩ | ⟨_, _, cut, _, _, hole, _⟩
    · exact absurd (List.mem_append_right _ List.mem_cons_self) noOpening
    · exact absurd (cut.opening_mem hole) noOpening
  | ok segments =>
    refine ⟨segments, rfl, Bool.eq_false_iff.mpr fun has => ?_⟩
    obtain ⟨pieces, cut, rfl⟩ := split_eq_ok found
    obtain ⟨inner, hole, _⟩ := hasPlaceholders_segments_iff.mp has
    exact noOpening (cut.opening_mem hole)

end Template

/-! ## Quoted text -/

namespace Expression

open Text Template

/-- A string whose body is all literal text is left as written. -/
theorem ofLiteral_of_split {inner : Text → Except Fault Expression} {mark body : Text}
    {d : Delimiter} {segments : List Segment} (cut : split body = .ok segments)
    (none : hasPlaceholders segments = false) :
    ofLiteral inner mark d body = .ok (plain (mark ++ d.text ++ body ++ d.text)) := by
  simp [ofLiteral, cut, none]

theorem ofText_quoteTemplate_of_noOpening [Letters] {s : Text} (noOpening : '{' ∉ s) :
    ofText (quoteTemplate s) = .ok (plain (quoteTemplate s)) := by
  obtain ⟨segments, cut, none⟩ := exists_split_of_noOpening noOpening
  rw [← hasPlaceholders_escape] at none
  have own : ofLiteral ofText [] ⟨'"', false⟩ (escape s) = .ok (plain (quoteTemplate s)) :=
    ofLiteral_of_split (split_escape cut) none
  refine ofText_quoteTemplate_eq_ok_iff.mpr ⟨_, own, ?_⟩
  show plain (quoteTemplate s ++ []) = _
  rw [List.append_nil]

/-- A quoted text is one whole string between two double quotes. The scan from its first quote
reaches the end of the string at its last character, and on no shorter front of it. Its body is the
text with the backslashes and then the double quotes escaped, decodes to the text, and is the only
one to do so. A text without an opening brace is read as the string that it makes. -/
theorem quoteTemplate_whole [Letters] (line : Nat) (s : Text) :
    ∃ rest body, quoteTemplate s = '"' :: rest ∧ rest = body ++ ['"'] ∧
      Token.readLiteral [] '"' rest = (.literal [] ⟨'"', false⟩ body, []) ∧
      (∀ lead, lead <+: rest → lead ≠ rest →
        Token.readLiteral [] '"' lead = (.unterminated ('"' :: lead), [])) ∧
      body = escapeEach '"' (escapeEach '\\' s) ∧
      decode? body = some s ∧ (∀ other, decode? other = some s → other = body) ∧
      ('{' ∉ s → read line (quoteTemplate s) = .ok (plain (quoteTemplate s))) := by
  refine ⟨escape s ++ ['"'], escape s, rfl, rfl, readLiteral_quoteTemplate s, ?_,
    escape_eq_escapeEach s, decode?_eq_some_iff.mpr rfl, fun _ => decode?_eq_some_iff.mp, ?_⟩
  · intro lead front shorter
    have inBody := (List.prefix_concat_iff.mp front).resolve_left shorter
    exact Token.readLiteral_of_prefix (d := ⟨'"', false⟩) rfl rfl (keeps_escape s) inBody []
  · intro noOpening
    rw [read, ofText_quoteTemplate_of_noOpening noOpening]

/-- A text that starts with two quotes, has a backslash before a quote and ends with a backslash.
What is quoted up to the quote in the middle is not yet a string. -/
theorem quoteTemplate_whole_slashes :
    let s := "\"\"a\\\"\x7d\\".toList
    let quoted := "\"\\\"\\\"a\\\\\\\"\x7d\\\\\"".toList
    let lead := "\\\"\\\"a\\\\".toList
    '{' ∉ s ∧ '"' :: lead <+: quoted ∧ '"' :: lead ≠ quoted ∧
      Token.readLiteral [] '"' lead = (.unterminated ('"' :: lead), []) ∧
      read 7 quoted = .ok (plain quoted) := by
  intro s quoted lead
  obtain ⟨rest, body, starts, _, _, fronts, _, _, _, asWritten⟩ := quoteTemplate_whole 7 s
  obtain rfl : quoted.tail = rest := congrArg List.tail starts
  refine ⟨by decide, by decide, by decide, fronts lead (by decide) (by decide), ?_⟩
  exact asWritten (by decide)

end Expression
end Outline
