import Outline.Header.Edition
import Outline.Proofs.Scan
import Outline.Proofs.Strings

/-!
# Comment marks inside strings

The scan that looks for a trailing comment takes every quote for the start or the end of a string;
it does not know that three quotes can open one. Inside a string whose body holds none of its own
quotes unprotected it stands inside as well (`BodyState.quoting`), and it leaves such a string as it
entered it. So it can go wrong only behind a quote within a string in three such quotes, and a value
whose comment marks are all inside strings is kept up to there at least
(`Expression.dropComment_of_ofText`).
-/

set_option autoImplicit false

namespace Outline

/-- The delimiter of one quote of the same kind. -/
def Delimiter.single (d : Delimiter) : Delimiter := ⟨d.quote, false⟩

namespace BodyState

/-- Where a scan that knows no triple quotes stands at a place in a string. -/
def quoting (quote : Char) (state : BodyState) : Quoting :=
  if state.escaped then .escaped quote else .inside quote

theorem quoting_ne_outside (quote : Char) (state : BodyState) : state.quoting quote ≠ .outside := by
  rw [quoting]
  split <;> exact Quoting.noConfusion

/-- One step inside a string that one quote ends. -/
theorem step_quoting {d : Delimiter} {state next : BodyState} {c : Char}
    (moved : d.single.step state c = some next) (fresh : state.run = 0) :
    (state.quoting d.quote).step c = next.quoting d.quote ∧ next.run = 0 := by
  rw [Delimiter.step] at moved
  rw [quoting]
  split at moved
  next escaped =>
    obtain rfl := Option.some.inj moved
    rw [if_pos escaped]
    exact ⟨rfl, rfl⟩
  next plain =>
    rw [if_neg plain, Quoting.step]
    split at moved
    next slash =>
      obtain rfl := Option.some.inj moved
      rw [if_pos slash]
      exact ⟨rfl, rfl⟩
    next noSlash =>
      rw [if_neg noSlash]
      split at moved
      next => simp [fresh, Delimiter.size, Delimiter.single] at moved
      next noQuote =>
        obtain rfl := Option.some.inj moved
        rw [if_neg (show ¬ c = d.quote from noQuote)]
        exact ⟨rfl, rfl⟩

end BodyState

namespace Delimiter

/-- A body does not end the string before its end. Then one quote would not end it either, or the
body holds a quote of the same kind, unprotected; the first such quote is meant. -/
theorem scan_single_or {d : Delimiter} {state : BodyState} {body : Text}
    (passed : d.scan state body = some {}) :
    d.single.scan ⟨state.escaped, 0⟩ body = some {} ∨
      ∃ lead tail, body = lead ++ d.quote :: tail ∧
        d.single.scan ⟨state.escaped, 0⟩ lead = some {} := by
  induction body generalizing state with
  | nil =>
    obtain rfl := Option.some.inj passed
    exact .inl rfl
  | cons c body ih =>
    obtain ⟨next, moved, later⟩ := Option.bind_eq_some_iff.mp passed
    -- Unless the quote stands here, both scans move on alike.
    have goesOn (same : d.single.step ⟨state.escaped, 0⟩ c = some ⟨next.escaped, 0⟩) :
        d.single.scan ⟨state.escaped, 0⟩ (c :: body) = some {} ∨
          ∃ lead tail, c :: body = lead ++ d.quote :: tail ∧
            d.single.scan ⟨state.escaped, 0⟩ lead = some {} := by
      have first (s : Text) : d.single.scan ⟨state.escaped, 0⟩ (c :: s) =
          d.single.scan ⟨next.escaped, 0⟩ s := by
        rw [scan_cons, same]
        rfl
      rcases ih later with whole | ⟨lead, tail, rfl, front⟩
      · exact .inl ((first body).trans whole)
      · exact .inr ⟨c :: lead, tail, rfl, (first lead).trans front⟩
    rw [step] at moved
    split at moved
    next escaped =>
      obtain rfl := Option.some.inj moved
      refine goesOn ?_
      rw [step, if_pos escaped]
    next plain =>
      rw [Bool.not_eq_true] at plain
      split at moved
      next slash =>
        obtain rfl := Option.some.inj moved
        refine goesOn ?_
        rw [step, plain, if_neg Bool.false_ne_true, if_pos slash]
      next noSlash =>
        split at moved
        next quote =>
          rw [plain]
          exact .inr ⟨[], body, by rw [quote]; rfl, rfl⟩
        next noQuote =>
          obtain rfl := Option.some.inj moved
          exact goesOn (step_other (d := d.single) noQuote noSlash _)

/-- A body that does not end its string keeps within one quote, or it is in three quotes and holds
one of them. -/
theorem single_keeps_or {d : Delimiter} {body : Text} (keeps : d.Keeps body) :
    d.single.Keeps body ∨
      ∃ lead tail, body = lead ++ d.quote :: tail ∧ d.triple = true ∧ d.single.Keeps lead := by
  cases triple : d.triple with
  | false =>
    obtain ⟨quote, _⟩ := d
    cases triple
    exact .inl keeps
  | true =>
    rcases scan_single_or keeps with whole | ⟨lead, tail, rfl, front⟩
    · exact .inl whole
    · exact .inr ⟨lead, tail, rfl, rfl, front⟩

/-- A quote that nothing protects ends a string of one quote. -/
theorem not_single_keeps {d : Delimiter} (isQuote : Text.isQuote d.quote = true) {lead : Text}
    (front : d.single.Keeps lead) (tail : Text) : ¬ d.single.Keeps (lead ++ d.quote :: tail) := by
  have noSlash : d.single.quote ≠ '\\' := ne_slash isQuote
  have ends : d.single.scan {} (d.single.quote :: tail) = none := scan_delimiter noSlash tail
  intro whole
  rw [Keeps, scan_append, front, Option.bind_some] at whole
  cases ends.symm.trans whole

end Delimiter

namespace Text

/-- The part is a string in three quotes that holds a quote of the same kind, unprotected, and
`before` is the part up to the first one. -/
def Part.HoldsQuote (part : Part) (before : Text) : Prop :=
  ∃ d lead tail, part = .string d (lead ++ d.quote :: tail) ∧ d.triple = true ∧
    d.single.Keeps lead ∧ before = d.text ++ lead ++ [d.quote]

theorem Parted.isQuote_of_mem {rest s : Text} {parts : List Part} (parted : Parted rest s parts)
    {d : Delimiter} {body : Text} (mem : .string d body ∈ parts) : isQuote d.quote = true := by
  induction parted with
  | nil => cases mem
  | char _ _ ih => exact ih ((List.mem_cons.mp mem).resolve_left Part.noConfusion)
  | string encloses _ ih =>
    rcases List.mem_cons.mp mem with same | later
    · obtain ⟨rfl, _⟩ := Part.string.inj same
      exact encloses.isQuote
    · exact ih later

/-! ## The scan for a comment -/

/-- What is dropped, if anything, starts with the mark. -/
theorem dropCommentFrom_cases (quoting : Quoting) (s : Text) :
    dropCommentFrom quoting s = s ∨
      ∃ rest, s = dropCommentFrom quoting s ++ commentMark :: rest := by
  induction s generalizing quoting with
  | nil => exact .inl rfl
  | cons c rest ih =>
    rw [dropCommentFrom]
    split
    next mark => exact .inr ⟨rest, by rw [mark.2]; rfl⟩
    next =>
      rcases ih (quoting.step c) with same | ⟨more, split⟩
      · exact .inl (by rw [same])
      · exact .inr ⟨more, by rw [List.cons_append, ← split]⟩

/-- A character that does not start a comment is kept. -/
theorem dropCommentFrom_cons {quoting : Quoting} {c : Char}
    (kept : quoting = .outside → c ≠ commentMark) (s : Text) :
    dropCommentFrom quoting (c :: s) = c :: dropCommentFrom (quoting.step c) s := by
  rw [dropCommentFrom, if_neg fun mark => kept mark.1 mark.2]

theorem ne_commentMark_of_isQuote {c : Char} (quote : isQuote c = true) : c ≠ commentMark := by
  rintro rfl
  cases quote

theorem dropCommentFrom_replicate {c : Char} (quote : isQuote c = true) (quoting : Quoting)
    (count : Nat) (s : Text) :
    dropCommentFrom quoting (List.replicate count c ++ s) =
      List.replicate count c ++
        dropCommentFrom ((List.replicate count c).foldl Quoting.step quoting) s := by
  induction count generalizing quoting with
  | zero => rfl
  | succ count ih =>
    rw [List.replicate_succ, List.cons_append,
      dropCommentFrom_cons fun _ => ne_commentMark_of_isQuote quote, ih]
    rfl

section

variable {d : Delimiter}

theorem step_quote_outside (quote : isQuote d.quote = true) :
    Quoting.outside.step d.quote = .inside d.quote := if_pos quote

theorem step_quote_inside (quote : isQuote d.quote = true) :
    (Quoting.inside d.quote).step d.quote = .outside := by
  rw [Quoting.step, if_neg (Delimiter.ne_slash quote), if_pos rfl]

/-- Three quotes open, close and open again. -/
theorem foldl_delimiter_outside (quote : isQuote d.quote = true) :
    d.text.foldl Quoting.step .outside = .inside d.quote := by
  rw [Delimiter.text_eq, Delimiter.size]
  split <;> simp [List.replicate_succ, step_quote_outside quote, step_quote_inside quote]

/-- A closing delimiter ends the string. -/
theorem foldl_delimiter_inside (quote : isQuote d.quote = true) :
    d.text.foldl Quoting.step (.inside d.quote) = .outside := by
  rw [Delimiter.text_eq, Delimiter.size]
  split <;> simp [List.replicate_succ, step_quote_outside quote, step_quote_inside quote]

/-- No comment starts in the body of a string. -/
theorem dropCommentFrom_body {state last : BodyState} {body : Text}
    (passed : d.single.scan state body = some last) (fresh : state.run = 0) (s : Text) :
    dropCommentFrom (state.quoting d.quote) (body ++ s) =
      body ++ dropCommentFrom (last.quoting d.quote) s := by
  induction body generalizing state with
  | nil =>
    obtain rfl := Option.some.inj passed
    rfl
  | cons c body ih =>
    obtain ⟨next, moved, later⟩ := Option.bind_eq_some_iff.mp passed
    obtain ⟨goes, still⟩ := BodyState.step_quoting moved fresh
    rw [List.cons_append, dropCommentFrom_cons
      fun outside => absurd outside (BodyState.quoting_ne_outside d.quote state), goes,
      ih later still]
    rfl

/-- The scan gets through a string into its body as far as no quote of its own stands there. -/
theorem dropCommentFrom_opened (quote : isQuote d.quote = true) {lead : Text}
    (keeps : d.single.Keeps lead) (s : Text) :
    dropCommentFrom .outside (d.text ++ lead ++ s) =
      d.text ++ lead ++ dropCommentFrom (.inside d.quote) s := by
  have opened : dropCommentFrom .outside (d.text ++ (lead ++ s)) =
      d.text ++ dropCommentFrom (d.text.foldl Quoting.step .outside) (lead ++ s) :=
    dropCommentFrom_replicate quote _ _ _
  rw [List.append_assoc, opened, foldl_delimiter_outside quote, List.append_assoc]
  exact congrArg (d.text ++ ·) (dropCommentFrom_body keeps rfl s)

end

/-- A text whose comment marks are all in strings is kept whole, or up to a quote that a string in
three such quotes holds. -/
theorem dropCommentFrom_parted {rest s : Text} {parts : List Part} (parted : Parted rest s parts)
    (inside : .char commentMark ∉ parts) :
    dropCommentFrom .outside s = s ∨
      ∃ front part back before, parts = front ++ part :: back ∧ part.HoldsQuote before ∧
        front.flatMap Part.text ++ before <+: dropCommentFrom .outside s := by
  induction parted with
  | nil => exact .inl rfl
  | @char c s parts noQuote _ ih =>
    rw [List.mem_cons, not_or] at inside
    have plain : c ≠ commentMark := fun mark => inside.1 (by rw [mark])
    have still : Quoting.outside.step c = .outside := by rw [Quoting.step, noQuote]; rfl
    rw [dropCommentFrom_cons fun _ => plain, still]
    rcases ih inside.2 with same | ⟨front, part, back, before, rfl, holds, kept⟩
    · exact .inl (by rw [same])
    · exact .inr ⟨_ :: front, part, back, before, rfl, holds, List.cons_prefix_cons.mpr ⟨rfl, kept⟩⟩
  | @string d body s parts encloses _ ih =>
    have quote := encloses.isQuote
    rw [List.mem_cons, not_or] at inside
    rcases Delimiter.single_keeps_or encloses.keeps with keeps | ⟨lead, tail, rfl, triple, keeps⟩
    · have closed : dropCommentFrom (.inside d.quote) (d.text ++ s) =
          d.text ++ dropCommentFrom (d.text.foldl Quoting.step (.inside d.quote)) s :=
        dropCommentFrom_replicate quote _ _ _
      rw [List.append_assoc (d.text ++ body), dropCommentFrom_opened quote keeps, closed,
        foldl_delimiter_inside quote]
      rcases ih inside.2 with same | ⟨front, part, back, before, rfl, holds, kept⟩
      · exact .inl (by rw [same])
      · refine .inr ⟨.string d body :: front, part, back, before, rfl, holds, ?_⟩
        rw [List.flatMap_cons, Part.text, List.append_assoc, List.append_assoc (d.text ++ body)]
        exact (List.prefix_append_right_inj _).mpr ((List.prefix_append_right_inj _).mpr kept)
    · refine .inr ⟨[], _, parts, _, rfl, ⟨d, lead, tail, rfl, triple, keeps, rfl⟩, ?_⟩
      have whole : d.text ++ (lead ++ d.quote :: tail) ++ d.text ++ s =
          d.text ++ lead ++ d.quote :: (tail ++ d.text ++ s) := by simp
      rw [whole, dropCommentFrom_opened quote keeps,
        dropCommentFrom_cons fun outside => Quoting.noConfusion outside]
      simp

end Text

namespace Expression

open Text

/-- A token holds the mark of a comment only within a string. -/
theorem char_commentMark_not_mem_parts {token : Token} (formed : token.Formed)
    (plain : token.string? = none → commentMark ∉ token.text) :
    .char commentMark ∉ token.parts := by
  have unwritten {s : Text} (noMark : commentMark ∉ s) : Part.char commentMark ∉ s.map .char := by
    intro mem
    obtain ⟨c, inText, same⟩ := List.mem_map.mp mem
    exact noMark (Part.char.inj same ▸ inText)
  cases token with
  | literal mark d body =>
    have noMark : commentMark ∉ mark := fun mem => absurd (formed.2 _ mem) (by decide)
    intro mem
    rcases List.mem_append.mp mem with inMark | here
    · exact unwritten noMark inMark
    · cases List.mem_singleton.mp here
  | _ => exact unwritten (plain rfl)

/-- A value that is accepted is cut into the parts of its tokens, with the blanks around them. -/
theorem parted_of_ofText [Letters] {raw : Text} {e : Expression} (ok : ofText raw = .ok e) :
    ∃ lead tail : Text, (∀ c ∈ lead, isBlank c = true) ∧ (∀ c ∈ tail, isBlank c = true) ∧
      Parted [] raw (lead.map .char ++
        ((Token.readAll (trim raw)).flatMap Token.parts ++ tail.map .char)) := by
  obtain ⟨lead, tail, split, blankLead, blankTail⟩ := exists_eq_trim_between raw
  have noQuote {c : Char} := @Quoting.isQuote_eq_false_of_isBlank c
  rw [ofText_eq] at ok
  obtain ⟨_, pairs, _⟩ := parted_ofTokens ok
  have own : Parted (tail ++ []) (trim raw) _ :=
    (Token.parted_readAllFrom (ended_of_rewritten pairs)).of_head fun quote isQuote starts => by
      rw [List.append_nil] at starts
      rw [noQuote (blankTail quote (List.mem_of_head? starts))] at isQuote
      cases isQuote
  have back := own.append (parted_of_noQuote (fun c mem => noQuote (blankTail c mem)) [])
  have parted := (parted_of_noQuote (fun c mem => noQuote (blankLead c mem)) _).append back
  rw [← List.append_assoc, ← split] at parted
  exact ⟨lead, tail, blankLead, blankTail, parted⟩

/-- Comment marks inside the strings of a value are kept. Where a value is accepted and each comment
mark in it is inside a string that it is read with, nothing is dropped unless a string in three
quotes holds a quote of its own kind that no backslash protects. What is dropped then starts with
a mark behind such a quote. -/
theorem dropComment_of_ofText [Letters] {raw : Text} {e : Expression} (ok : ofText raw = .ok e)
    (inside : ∀ token ∈ Token.readAll (trim raw), token.string? = none →
      commentMark ∉ token.text) :
    ∃ parts, Parted [] raw parts ∧
      Part.strings parts =
        ((Token.readAll (trim raw)).filterMap Token.string?).map
          (fun found => (found.delimiter, found.body)) ∧
      ((∀ d body, .string d body ∈ parts → d.single.Keeps body) → dropComment raw = raw) ∧
      (dropComment raw ≠ raw →
        ∃ front part back before rest, parts = front ++ part :: back ∧ part.HoldsQuote before ∧
          raw = dropComment raw ++ commentMark :: rest ∧
          front.flatMap Part.text ++ before <+: dropComment raw) := by
  obtain ⟨lead, tail, blankLead, blankTail, parted⟩ := parted_of_ofText ok
  have unmarked {s : Text} (blank : ∀ c ∈ s, isBlank c = true) :
      Part.char commentMark ∉ s.map .char := by
    intro mem
    obtain ⟨c, inText, same⟩ := List.mem_map.mp mem
    have isBlank := blank c inText
    rw [Part.char.inj same] at isBlank
    cases isBlank
  have kept : Part.char commentMark ∉ lead.map .char ++
      ((Token.readAll (trim raw)).flatMap Token.parts ++ tail.map .char) := by
    intro mem
    rcases List.mem_append.mp mem with inLead | mem
    · exact unmarked blankLead inLead
    rcases List.mem_append.mp mem with mem | inTail
    · obtain ⟨token, inTokens, mem⟩ := List.mem_flatMap.mp mem
      exact char_commentMark_not_mem_parts (Token.formed_readAllFrom false _ token inTokens).1
        (inside token inTokens) mem
    · exact unmarked blankTail inTail
  refine ⟨_, parted, ?_, fun simple => ?_, fun dropped => ?_⟩
  · rw [Token.strings_append, Token.strings_append, Token.strings_chars, Token.strings_chars,
      List.append_nil, List.nil_append]
    exact Token.strings_flatMap_parts _
  · refine (dropCommentFrom_parted parted kept).resolve_right ?_
    rintro ⟨front, part, back, before, whole, ⟨d, lead, tail, rfl, _, keeps, _⟩, _⟩
    have mem : Part.string d (lead ++ d.quote :: tail) ∈ front ++ Part.string d _ :: back :=
      List.mem_append_right _ List.mem_cons_self
    rw [← whole] at mem
    exact Delimiter.not_single_keeps (parted.isQuote_of_mem mem) keeps tail (simple d _ mem)
  · obtain ⟨front, part, back, before, whole, holds, kept⟩ :=
      (dropCommentFrom_parted parted kept).resolve_left dropped
    obtain ⟨rest, ends⟩ := (dropCommentFrom_cases .outside raw).resolve_left dropped
    exact ⟨front, part, back, before, rest, whole, holds, ends, kept⟩

/-- Marks in strings of one and of three quotes, behind a protected quote and behind a quote of the
other kind: `f('#\\'#') + '''"#'''`. -/
theorem dropComment_of_ofText_mixed :
    let raw := "f('#\\'#') + '''\"#'''".toList
    (∀ token ∈ Token.readAll (trim raw), token.string? = none → commentMark ∉ token.text) ∧
      ∃ parts, Parted [] raw parts ∧
        Part.strings parts = [(⟨'\'', false⟩, "#\\'#".toList), (⟨'\'', true⟩, "\"#".toList)] ∧
        dropComment raw = raw := by
  intro raw
  have accepted : (ofText raw).toOption.isSome = true := by decide +kernel
  obtain ⟨e, read⟩ := Option.isSome_iff_exists.mp accepted
  have inside : ∀ token ∈ Token.readAll (trim raw), token.string? = none →
      commentMark ∉ token.text := by decide +kernel
  obtain ⟨parts, parted, strings, kept, _⟩ :=
    dropComment_of_ofText (eq_ok_of_toOption read) inside
  have shown : Part.strings parts =
      [(⟨'\'', false⟩, "#\\'#".toList), (⟨'\'', true⟩, "\"#".toList)] :=
    strings.trans (by decide +kernel)
  refine ⟨inside, parts, parted, shown, kept fun d body mem => ?_⟩
  have among : (d, body) ∈ Part.strings parts := List.mem_filterMap.mpr ⟨_, mem, rfl⟩
  rw [shown] at among
  rcases List.mem_cons.mp among with first | among
  · obtain ⟨rfl, rfl⟩ := Prod.mk.inj first
    rfl
  · obtain ⟨rfl, rfl⟩ := Prod.mk.inj (List.mem_singleton.mp among)
    rfl

/-- The value `'''a'#'''` is accepted, its mark is inside its string, and the string is cut in
two. -/
theorem dropComment_cuts_string :
    let raw := "'''a'#'''".toList
    (ofText raw).toOption.map Expression.text = some raw ∧
      Token.readAll (trim raw) = [.literal [] ⟨'\'', true⟩ "a'#".toList] ∧
      dropComment raw = "'''a'".toList := by
  decide +kernel

end Expression
end Outline
