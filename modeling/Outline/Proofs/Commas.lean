import Outline.Program.Data
import Outline.Proofs.Known
import Outline.Proofs.Trailing

/-!
# Texts between commas

Texts that are joined by commas come apart again exactly when none of them has a comma at top level
and all but the last end there (`Text.splitCommas_commas_iff`). What a value becomes ends at top
level, and it has a comma there exactly if the value as written has one, as long as no string of
the value holds one of its own quotes unprotected (`Expression.closed_ofText`,
`Expression.noComma_ofText`): every token but a single character is solid, and a single character
moves the scan over the value as it moves the scan over the expression.
-/

set_option autoImplicit false

namespace Outline

/-! ## Joining and splitting at commas -/

namespace Text

open Program

/-- No comma of a text is at top level of a scan that starts so. -/
def NoCommaFrom (n : Nesting) (s : Text) : Prop :=
  ∀ before after, s = before ++ ',' :: after → (before.foldl Nesting.step n).isTop = false

/-- No comma of a text is at top level. -/
def NoComma (s : Text) : Prop := NoCommaFrom .start s

section

variable {n : Nesting} {s : Text}

theorem noCommaFrom_of_not_mem (free : ',' ∉ s) : NoCommaFrom n s := by
  rintro before after rfl
  simp at free

/-- A text has no comma at top level if its first character is none, and neither is any in the rest.
-/
theorem noCommaFrom_cons {c : Char} :
    NoCommaFrom n (c :: s) ↔ (c = ',' → n.isTop = false) ∧ NoCommaFrom (n.step c) s := by
  constructor
  · intro free
    refine ⟨?_, fun before after split => free (c :: before) after (by rw [split]; rfl)⟩
    rintro rfl
    exact free [] s rfl
  · rintro ⟨own, later⟩ before after split
    cases before with
    | nil => exact own (List.cons.inj split).1
    | cons d before =>
      obtain ⟨rfl, rest⟩ := List.cons.inj split
      exact later before after rest

/-- A text has no comma at top level if neither of its parts has, each met in its place. -/
theorem noCommaFrom_append {t : Text} :
    NoCommaFrom n (s ++ t) ↔ NoCommaFrom n s ∧ NoCommaFrom (s.foldl Nesting.step n) t := by
  induction s generalizing n with
  | nil => exact (and_iff_right (noCommaFrom_of_not_mem List.not_mem_nil)).symm
  | cons c s ih => rw [List.cons_append, noCommaFrom_cons, noCommaFrom_cons, ih, and_assoc]; rfl

end

/-- The search for a comma fails exactly if there is none at top level. -/
theorem cutAt?_eq_none_iff {s : Text} : cutAt? ',' s = none ↔ NoComma s := by
  refine ⟨fun none before after split => cutAtFrom_eq_none rfl none split, fun free => ?_⟩
  cases found : cutAt? ',' s with
  | none => rfl
  | some cut =>
    obtain ⟨split, top, _⟩ := (cutAtFrom_iff rfl).mp found
    cases top.symm.trans (free _ _ split)

/-- The search for a comma finds the first one at top level. -/
theorem cutAt?_eq_some_iff {before after : Text} :
    cutAt? ',' (before ++ ',' :: after) = some (before, after) ↔
      EndsTop before ∧ NoComma before := by
  rw [cutAt?, cutAtFrom_iff rfl]
  exact and_iff_right rfl

theorem trim_cons_blank {b : Char} (blank : isBlank b = true) (s : Text) :
    trim (b :: s) = trim s := by
  rw [trim, trim, trimStart, List.dropWhile_cons_of_pos blank]
  rfl

/-- A blank before a list makes no difference to its elements. -/
theorem splitCommas_cons_blank {b : Char} (blank : isBlank b = true) (s : Text) :
    splitCommas (b :: s) = splitCommas s := by
  have notComma : b ≠ ',' := by
    rintro rfl
    cases blank
  have still : Nesting.start.step b = .start := by
    rw [Nesting.step, Nesting.start, if_pos rfl, Nesting.depthAfter_blank blank, Quoting.step,
      Quoting.isQuote_eq_false_of_isBlank blank]
    rfl
  have cut : cutAt? ',' (b :: s) =
      (cutAt? ',' s).map fun found => (b :: found.1, found.2) := by
    rw [cutAt?, cutAtFrom, if_neg (by simp [notComma]), still, cutAt?]
  rw [splitCommas.eq_def, splitCommas.eq_def s]
  split
  next before after foundCons =>
    rw [cut, Option.map_eq_some_iff] at foundCons
    obtain ⟨⟨before', after'⟩, found, same⟩ := foundCons
    obtain ⟨rfl, rfl⟩ := Prod.mk.inj same
    split
    next other later found' =>
      obtain ⟨rfl, rfl⟩ := Prod.mk.inj (Option.some.inj (found.symm.trans found'))
      rw [trim_cons_blank blank]
    next none => cases found.symm.trans none
  next noneCons =>
    rw [cut, Option.map_eq_none_iff] at noneCons
    split
    next found => cases noneCons.symm.trans found
    next => rw [nonBlank?, nonBlank?, trim_cons_blank blank]

/-- A list with a comma has the element before it, trimmed, and those behind it. -/
theorem splitCommas_of_cutAt {s before after : Text} (found : cutAt? ',' s = some (before, after)) :
    splitCommas s = trim before :: splitCommas after := by
  rw [splitCommas.eq_def]
  split
  next found' =>
    obtain ⟨rfl, rfl⟩ := Prod.mk.inj (Option.some.inj (found.symm.trans found'))
    rfl
  next none => cases found.symm.trans none

/-- A text without a comma is a list of one element, or of none if it is blank. -/
theorem splitCommas_of_noComma {s : Text} (free : NoComma s) :
    splitCommas s = (nonBlank? s).toList := by
  have none := cutAt?_eq_none_iff.mpr free
  rw [splitCommas.eq_def]
  split
  next found => cases none.symm.trans found
  next => rfl

/-- A text is its only part. -/
theorem splitCommas_eq_singleton_iff {s : Text} :
    splitCommas s = [s] ↔ Trimmed s ∧ NoComma s ∧ s ≠ [] := by
  constructor
  · intro split
    cases found : cutAt? ',' s with
    | none =>
      have free := cutAt?_eq_none_iff.mp found
      rw [splitCommas_of_noComma free] at split
      obtain ⟨same, filled⟩ := nonBlank?_eq_some_iff.mp (Option.toList_eq_singleton_iff.mp split)
      exact ⟨same ▸ trimmed_trim s, free, filled⟩
    | some cut =>
      -- A part before a comma is shorter than the text.
      obtain ⟨before, after⟩ := cut
      rw [splitCommas_of_cutAt found] at split
      have whole := congrArg List.length (eq_append_of_cutAt found)
      have part := congrArg List.length (List.cons.inj split).1
      have shorter := length_trim_le before
      simp only [List.length_append, List.length_cons] at whole
      omega
  · rintro ⟨trimmed, free, filled⟩
    rw [splitCommas_of_noComma free, nonBlank?_eq_some_iff.mpr ⟨trim_eq_self trimmed, filled⟩]
    rfl

/-- The first of several parts, and the parts behind its comma. -/
theorem splitCommas_append_iff {first rest : Text} {parts : List Text} (more : parts ≠ []) :
    splitCommas (first ++ ',' :: rest) = first :: parts ↔
      Trimmed first ∧ NoComma first ∧ EndsTop first ∧ splitCommas rest = parts := by
  constructor
  · intro split
    cases found : cutAt? ',' (first ++ ',' :: rest) with
    | none =>
      rw [splitCommas_of_noComma (cutAt?_eq_none_iff.mp found)] at split
      have length := congrArg List.length split
      have few := Option.length_toList_le (o := nonBlank? (first ++ ',' :: rest))
      have many := List.length_pos_iff.mpr more
      simp only [List.length_cons] at length
      omega
    | some cut =>
      obtain ⟨before, after⟩ := cut
      rw [splitCommas_of_cutAt found] at split
      obtain ⟨same, later⟩ := List.cons.inj split
      have whole := eq_append_of_cutAt found
      have isFirst : before = first := by
        by_cases filled : first = []
        · subst filled
          cases before with
          | nil => rfl
          | cons c before =>
            obtain ⟨rfl, _⟩ := List.cons.inj whole
            have comma := trim_eq_nil_iff.mp same ',' List.mem_cons_self
            cases comma
        · refine Template.eq_of_trim_eq same filled whole fun c mem => ?_
          obtain rfl := Option.some.inj mem
          decide
      subst isFirst
      obtain ⟨_, rfl⟩ := List.cons.inj (List.append_cancel_left whole)
      obtain ⟨top, free⟩ := cutAt?_eq_some_iff.mp found
      exact ⟨same ▸ trimmed_trim before, free, top, later⟩
  · rintro ⟨trimmed, free, top, later⟩
    rw [splitCommas_of_cutAt (cutAt?_eq_some_iff.mpr ⟨top, free⟩), trim_eq_self trimmed, later]

/-- Texts that come apart again when they are joined by commas. -/
structure Separate (texts : List Text) : Prop where
  trimmed : ∀ text ∈ texts, Trimmed text
  /-- No text has a comma at top level. -/
  whole : ∀ text ∈ texts, NoComma text
  /-- Every text but the last ends at top level. -/
  closed : ∀ text ∈ texts.dropLast, EndsTop text
  /-- A last part that is blank would not count. -/
  last : texts.getLast? ≠ some []

/-- Texts joined by commas come apart again exactly if they are separate. -/
theorem splitCommas_commas_iff {texts : List Text} :
    splitCommas (commas texts) = texts ↔ Separate texts := by
  induction texts with
  | nil => exact iff_of_true (splitCommas_of_blank rfl) ⟨by simp, by simp, by simp, by simp⟩
  | cons first texts ih =>
    cases texts with
    | nil =>
      rw [show commas [first] = first from List.intercalate_singleton,
        splitCommas_eq_singleton_iff]
      constructor
      · rintro ⟨trimmed, free, filled⟩
        exact ⟨by simpa using trimmed, by simpa using free, by simp, by simpa using filled⟩
      · rintro ⟨trimmed, free, _, filled⟩
        exact ⟨by simpa using trimmed, by simpa using free, by simpa using filled⟩
    | cons second texts =>
      have joined : commas (first :: second :: texts) =
          first ++ ',' :: ' ' :: commas (second :: texts) := by
        rw [commas, List.intercalate_cons_cons, List.append_assoc]
        rfl
      rw [joined, splitCommas_append_iff (List.cons_ne_nil _ _), splitCommas_cons_blank (by decide),
        ih]
      constructor
      · rintro ⟨trimmed, free, top, later⟩
        refine ⟨List.forall_mem_cons.mpr ⟨trimmed, later.trimmed⟩,
          List.forall_mem_cons.mpr ⟨free, later.whole⟩, ?_, ?_⟩
        · rw [List.dropLast_cons_cons]
          exact List.forall_mem_cons.mpr ⟨top, later.closed⟩
        · rw [List.getLast?_cons_cons]
          exact later.last
      · rintro ⟨trimmed, free, closed, last⟩
        rw [List.dropLast_cons_cons] at closed
        rw [List.getLast?_cons_cons] at last
        obtain ⟨trimmedFirst, trimmedLater⟩ := List.forall_mem_cons.mp trimmed
        obtain ⟨freeFirst, freeLater⟩ := List.forall_mem_cons.mp free
        obtain ⟨top, closedLater⟩ := List.forall_mem_cons.mp closed
        exact ⟨trimmedFirst, freeFirst, top, trimmedLater, freeLater, closedLater, last⟩

/-! ## Texts that end where they start -/

/-- A scan comes out of the text where it went in, whatever brackets are open around it. -/
def Closed (s : Text) : Prop :=
  ∀ depth, s.foldl Nesting.step ⟨depth, .outside⟩ = ⟨depth, .outside⟩

/-- A closed text leaves no bracket and no string open. -/
theorem Closed.endsTop {s : Text} (closed : Closed s) : EndsTop s := by
  rw [EndsTop, Nesting.start, closed 0]
  rfl

theorem closed_nil : Closed [] := fun _ => rfl

theorem Closed.append {s t : Text} (front : Closed s) (back : Closed t) : Closed (s ++ t) := by
  intro depth
  rw [List.foldl_append, front, back]

theorem step_neutral {c : Char} (neutral : Nesting.isNeutral c = true) (depth : Nat) :
    Nesting.step ⟨depth, .outside⟩ c = ⟨depth, .outside⟩ := by
  simp only [Nesting.isNeutral, Bool.and_eq_true, Bool.not_eq_true'] at neutral
  obtain ⟨⟨noQuote, noOpening⟩, noClosing⟩ := neutral
  simp [Nesting.step, Nesting.depthAfter, Quoting.step, noQuote, noOpening, noClosing]

theorem step_opening {c : Char} (opens : isOpening c = true) (depth : Nat) :
    Nesting.step ⟨depth, .outside⟩ c = ⟨depth + 1, .outside⟩ := by
  have noQuote : isQuote c = false := by
    rcases isOpening_cases opens with rfl | rfl | rfl <;> rfl
  simp [Nesting.step, Nesting.depthAfter, Quoting.step, noQuote, opens]

theorem step_closing {c : Char} (closes : isClosing c = true) (depth : Nat) :
    Nesting.step ⟨depth + 1, .outside⟩ c = ⟨depth, .outside⟩ := by
  have others : isQuote c = false ∧ isOpening c = false := by
    rcases isClosing_cases closes with rfl | rfl | rfl <;> exact ⟨rfl, rfl⟩
  simp [Nesting.step, Nesting.depthAfter, Quoting.step, others, closes]

/-- A text without quotes and brackets is closed. -/
theorem closed_of_neutral {s : Text} (neutral : ∀ c ∈ s, Nesting.isNeutral c = true) :
    Closed s := by
  induction s with
  | nil => exact closed_nil
  | cons c s ih =>
    intro depth
    rw [List.foldl_cons, step_neutral (neutral c List.mem_cons_self)]
    exact ih (fun d mem => neutral d (List.mem_cons_of_mem _ mem)) depth

/-- A closed text in brackets is closed. -/
theorem closed_bracketed {opening closing : Char} (opens : isOpening opening = true)
    (closes : isClosing closing = true) {s : Text} (closed : Closed s) :
    Closed (opening :: s ++ [closing]) := by
  intro depth
  rw [List.cons_append, List.foldl_cons, step_opening opens, List.foldl_append, closed,
    List.foldl_cons, step_closing closes, List.foldl_nil]

section

variable {d : Delimiter}

/-- Quotes open and close no brackets. -/
theorem foldl_step_quotes (quote : isQuote d.quote = true) (depth : Nat) (quoting : Quoting) :
    d.text.foldl Nesting.step ⟨depth, quoting⟩ = ⟨depth, d.text.foldl Quoting.step quoting⟩ := by
  have noBracket : Nesting.depthAfter depth d.quote = depth := by
    simp only [isQuote, Bool.or_eq_true, beq_iff_eq] at quote
    rcases quote with same | same <;> (rw [same]; rfl)
  rw [Delimiter.text_eq]
  generalize d.size = count
  induction count generalizing quoting with
  | zero => rfl
  | succ count ih =>
    rw [List.replicate_succ, List.foldl_cons, List.foldl_cons, Nesting.step]
    simp only [noBracket, ite_self]
    exact ih _

/-- Nothing in the body of a string opens or closes a bracket. -/
theorem foldl_step_body {state last : BodyState} {body : Text}
    (passed : d.single.scan state body = some last) (fresh : state.run = 0) (depth : Nat) :
    body.foldl Nesting.step ⟨depth, state.quoting d.quote⟩ = ⟨depth, last.quoting d.quote⟩ := by
  induction body generalizing state with
  | nil =>
    obtain rfl := Option.some.inj passed
    rfl
  | cons c body ih =>
    obtain ⟨next, moved, later⟩ := Option.bind_eq_some_iff.mp passed
    obtain ⟨goes, still⟩ := BodyState.step_quoting moved fresh
    rw [List.foldl_cons, Nesting.step, if_neg (BodyState.quoting_ne_outside d.quote state), goes]
    exact ih later still

/-- A string that holds none of its own quotes unprotected is closed. -/
theorem closed_string (quote : isQuote d.quote = true) {body : Text}
    (keeps : d.single.Keeps body) : Closed (d.text ++ body ++ d.text) := by
  intro depth
  have inside : body.foldl Nesting.step ⟨depth, .inside d.quote⟩ = ⟨depth, .inside d.quote⟩ :=
    foldl_step_body keeps rfl depth
  rw [List.foldl_append, List.foldl_append, foldl_step_quotes quote depth .outside,
    foldl_delimiter_outside quote, inside, foldl_step_quotes quote, foldl_delimiter_inside quote]

end

/-! ## Texts without a comma at top level, whatever is around them -/

/-- A scan that starts below more brackets stays below at least as many, and sees the same strings.
-/
theorem foldl_step_le {low high : Nat} (le : low ≤ high) (quoting : Quoting) (s : Text) :
    (s.foldl Nesting.step ⟨low, quoting⟩).depth ≤ (s.foldl Nesting.step ⟨high, quoting⟩).depth ∧
      (s.foldl Nesting.step ⟨low, quoting⟩).quoting =
        (s.foldl Nesting.step ⟨high, quoting⟩).quoting := by
  induction s generalizing low high quoting with
  | nil => exact ⟨le, rfl⟩
  | cons c s ih =>
    have depths : Nesting.depthAfter low c ≤ Nesting.depthAfter high c := by
      rw [Nesting.depthAfter, Nesting.depthAfter]
      split
      · omega
      · split <;> omega
    refine ih ?_ (quoting.step c)
    show (if quoting = .outside then _ else low) ≤ if quoting = .outside then _ else high
    split
    · exact depths
    · exact le

/-- A closed text stays within the brackets around it: a scan that came out of them would not find
its way back. -/
theorem Closed.noCommaFrom {s : Text} (closed : Closed s) (depth : Nat) :
    NoCommaFrom ⟨depth + 1, .outside⟩ s := by
  intro before after split
  rw [← Bool.not_eq_true]
  intro top
  have high := Nesting.eq_start_of_isTop top
  have low : before.foldl Nesting.step ⟨0, .outside⟩ = .start := by
    obtain ⟨le, same⟩ := foldl_step_le (Nat.zero_le (depth + 1)) .outside before
    rw [high] at le same
    generalize before.foldl Nesting.step ⟨0, .outside⟩ = state at le same
    obtain ⟨own, quoting⟩ := state
    obtain rfl : own = 0 := Nat.le_zero.mp le
    obtain rfl : quoting = .outside := same
    rfl
  have deep := closed (depth + 1)
  have flat := closed 0
  rw [split, List.foldl_append, high] at deep
  rw [split, List.foldl_append, low, deep] at flat
  cases flat

/-- A text that is closed and has no comma at top level, whatever brackets are open around it. -/
structure Solid (s : Text) : Prop where
  closed : Closed s
  free : ∀ depth, NoCommaFrom ⟨depth, .outside⟩ s

/-- Two solid texts side by side are solid. -/
theorem Solid.append {s t : Text} (front : Solid s) (back : Solid t) : Solid (s ++ t) := by
  refine ⟨front.closed.append back.closed, fun depth => noCommaFrom_append.mpr ?_⟩
  rw [front.closed]
  exact ⟨front.free depth, back.free depth⟩

theorem solid_of_tame {s : Text} (tame : ∀ c ∈ s, Token.isTame c = true) : Solid s := by
  refine ⟨closed_of_neutral fun c mem => Expression.isNeutral_of_isTame (tame c mem), fun _ => ?_⟩
  refine noCommaFrom_of_not_mem fun mem => ?_
  exact absurd (tame ',' mem) (by decide)

/-- A closed text in brackets is solid: its commas are inside the brackets. -/
theorem solid_bracketed {opening closing : Char} (opens : isOpening opening = true)
    (closes : isClosing closing = true) {s : Text} (closed : Closed s) :
    Solid (opening :: s ++ [closing]) := by
  refine ⟨closed_bracketed opens closes closed, fun depth => ?_⟩
  rw [List.cons_append, noCommaFrom_cons, step_opening opens, noCommaFrom_append]
  refine ⟨?_, closed.noCommaFrom depth, noCommaFrom_of_not_mem ?_⟩
  · rintro rfl
    cases opens
  · rw [List.mem_singleton]
    rintro rfl
    cases closes

section

variable {d : Delimiter}

/-- No comma in the body of a string is at top level. -/
theorem noCommaFrom_body {state last : BodyState} {body : Text}
    (passed : d.single.scan state body = some last) (fresh : state.run = 0) (depth : Nat) :
    NoCommaFrom ⟨depth, state.quoting d.quote⟩ body := by
  intro before after split
  subst split
  rw [Delimiter.scan_append] at passed
  obtain ⟨here, front, _⟩ := Option.bind_eq_some_iff.mp passed
  rw [foldl_step_body front fresh]
  simp [Nesting.isTop, BodyState.quoting_ne_outside]

/-- A string is solid, whatever commas it holds. -/
theorem solid_string (quote : isQuote d.quote = true) {body : Text} (keeps : d.single.Keeps body) :
    Solid (d.text ++ body ++ d.text) := by
  have noComma : ',' ∉ d.text := by
    rw [Delimiter.text_eq]
    intro mem
    rw [← List.eq_of_mem_replicate mem] at quote
    cases quote
  refine ⟨closed_string quote keeps, fun depth => ?_⟩
  rw [noCommaFrom_append, noCommaFrom_append, foldl_step_quotes quote,
    foldl_delimiter_outside quote]
  exact ⟨⟨noCommaFrom_of_not_mem noComma, noCommaFrom_body keeps rfl depth⟩,
    noCommaFrom_of_not_mem noComma⟩

end

/-- Blanks around a text do not matter to its commas. -/
theorem noComma_trim (s : Text) : NoComma (trim s) ↔ NoComma s := by
  obtain ⟨lead, tail, split, blankLead, blankTail⟩ := exists_eq_trim_between s
  have noComma {blanks : Text} (blank : ∀ c ∈ blanks, isBlank c = true) : ',' ∉ blanks :=
    comma_not_mem_of_blank (trim_eq_nil_iff.mpr blank)
  have passed : lead.foldl Nesting.step .start = .start :=
    closed_of_neutral (fun c mem => Nesting.isNeutral_of_isBlank (blankLead c mem)) 0
  have whole : NoComma s ↔ NoComma (lead ++ trim s ++ tail) := by rw [← split]
  rw [whole, NoComma, NoComma, noCommaFrom_append, noCommaFrom_append, passed]
  simp only [noCommaFrom_of_not_mem (noComma blankLead), noCommaFrom_of_not_mem (noComma blankTail),
    true_and, and_true]

/-- The strings that a value is read with hold none of their own quotes unprotected. -/
def SimpleStrings (raw : Text) : Prop :=
  ∀ found ∈ (Token.readAll (trim raw)).filterMap Token.string?,
    found.delimiter.single.Keeps found.body

end Text

/-! ## Values -/

namespace Expression

open Text

/-- If a body holds none of its quotes unprotected, neither does the body filled with translations
that do not hold that quote. -/
theorem single_keeps_render {inner : Text → Except Fault Expression} {d : Delimiter} {body : Text}
    {segments filled : List Segment} (quote : isQuote d.quote = true)
    (keeps : d.single.Keeps body) (cut : Template.split body = .ok segments)
    (has : Template.hasPlaceholders segments = true)
    (pairs : List.Forall₂ (Segment.Filled inner) segments filled)
    (free : ∀ expr spec, Segment.placeholder expr spec ∈ filled → d.quote ∉ expr) :
    d.single.Keeps (Template.render filled) := by
  have encloses : d.single.Encloses body [] := ⟨quote, keeps, fun _ _ => by simp⟩
  exact (encloses_render encloses cut has pairs free []).keeps

/-- The call that range sugar stands for is solid: its commas are in parentheses. -/
theorem solid_ofRange [Letters] {sugar : Text} {e : Expression}
    (tame : ∀ c ∈ sugar, Token.isTame c = true) (ok : ofRange sugar = .ok e) : Solid e.text := by
  rw [ofRange] at ok
  split at ok
  next => cases ok
  next bounds found =>
    obtain rfl := Except.ok.inj ok
    have inside : Closed ([',', ' '].intercalate bounds) := by
      refine closed_of_neutral fun c mem => ?_
      rcases mem_intercalate mem with comma | ⟨bound, inBounds, inBound⟩
      · exact List.all_eq_true.mp (by decide : [',', ' '].all Nesting.isNeutral = true) c comma
      · exact isNeutral_of_isTame (tame c (RangeSugar.bounds_subset found bound inBounds inBound))
    have word : Solid "range".toList := solid_of_tame (List.all_eq_true.mp (by decide))
    exact word.append (@solid_bracketed '(' ')' rfl rfl _ inside)

/-- A token is solid, opens no bracket and becomes a solid text, or it is a single character and
stays. -/
theorem solid_ofToken [Letters] {inner : Text → Except Fault Expression} {token : Token}
    {e : Expression} (formed : token.Formed)
    (simple : ∀ found, token.string? = some found → found.delimiter.single.Keeps found.body)
    (made : ofToken inner token = .ok e) :
    ((∀ opened, nest opened token = .ok opened) ∧ Solid token.text ∧ Solid e.text) ∨
      ∃ c, token = .symbol c ∧ e.text = [c] := by
  cases token with
  | word name member =>
    obtain rfl := Except.ok.inj made
    rw [text_ofWord]
    exact .inl ⟨fun _ => rfl, solid_of_tame formed.2,
      solid_of_tame (respell_tame formed.1 formed.2).2⟩
  | range sugar =>
    exact .inl ⟨fun _ => rfl, solid_of_tame formed.2, solid_ofRange formed.2 made⟩
  | literal mark d body =>
    have keeps : d.single.Keeps body := simple _ rfl
    have marked {mark body : Text} (tame : ∀ c ∈ mark, Token.isTame c = true)
        (keeps : d.single.Keeps body) : Solid (mark ++ d.text ++ body ++ d.text) := by
      rw [List.append_assoc mark, List.append_assoc mark]
      exact (solid_of_tame tame).append (solid_string formed.1 keeps)
    refine .inl ⟨fun _ => rfl, marked formed.2 keeps, ?_⟩
    rcases ofLiteral_cases made with ⟨_, text⟩ | ⟨_, segments, filled, cut, has, pairs, free, text⟩
    · rw [text]
      exact marked formed.2 keeps
    · rw [text]
      exact marked (interpolatedMark_tame formed.2)
        (single_keeps_render formed.1 keeps cut has pairs free)
  | unterminated rest => cases made
  | symbol c =>
    obtain rfl := Except.ok.inj made
    exact .inr ⟨c, rfl, rfl⟩
  | _ =>
    obtain rfl := Except.ok.inj made
    exact .inl ⟨fun _ => rfl, solid_of_tame formed.2, solid_of_tame formed.2⟩

/-- The scan counts the brackets that the tokens before have opened. -/
theorem step_nest {opened opened' : List Char} {c : Char} (noQuote : isQuote c = false)
    (nested : nest opened (.symbol c) = .ok opened') (depth : Nat) :
    Nesting.step ⟨opened.length + depth, .outside⟩ c = ⟨opened'.length + depth, .outside⟩ := by
  rw [nest.eq_def] at nested
  dsimp only at nested
  split at nested
  next opens =>
    obtain rfl := Except.ok.inj nested
    rw [step_opening opens, List.length_cons, Nat.add_right_comm]
  next noOpening =>
    split at nested
    next closes =>
      split at nested
      next => cases nested
      next innermost outer =>
        split at nested
        next =>
          obtain rfl := Except.ok.inj nested
          rw [List.length_cons, Nat.add_right_comm, step_closing closes]
        next => cases nested
    next noClosing =>
      obtain rfl := Except.ok.inj nested
      exact step_neutral (by simp [Nesting.isNeutral, noQuote, noOpening, noClosing]) _

/-- The scan over an expression leaves the brackets that its tokens close, and it meets a comma at
top level if it does on the way over the tokens. -/
theorem scan_ofTokens [Letters] {inner : Text → Except Fault Expression} {tokens : List Token}
    {opened : List Char} {e : Expression} (formed : ∀ token ∈ tokens, token.Formed)
    (simple : ∀ found ∈ tokens.filterMap Token.string?, found.delimiter.single.Keeps found.body)
    (ok : ofTokens inner opened tokens = .ok e) (depth : Nat) :
    e.text.foldl Nesting.step ⟨opened.length + depth, .outside⟩ = ⟨depth, .outside⟩ ∧
      (NoCommaFrom ⟨opened.length + depth, .outside⟩ e.text ↔
        NoCommaFrom ⟨opened.length + depth, .outside⟩ (tokens.flatMap Token.text)) := by
  induction tokens generalizing opened e with
  | nil =>
    cases opened with
    | nil =>
      obtain rfl := Except.ok.inj ok
      exact ⟨by rw [List.length_nil, Nat.zero_add]; rfl, Iff.rfl⟩
    | cons innermost outer => cases ok
  | cons token rest ih =>
    rw [ofTokens] at ok
    obtain ⟨opened', nested, ok⟩ := bind_eq_ok.mp ok
    obtain ⟨first, own, ok⟩ := bind_eq_ok.mp ok
    obtain ⟨more, later, ok⟩ := bind_eq_ok.mp ok
    obtain rfl := Except.ok.inj ok
    obtain ⟨formedOwn, formedRest⟩ := List.forall_mem_cons.mp formed
    have simpleOwn (found : Token.Marked) (isString : token.string? = some found) :
        found.delimiter.single.Keeps found.body :=
      simple found (List.mem_filterMap.mpr ⟨token, List.mem_cons_self, isString⟩)
    obtain ⟨leaves, sameCommas⟩ := ih formedRest (fun found mem => by
      obtain ⟨other, isRest, same⟩ := List.mem_filterMap.mp mem
      exact simple found (List.mem_filterMap.mpr ⟨other, List.mem_cons_of_mem _ isRest, same⟩))
      later
    rw [show (first.append more).text = first.text ++ more.text from rfl, List.flatMap_cons,
      List.foldl_append, noCommaFrom_append, noCommaFrom_append]
    rcases solid_ofToken formedOwn simpleOwn own with ⟨passes, before, after⟩ | ⟨c, rfl, text⟩
    · obtain rfl := Except.ok.inj ((passes opened).symm.trans nested)
      rw [after.closed, before.closed]
      exact ⟨leaves, and_congr (iff_of_true (after.free _) (before.free _)) sameCommas⟩
    · have moved := step_nest formedOwn nested depth
      rw [text, Token.text, List.foldl_cons, List.foldl_nil, moved]
      exact ⟨leaves, and_congr_right fun _ => sameCommas⟩

/-- What a value becomes is closed if its strings hold none of their own quotes unprotected. -/
theorem closed_ofText [Letters] {raw : Text} {e : Expression} (simple : SimpleStrings raw)
    (ok : ofText raw = .ok e) : Closed e.text := by
  rw [ofText_eq] at ok
  have formed := Token.formed_readAllFrom false (trim raw)
  intro depth
  have scanned := scan_ofTokens (fun token mem => (formed token mem).1) simple ok depth
  rw [List.length_nil, Nat.zero_add] at scanned
  exact scanned.1

/-- The commas at top level of what such a value becomes are those of the value. -/
theorem noComma_ofText [Letters] {raw : Text} {e : Expression} (simple : SimpleStrings raw)
    (ok : ofText raw = .ok e) : NoComma e.text ↔ NoComma raw := by
  rw [ofText_eq] at ok
  have formed := Token.formed_readAllFrom false (trim raw)
  have scanned := scan_ofTokens (fun token mem => (formed token mem).1) simple ok 0
  rw [Token.text_readAllFrom] at scanned
  exact scanned.2.trans (noComma_trim raw)

/-- Blanks around a value make no difference. -/
theorem ofText_trim [Letters] (raw : Text) : ofText (trim raw) = ofText raw := by
  rw [ofText_eq, ofText_eq, trim_eq_self (trimmed_trim raw)]

/-- What a value becomes has no blanks around it. -/
theorem trimmed_of_ofText [Letters] {raw : Text} {e : Expression} (ok : ofText raw = .ok e) :
    Trimmed e.text :=
  trimmed_ofText (trimmed_trim raw) ((ofText_trim raw).trans ok)

/-- A value becomes nothing only if it is blank. -/
theorem text_eq_nil_iff [Letters] {raw : Text} {e : Expression} (ok : ofText raw = .ok e) :
    e.text = [] ↔ trim raw = [] :=
  (sameEnds_ofText outer_isBlank (trimmed_trim raw) ((ofText_trim raw).trans ok)).1

end Expression
end Outline
