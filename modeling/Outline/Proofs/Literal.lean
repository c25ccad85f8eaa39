import Outline.Proofs.Interpolation

/-!
# Where a string ends

A string ends at the first delimiter that no backslash protects. `Delimiter.step` follows this
character by character: whether the next one is protected, and how many quotes in a row came before
it. A body is read whole exactly when this scan gets through it and comes out as it went in
(`Token.readBody?_eq_some_iff`). So a string with placeholders is still one string after rewriting:
only expressions change, and these hold no quote that could end the string
(`Expression.encloses_render`).
-/

set_option autoImplicit false

namespace Outline

/-- Where a scan for the end of a string stands. -/
structure BodyState where
  /-- Whether a backslash protects the next character. -/
  escaped : Bool := false
  /-- How many quotes in a row came last. -/
  run : Nat := 0
  deriving DecidableEq, Repr

namespace Delimiter

/-- How many quotes a delimiter is. -/
def size (d : Delimiter) : Nat := if d.triple then 3 else 1

theorem text_eq (d : Delimiter) : d.text = List.replicate d.size d.quote := rfl

/-- The scan for the end of a string moves over one character, unless the string ends with it. -/
def step (d : Delimiter) (state : BodyState) (c : Char) : Option BodyState :=
  if state.escaped then some {}
  else if c = '\\' then some { escaped := true }
  else if c = d.quote then
    if state.run + 1 = d.size then none else some { run := state.run + 1 }
  else some {}

/-- The scan over a text. -/
def scan (d : Delimiter) (state : BodyState) (s : Text) : Option BodyState := s.foldlM d.step state

/-- A body that does not end the string before its end. -/
def Keeps (d : Delimiter) (body : Text) : Prop := d.scan {} body = some {}

@[simp]
theorem scan_nil (d : Delimiter) (state : BodyState) : d.scan state [] = some state := rfl

@[simp]
theorem scan_cons (d : Delimiter) (state : BodyState) (c : Char) (s : Text) :
    d.scan state (c :: s) = (d.step state c).bind fun next => d.scan next s := rfl

/-- The scan for the end of a string goes over one text and then over the other. -/
theorem scan_append (d : Delimiter) (state : BodyState) (s t : Text) :
    d.scan state (s ++ t) = (d.scan state s).bind fun next => d.scan next t :=
  List.foldlM_append

/-- A quote ends the string, or is counted. -/
theorem step_quote {d : Delimiter} (noSlash : d.quote ≠ '\\') (run : Nat) :
    d.step ⟨false, run⟩ d.quote = if run + 1 = d.size then none else some ⟨false, run + 1⟩ := by
  rw [step, if_neg noSlash, if_pos rfl]
  rfl

/-- A delimiter ends the string. -/
theorem scan_delimiter {d : Delimiter} (noSlash : d.quote ≠ '\\') (s : Text) :
    d.scan {} (d.text ++ s) = none := by
  obtain ⟨quote, triple⟩ := d
  cases triple <;> simp [text, step, size, List.replicate_succ, show quote ≠ '\\' from noSlash]

/-- Any character but the quote and the backslash starts the scan anew. -/
theorem step_other {d : Delimiter} {c : Char} (noQuote : c ≠ d.quote) (noSlash : c ≠ '\\')
    (state : BodyState) : d.step state c = some {} := by
  rw [step, if_neg noSlash, if_neg noQuote, ite_self]

/-- A body without quotes and backslashes does not end the string. -/
theorem keeps_of_forall {d : Delimiter} {body : Text}
    (plain : ∀ c ∈ body, c ≠ d.quote ∧ c ≠ '\\') : d.Keeps body := by
  induction body with
  | nil => rfl
  | cons c body ih =>
    obtain ⟨noQuote, noSlash⟩ := plain c List.mem_cons_self
    rw [Keeps, scan_cons, step_other noQuote noSlash]
    exact ih fun d mem => plain d (List.mem_cons_of_mem _ mem)

/-- After some quotes, a body that does not end the string has no more of them than may follow. -/
theorem ne_replicate_append_of_scan {d : Delimiter} (noSlash : d.quote ≠ '\\') {run more : Nat}
    {body : Text} (pending : 0 < run) (few : run < d.size) (enough : d.size ≤ run + more)
    (passed : d.scan ⟨false, run⟩ body = some {}) (rest after : Text) :
    body ++ rest ≠ List.replicate more d.quote ++ after := by
  induction body generalizing run more with
  | nil =>
    have none := congrArg BodyState.run (Option.some.inj passed)
    exact absurd none (Nat.ne_of_gt pending)
  | cons c body ih =>
    cases more with
    | zero => omega
    | succ more =>
      rw [List.replicate_succ, List.cons_append, List.cons_append]
      intro same
      obtain ⟨rfl, tail⟩ := List.cons.inj same
      rw [scan_cons, step_quote noSlash] at passed
      split at passed
      · cases passed
      · exact ih (Nat.succ_pos run) (by omega) (by omega) passed tail

end Delimiter

namespace Token

variable {d : Delimiter}

/-- The body that is read does not end the string before its end, whatever quotes came before that
do not end it with the first ones of the text. -/
theorem scan_of_readBody? (noSlash : d.quote ≠ '\\') {s body after : Text} {run : Nat}
    (read : readBody? d s = some (body, after)) (few : run < d.size)
    (unended : run = 0 ∨ ∀ more, s ≠ List.replicate (d.size - run) d.quote ++ more) :
    d.scan ⟨false, run⟩ body = some {} := by
  fun_induction readBody? d s generalizing body run with
  | case1 => cases read
  | case2 c rest after' closes =>
    obtain ⟨rfl, rfl⟩ := Prod.mk.inj (Option.some.inj read)
    have ends := Text.after?_eq_some_iff.mp closes
    rcases unended with rfl | unended
    · rfl
    · -- All quotes of the delimiter are there, so the last ones of them are.
      refine absurd ?_ (unended (List.replicate run d.quote ++ after'))
      rw [ends, Delimiter.text_eq, ← List.append_assoc, List.replicate_append_replicate]
      congr 2
      omega
  | case3 => cases read
  | case4 e rest _ ih =>
    obtain ⟨⟨inner, after'⟩, later, same⟩ := Option.map_eq_some_iff.mp read
    obtain ⟨rfl, rfl⟩ := Prod.mk.inj same
    show d.scan {} inner = some {}
    exact ih later (Nat.zero_lt_of_lt few) (.inl rfl)
  | case5 c rest none plain ih =>
    obtain ⟨⟨inner, after'⟩, later, same⟩ := Option.map_eq_some_iff.mp read
    obtain ⟨rfl, rfl⟩ := Prod.mk.inj same
    by_cases quote : c = d.quote
    · subst quote
      have fewer : ∀ more, d.quote :: rest ≠ List.replicate (d.size - run) d.quote ++ more := by
        rcases unended with rfl | unended
        · intro more ends
          rw [Nat.sub_zero, ← Delimiter.text_eq, ← Text.after?_eq_some_iff, none] at ends
          cases ends
        · exact unended
      rw [Delimiter.scan_cons, Delimiter.step_quote noSlash]
      split
      next last =>
        refine absurd ?_ (fewer rest)
        rw [show d.size - run = 1 by omega]
        rfl
      next =>
        refine ih later (by omega) (.inr ?_)
        intro more ends
        refine fewer more ?_
        rw [show d.size - run = d.size - (run + 1) + 1 by omega, List.replicate_succ,
          List.cons_append, ← ends]
    · rw [Delimiter.scan_cons, Delimiter.step_other quote plain]
      exact ih later (Nat.zero_lt_of_lt few) (.inl rfl)

theorem size_pos (d : Delimiter) : 0 < d.size := by
  rw [Delimiter.size]
  split <;> decide

theorem after?_delimiter_of_ne {c : Char} (differ : c ≠ d.quote) (s : Text) :
    Text.after? d.text (c :: s) = none := by
  obtain ⟨rest, front⟩ := Expression.head_delimiter d
  rw [front, Text.after?, if_neg (Ne.symm differ)]

theorem readBody?_ends {c : Char} {s after : Text}
    (ends : Text.after? d.text (c :: s) = some after) :
    readBody? d (c :: s) = some ([], after) := by
  rw [readBody?.eq_def]
  simp only [ends]

/-- A backslash and the character behind it belong to the body. -/
theorem readBody?_slash {e : Char} {s : Text}
    (goesOn : Text.after? d.text ('\\' :: e :: s) = none) :
    readBody? d ('\\' :: e :: s) =
      (readBody? d s).map fun found => ('\\' :: e :: found.1, found.2) := by
  rw [readBody?.eq_def]
  simp only [goesOn]
  rfl

theorem readBody?_plain {c : Char} {s : Text} (goesOn : Text.after? d.text (c :: s) = none)
    (noSlash : c ≠ '\\') :
    readBody? d (c :: s) = (readBody? d s).map fun found => (c :: found.1, found.2) := by
  rw [readBody?.eq_def]
  simp only [goesOn, if_neg noSlash]

/-- A body that does not end the string before its end is read up to the delimiter, from its start
or from behind its first character if that is protected. -/
theorem readBody?_of_scan (noSlash : d.quote ≠ '\\') (body after : Text) :
    (∀ run < d.size, d.scan ⟨false, run⟩ body = some {} →
        readBody? d (body ++ d.text ++ after) = some (body, after)) ∧
      (d.scan ⟨true, 0⟩ body = some {} →
        ∃ e rest, body = e :: rest ∧
          readBody? d (rest ++ d.text ++ after) = some (rest, after)) := by
  induction body with
  | nil =>
    refine ⟨?_, fun passed => by cases passed⟩
    intro run few passed
    obtain ⟨rest, front⟩ := Expression.head_delimiter d
    have ends : Text.after? d.text (d.quote :: (rest ++ after)) = some after := by
      rw [Text.after?_eq_some_iff, front, List.cons_append]
    rw [List.nil_append, front, List.cons_append]
    exact readBody?_ends ends
  | cons c body ih =>
    obtain ⟨plain, escaped⟩ := ih
    refine ⟨?_, fun passed => ⟨c, body, rfl, plain 0 (size_pos d) passed⟩⟩
    intro run few passed
    rw [List.cons_append, List.cons_append]
    by_cases quote : c = d.quote
    · subst quote
      rw [Delimiter.scan_cons, Delimiter.step_quote noSlash] at passed
      split at passed
      · cases passed
      next more =>
        have goesOn : Text.after? d.text (d.quote :: (body ++ d.text ++ after)) = none := by
          cases found : Text.after? d.text (d.quote :: (body ++ d.text ++ after)) with
          | none => rfl
          | some rest =>
            have quotes := Text.after?_eq_some_iff.mp found
            rw [Delimiter.text_eq, ← Nat.sub_add_cancel (size_pos d), List.replicate_succ,
              List.cons_append, List.append_assoc] at quotes
            refine absurd (List.cons.inj quotes).2 ?_
            exact Delimiter.ne_replicate_append_of_scan noSlash (Nat.succ_pos run) (by omega)
              (by omega) passed _ rest
        rw [readBody?_plain goesOn noSlash, plain (run + 1) (by omega) passed]
        rfl
    · by_cases slash : c = '\\'
      · subst slash
        obtain ⟨e, rest, rfl, read⟩ := escaped passed
        rw [List.cons_append, List.cons_append, readBody?_slash (after?_delimiter_of_ne quote _),
          read]
        rfl
      · rw [Delimiter.scan_cons, Delimiter.step_other quote slash] at passed
        rw [readBody?_plain (after?_delimiter_of_ne quote _) slash, plain 0 (size_pos d) passed]
        rfl

/-- A string is read whole exactly when its body does not end it before its end. -/
theorem readBody?_eq_some_iff (noSlash : d.quote ≠ '\\') {s body after : Text} :
    readBody? d s = some (body, after) ↔ s = body ++ d.text ++ after ∧ d.Keeps body := by
  constructor
  · intro read
    exact ⟨(text_readBody read).symm, scan_of_readBody? noSlash read (size_pos d) (.inl rfl)⟩
  · rintro ⟨rfl, keeps⟩
    exact (readBody?_of_scan noSlash body after).1 0 (size_pos d) keeps

end Token

/-! ## Whole strings -/

/-- A body between two delimiters, before the text that follows. Two single quotes with nothing
between them are a string unless they are followed by a third one. -/
structure Delimiter.Encloses (d : Delimiter) (body after : Text) : Prop where
  isQuote : Text.isQuote d.quote = true
  keeps : d.Keeps body
  apart : d.triple = false → body = [] → after.head? ≠ some d.quote

namespace Delimiter

variable {d : Delimiter}

/-- What follows a string may go on with anything but a quote. -/
theorem Encloses.append {body after more : Text} (encloses : d.Encloses body after)
    (apart : more.head?.any Text.isQuote = false) : d.Encloses body (after ++ more) where
  isQuote := encloses.isQuote
  keeps := encloses.keeps
  apart single empty := by
    cases after with
    | nil =>
      intro followed
      rw [List.nil_append] at followed
      rw [followed, Option.any_some, encloses.isQuote] at apart
      cases apart
    | cons c after => exact encloses.apart single empty

theorem ne_slash (isQuote : Text.isQuote d.quote = true) : d.quote ≠ '\\' := by
  intro slash
  rw [slash] at isQuote
  cases isQuote

theorem text_of_single (single : d.triple = false) : d.text = [d.quote] := by
  rw [text, single]
  rfl

/-- A body does not start with the quote that would end it. -/
theorem head_ne_quote {c : Char} {body : Text} (isQuote : Text.isQuote d.quote = true)
    (single : d.triple = false) (keeps : d.Keeps (c :: body)) : c ≠ d.quote := by
  rintro rfl
  rw [Keeps, scan_cons, step_quote (ne_slash isQuote), size, single] at keeps
  cases keeps

/-- A string is opened by its own delimiter. -/
theorem ofFront_of_encloses {body after : Text} (encloses : d.Encloses body after) {rest : Text}
    (front : d.quote :: rest = d.text ++ body ++ d.text ++ after) : ofFront d.quote rest = d := by
  obtain ⟨isQuote, keeps, apart⟩ := encloses
  obtain ⟨quote, triple⟩ := d
  cases triple with
  | true =>
    have three : rest = [quote, quote] ++ (body ++ text ⟨quote, true⟩ ++ after) := by
      simpa [text, List.replicate_succ] using front
    rw [ofFront, Text.after?_eq_some_iff.mpr three]
    rfl
  | false =>
    have one : rest = body ++ quote :: after := by
      simpa [text] using front
    subst one
    have other : Text.after? [quote, quote] (body ++ quote :: after) = none := by
      cases body with
      | nil =>
        cases after with
        | nil => simp [Text.after?]
        | cons next after =>
          have differ : next ≠ quote := fun same => apart rfl rfl (same ▸ rfl)
          rw [List.nil_append, Text.after?, if_pos rfl, Text.after?, if_neg differ.symm]
      | cons c body =>
        have differ : c ≠ quote := head_ne_quote isQuote rfl keeps
        rw [List.cons_append, Text.after?, if_neg differ.symm]
    rw [ofFront, other]
    rfl

end Delimiter

/-- What is read as a string: a body between two delimiters. -/
theorem Token.readLiteral_eq_literal_iff {mark body after rest : Text} {quote : Char}
    {d : Delimiter} (isQuote : Text.isQuote quote = true) :
    readLiteral mark quote rest = (.literal mark d body, after) ↔
      quote :: rest = d.text ++ body ++ d.text ++ after ∧ d.Encloses body after := by
  rw [readLiteral]
  constructor
  · intro read
    have whole := text_ofFront quote rest
    split at read
    next body' after' found =>
      obtain ⟨same, rfl⟩ := Prod.mk.inj read
      obtain ⟨_, rfl, rfl⟩ := Token.literal.inj same
      obtain ⟨split, keeps⟩ := (readBody?_eq_some_iff (Delimiter.ne_slash isQuote)).mp found
      rw [split, ← List.append_assoc, ← List.append_assoc] at whole
      refine ⟨whole.symm, isQuote, keeps, ?_⟩
      rintro single rfl followed
      obtain ⟨after, rfl⟩ := List.head?_eq_some_iff.mp followed
      have two : rest = [quote, quote] ++ after := by
        rw [Delimiter.text_of_single single] at whole
        exact (List.cons.inj whole).2.symm
      rw [Delimiter.ofFront, Text.after?_eq_some_iff.mpr two] at single
      cases single
    next => cases (Prod.mk.inj read).1
  · rintro ⟨split, encloses⟩
    obtain rfl : quote = d.quote := by
      obtain ⟨more, front⟩ := Expression.head_delimiter d
      rw [front] at split
      exact (List.cons.inj split).1
    have front := Delimiter.ofFront_of_encloses encloses split
    have behind : (d.quote :: rest).drop d.text.length = body ++ d.text ++ after := by
      rw [split, List.append_assoc, List.append_assoc, List.drop_left, List.append_assoc]
    have read := (readBody?_eq_some_iff (Delimiter.ne_slash isQuote)).mpr ⟨behind, encloses.keeps⟩
    simp only [front, read]

/-- A string that is read stands between two delimiters after its mark. -/
theorem Token.encloses_readLiteral {mark mark' body rest : Text} {quote : Char} {d : Delimiter}
    (isQuote : Text.isQuote quote = true)
    (read : (readLiteral mark quote rest).1 = .literal mark' d body) :
    quote :: rest = d.text ++ body ++ d.text ++ (readLiteral mark quote rest).2 ∧
      d.Encloses body (readLiteral mark quote rest).2 := by
  obtain rfl : mark = mark' := by
    rw [readLiteral] at read
    split at read
    · exact (Token.literal.inj read).1
    · cases read
  exact (readLiteral_eq_literal_iff isQuote).mp (Prod.ext read rfl)

/-! ## Rewritten bodies -/

namespace Delimiter

variable {d : Delimiter}

/-- Wherever the scan gets through a text, it gets through another one and comes out the same. -/
def Imitates (d : Delimiter) (s t : Text) : Prop :=
  ∀ state out, d.scan state s = some out → d.scan state t = some out

theorem imitates_refl (d : Delimiter) (s : Text) : d.Imitates s s := fun _ _ passed => passed

/-- Texts can be imitated part by part. -/
theorem Imitates.append {s s' t t' : Text} (front : d.Imitates s s') (back : d.Imitates t t') :
    d.Imitates (s ++ t) (s' ++ t') := by
  intro state out passed
  rw [scan_append] at passed
  obtain ⟨next, first, later⟩ := Option.bind_eq_some_iff.mp passed
  rw [scan_append, front state next first]
  exact back next out later

/-- The scan forgets where it was at a character that is neither the quote nor a backslash. -/
theorem scan_append_cons {c : Char} (noQuote : c ≠ d.quote) (noSlash : c ≠ '\\') {s : Text}
    {state next : BodyState} (passed : d.scan state s = some next) (t : Text) :
    d.scan state (s ++ c :: t) = d.scan {} t := by
  rw [scan_append, passed]
  show d.scan next (c :: t) = _
  rw [scan_cons, step_other noQuote noSlash]
  rfl

/-- The scan gets through a text without the quote. -/
theorem exists_scan_of_not_mem {s : Text} (free : d.quote ∉ s) (state : BodyState) :
    ∃ next, d.scan state s = some next := by
  induction s generalizing state with
  | nil => exact ⟨state, rfl⟩
  | cons c s ih =>
    have noQuote : c ≠ d.quote := fun same => free (same ▸ List.mem_cons_self)
    have moves : ∃ next, d.step state c = some next := by
      rw [step, if_neg noQuote]
      split
      · exact ⟨_, rfl⟩
      · split <;> exact ⟨_, rfl⟩
    obtain ⟨next, moved⟩ := moves
    obtain ⟨last, passed⟩ := ih (fun mem => free (List.mem_cons_of_mem _ mem)) next
    refine ⟨last, ?_⟩
    rw [scan_cons, moved]
    exact passed

theorem ne_quote (isQuote : Text.isQuote d.quote = true) {c : Char}
    (other : Text.isQuote c = false) : c ≠ d.quote := by
  rintro rfl
  rw [isQuote] at other
  cases other

/-- A brace may be doubled: the scan starts anew behind it. -/
theorem imitates_lone (isQuote : Text.isQuote d.quote = true) : d.Imitates ['}'] ['}', '}'] := by
  intro state out passed
  have brace (state : BodyState) : d.step state '}' = some {} :=
    step_other (ne_quote isQuote rfl) (by decide) state
  rw [scan_cons, brace] at passed
  rw [scan_cons, brace]
  show d.scan {} ['}'] = some out
  rw [scan_cons, brace]
  exact passed

/-- The scan sees no difference between two expressions before a format, if it gets through both:
the mark of the format, or the brace behind it, starts it anew. -/
theorem imitates_hole (isQuote : Text.isQuote d.quote = true) {expr' spec : Text}
    (format : Template.IsSpec spec) (free : d.quote ∉ expr') (expr : Text) :
    d.Imitates ('{' :: (expr ++ spec) ++ ['}']) ('{' :: (expr' ++ spec) ++ ['}']) := by
  have closing (s : Text) (state next : BodyState) (passed : d.scan state s = some next) :
      d.scan state (s ++ ['}']) = some {} :=
    scan_append_cons (ne_quote isQuote rfl) (by decide) passed []
  have opening (s : Text) (state : BodyState) : d.scan state ('{' :: s) = d.scan {} s :=
    scan_append_cons (ne_quote isQuote rfl) (by decide) (scan_nil d state) s
  obtain ⟨next', passed'⟩ := exists_scan_of_not_mem free {}
  intro state out passed
  rw [List.cons_append, opening] at passed ⊢
  rw [scan_append] at passed
  obtain ⟨before, inside, last⟩ := Option.bind_eq_some_iff.mp passed
  have ends : out = {} := by
    rw [scan_cons, step_other (ne_quote isQuote rfl) (by decide)] at last
    exact (Option.some.inj last).symm
  subst ends
  cases spec with
  | nil =>
    rw [List.append_nil]
    exact closing expr' {} next' passed'
  | cons mark rest =>
    have noQuote : mark ≠ d.quote := by
      rcases (format.mark mark rest rfl).1 with rfl | rfl
      · exact ne_quote isQuote rfl
      · exact ne_quote isQuote rfl
    have noSlash : mark ≠ '\\' := by
      rcases (format.mark mark rest rfl).1 with rfl | rfl <;> decide
    rw [scan_append] at inside
    obtain ⟨next, first, later⟩ := Option.bind_eq_some_iff.mp inside
    rw [scan_cons, step_other noQuote noSlash] at later
    refine closing _ {} before ?_
    rw [scan_append_cons noQuote noSlash passed']
    exact later

end Delimiter

namespace Expression

open Template

variable {inner : Text → Except Fault Expression}

/-- Text put before segments stands before the rewritten segments. -/
theorem exists_filled_of_prepend {text : Text} {segments filled : List Segment}
    (pairs : List.Forall₂ (Segment.Filled inner) (prepend text segments) filled) :
    ∃ later, List.Forall₂ (Segment.Filled inner) segments later ∧
      render filled = text ++ render later ∧
      ∀ expr spec, Segment.placeholder expr spec ∈ later →
        Segment.placeholder expr spec ∈ filled := by
  rw [prepend.eq_def] at pairs
  split at pairs
  next => exact ⟨filled, pairs, rfl, fun _ _ mem => mem⟩
  next text more segments _ =>
    obtain ⟨first, later, head, others, rfl⟩ := List.forall₂_cons_left_iff.mp pairs
    cases head
    refine ⟨.literal more :: later, .cons (.literal more) others, ?_, ?_⟩
    · simp only [render, List.append_assoc]
    · intro expr spec mem
      rcases List.mem_cons.mp mem with same | mem
      · cases same
      · exact List.mem_cons_of_mem _ mem
  next =>
    obtain ⟨first, later, head, others, rfl⟩ := List.forall₂_cons_left_iff.mp pairs
    cases head
    exact ⟨later, others, rfl, fun _ _ mem => List.mem_cons_of_mem _ mem⟩

/-- The rewritten body of a string ends the string where the body did. -/
theorem imitates_render {d : Delimiter} (isQuote : Text.isQuote d.quote = true) {body : Text}
    {pieces : List Piece} {filled : List Segment} (read : pieces? body = some pieces)
    (noBlank : pieces.any Piece.isBlank = false)
    (pairs : List.Forall₂ (Segment.Filled inner) (segments pieces) filled)
    (free : ∀ expr spec, Segment.placeholder expr spec ∈ filled → d.quote ∉ expr) :
    d.Imitates body (render filled) := by
  -- Literal text in front is copied, except that a lone brace is doubled.
  have step {text text' rest : Text} {later : List Piece} {filled : List Segment}
      (front : d.Imitates text text')
      (back : ∀ {filled : List Segment},
        List.Forall₂ (Segment.Filled inner) (segments later) filled →
        (∀ expr spec, Segment.placeholder expr spec ∈ filled → d.quote ∉ expr) →
        d.Imitates rest (render filled))
      (pairs : List.Forall₂ (Segment.Filled inner) (prepend text' (segments later)) filled)
      (free : ∀ expr spec, Segment.placeholder expr spec ∈ filled → d.quote ∉ expr) :
      d.Imitates (text ++ rest) (render filled) := by
    obtain ⟨others, pairs, written, mem⟩ := exists_filled_of_prepend pairs
    rw [written]
    exact front.append (back pairs fun expr spec inOthers =>
      free expr spec (mem expr spec inOthers))
  fun_induction pieces? body generalizing pieces filled with
  | case1 =>
    obtain rfl := Option.some.inj read
    cases pairs
    exact d.imitates_refl []
  | case2 rest ih | case3 rest ih =>
    obtain ⟨more, readMore, rfl⟩ := Option.map_eq_some_iff.mp read
    exact step (d.imitates_refl [_, _]) (ih readMore noBlank) pairs free
  | case4 rest _ hole after found ih =>
    obtain ⟨more, readMore, rfl⟩ := Option.map_eq_some_iff.mp read
    rw [List.any_cons, Bool.or_eq_false_iff] at noBlank
    have own : isBlankHole hole = false := noBlank.1
    have joined := eq_append_of_cutAtHoleEnd found
    rw [joined] at found
    rw [segments, if_neg (by rw [own]; decide)] at pairs
    obtain ⟨first, later, head, others, rfl⟩ := List.forall₂_cons_left_iff.mp pairs
    cases head with
    | @placeholder _ e _ spec =>
      have whole : (splitSpec hole).1 ++ (splitSpec hole).2 = hole :=
        splitSpecFrom_append none .start hole
      have front : d.Imitates ('{' :: hole ++ ['}'])
          ('{' :: (e.text ++ (splitSpec hole).2) ++ ['}']) := by
        have format := (fit_of_cut found own).1.format
        have written := Delimiter.imitates_hole isQuote format (free e.text _ List.mem_cons_self)
          (splitSpec hole).1
        rwa [whole] at written
      have back := ih readMore noBlank.2 others fun expr spec mem =>
        free expr spec (List.mem_cons_of_mem _ mem)
      rw [joined]
      simpa [render] using front.append back
  | case5 => cases read
  | case6 rest _ ih =>
    obtain ⟨more, readMore, rfl⟩ := Option.map_eq_some_iff.mp read
    exact step (Delimiter.imitates_lone isQuote) (ih readMore noBlank) pairs free
  | case7 c rest _ _ _ _ ih =>
    obtain ⟨more, readMore, rfl⟩ := Option.map_eq_some_iff.mp read
    exact step (d.imitates_refl [_]) (ih readMore noBlank) pairs free

/-- A filled template with a placeholder is not empty. -/
theorem render_ne_nil {segments filled : List Segment} (has : hasPlaceholders segments = true)
    (pairs : List.Forall₂ (Segment.Filled inner) segments filled) : render filled ≠ [] := by
  induction pairs with
  | nil => cases has
  | cons first _ ih =>
    cases first with
    | literal text =>
      rw [render]
      exact List.append_ne_nil_of_right_ne_nil _ (ih has)
    | placeholder _ spec => simp [render]

/-- A string with placeholders is still a string after rewriting, whatever follows. -/
theorem encloses_render {d : Delimiter} {body after : Text} {segments filled : List Segment}
    (encloses : d.Encloses body after) (cut : split body = .ok segments)
    (has : hasPlaceholders segments = true)
    (pairs : List.Forall₂ (Segment.Filled inner) segments filled)
    (free : ∀ expr spec, Segment.placeholder expr spec ∈ filled → d.quote ∉ expr) (after' : Text) :
    d.Encloses (render filled) after' where
  isQuote := encloses.isQuote
  keeps := by
    obtain ⟨pieces, read, accepted, rfl⟩ := split_eq_ok_iff.mp cut
    rw [has, Bool.and_true] at accepted
    exact imitates_render encloses.isQuote read accepted pairs free _ _ encloses.keeps
  apart _ empty := absurd empty (render_ne_nil has pairs)

end Expression
end Outline
