import Outline.Expression.Template
import Outline.Proofs.Expression
import Outline.Proofs.Written

/-!
# Templates read back

A template is cut into segments, and segments are rendered as a template. When segments are in the
form that a cut gives them (`Template.Normal`), rendering and cutting gives them back exactly when
each placeholder is read back on its own (`Template.split_render_iff`): no brace of a literal ever
joins a brace of a placeholder. What can go wrong inside a placeholder is said by `Returns`.
-/

set_option autoImplicit false

namespace Outline

/-! ## Characters that leave the scan where it is -/

namespace Quoting

/-- A place that a scan without escapes can reach. -/
def Plain : Quoting → Prop
  | .outside => True
  | .inside quote => Text.isQuote quote = true
  | .escaped _ => False

/-- A scan without escapes stays where such a scan can be. -/
theorem Plain.stepPlain {quoting : Quoting} (plain : quoting.Plain) (c : Char) :
    (quoting.stepPlain c).Plain := by
  cases quoting with
  | outside =>
    rw [Quoting.stepPlain]
    split
    next quote => exact quote
    next => trivial
  | inside quote =>
    rw [Quoting.stepPlain]
    split
    · trivial
    · exact plain
  | escaped quote => exact plain.elim

end Quoting

namespace Nesting

/-- A character that is neither a quote nor a bracket. -/
def isNeutral (c : Char) : Bool := !Text.isQuote c && !Text.isOpening c && !Text.isClosing c

theorem isNeutral_of_isBlank {c : Char} (blank : Text.isBlank c = true) : isNeutral c = true := by
  have := Text.eq_false_of_isBlank (p := fun c => !isNeutral c) (by decide) blank
  simpa using this

/-- A character that is neither a quote nor a bracket leaves the scan where it is. -/
theorem stepPlain_neutral {n : Nesting} (plain : n.quoting.Plain) {c : Char}
    (neutral : isNeutral c = true) : n.stepPlain c = n := by
  simp only [isNeutral, Bool.and_eq_true, Bool.not_eq_true'] at neutral
  obtain ⟨⟨noQuote, noOpening⟩, noClosing⟩ := neutral
  obtain ⟨depth, quoting⟩ := n
  cases quoting with
  | outside => simp [stepPlain, Quoting.stepPlain, depthAfter, noQuote, noOpening, noClosing]
  | inside quote =>
    have differ : c ≠ quote := by
      rintro rfl
      rw [show Text.isQuote c = true from plain] at noQuote
      cases noQuote
    simp [stepPlain, Quoting.stepPlain, differ]
  | escaped quote => exact plain.elim

theorem foldl_neutral {n : Nesting} (plain : n.quoting.Plain) {s : Text}
    (neutral : ∀ c ∈ s, isNeutral c = true) : s.foldl stepPlain n = n := by
  induction s with
  | nil => rfl
  | cons c rest ih =>
    rw [List.foldl_cons, stepPlain_neutral plain (neutral c List.mem_cons_self)]
    exact ih fun d mem => neutral d (List.mem_cons_of_mem _ mem)

/-- Over a whole text, a scan without escapes stays where such a scan can be. -/
theorem plain_foldl {n : Nesting} (plain : n.quoting.Plain) (s : Text) :
    (s.foldl stepPlain n).quoting.Plain := by
  induction s generalizing n with
  | nil => exact plain
  | cons c rest ih => exact ih (plain.stepPlain c)

end Nesting

namespace Template

open Nesting

/-! ## Scans that meet nothing -/

/-- Whether a character ends a placeholder when it stands at top level. -/
def endsHole (_ : Option Char) (c : Char) (_ : Option Char) : Bool := c == '}'

/-- Whether a character starts a conversion or format when it stands at top level, between its
neighbours. -/
def startsSpec (previous : Option Char) (c : Char) (next : Option Char) : Bool :=
  next != some '=' && (c == '!' || c == ':' && previous != some '=')

/-- Whether a scan over a text between two neighbours meets nothing at top level where it stops. -/
def avoids (stop : Option Char → Char → Option Char → Bool) :
    (previous : Option Char) → Nesting → Text → (next : Option Char) → Bool
  | _, _, [], _ => true
  | previous, n, c :: rest, next =>
    !(n.isTop && stop previous c (rest.head?.or next)) &&
      avoids stop (some c) (n.stepPlain c) rest next

/-- The character before what follows a text. -/
theorem getLast?_cons_or (c : Char) (s : Text) (previous : Option Char) :
    (c :: s).getLast?.or previous = s.getLast?.or (some c) := by
  rw [List.getLast?_cons]
  cases s.getLast? <;> rfl

section

variable {stop : Option Char → Char → Option Char → Bool}

/-- A scan meets nothing in two texts if it meets nothing in either, each between its neighbours. -/
theorem avoids_append (previous : Option Char) (n : Nesting) (s t : Text) (next : Option Char) :
    avoids stop previous n (s ++ t) next =
      (avoids stop previous n s (t.head?.or next) &&
        avoids stop (s.getLast?.or previous) (s.foldl stepPlain n) t next) := by
  induction s generalizing previous n with
  | nil => simp [avoids]
  | cons c rest ih =>
    rw [List.cons_append, avoids, avoids, ih, List.head?_append, Option.or_assoc,
      getLast?_cons_or, List.foldl_cons, Bool.and_assoc]

/-- A stop that sees its neighbours only as equals signs or not. -/
def SeesEquals (stop : Option Char → Char → Option Char → Bool) : Prop :=
  ∀ previous previous' c next next', (previous = some '=' ↔ previous' = some '=') →
    (next = some '=' ↔ next' = some '=') → stop previous c next = stop previous' c next'

theorem seesEquals_endsHole : SeesEquals endsHole := fun _ _ _ _ _ _ _ => rfl

theorem seesEquals_startsSpec : SeesEquals startsSpec := by
  intro previous previous' c next next' before after
  have same {a b : Option Char} (iff : a = some '=' ↔ b = some '=') :
      (a != some '=') = (b != some '=') := by
    rw [Bool.eq_iff_iff, bne_iff_ne, bne_iff_ne]
    exact not_congr iff
  rw [startsSpec, startsSpec, same before, same after]

/-- What stands around a text matters only where it is an equals sign. -/
theorem avoids_congr (sees : SeesEquals stop) {previous previous' next next' : Option Char}
    (before : previous = some '=' ↔ previous' = some '=')
    (after : next = some '=' ↔ next' = some '=') (n : Nesting) (s : Text) :
    avoids stop previous n s next = avoids stop previous' n s next' := by
  induction s generalizing previous previous' n with
  | nil => rfl
  | cons c rest ih =>
    have behind : rest.head?.or next = some '=' ↔ rest.head?.or next' = some '=' := by
      cases rest with
      | nil => exact after
      | cons d rest => exact Iff.rfl
    rw [avoids, avoids, sees _ _ c _ _ before behind, ih Iff.rfl]

/-- The end of a placeholder is found without regard to what stands around it. -/
theorem avoids_endsHole (previous previous' next next' : Option Char) (n : Nesting) (s : Text) :
    avoids endsHole previous n s next = avoids endsHole previous' n s next' := by
  induction s generalizing previous previous' n with
  | nil => rfl
  | cons c rest ih => rw [avoids, avoids, ih (some c) (some c), endsHole, endsHole]

/-- A placeholder ends at a closing brace if the scan meets no other before and is at top level
there. -/
theorem cutAtHoleEnd?_eq_some_iff {n : Nesting} {s rest : Text} (previous next : Option Char) :
    cutAtHoleEnd? n (s ++ '}' :: rest) = some (s, rest) ↔
      avoids endsHole previous n s next = true ∧ (s.foldl stepPlain n).isTop = true := by
  induction s generalizing n previous with
  | nil =>
    cases top : n.isTop with
    | true => simp [cutAtHoleEnd?, avoids, top]
    | false => simp [cutAtHoleEnd?, avoids, top]
  | cons c s ih =>
    rw [List.cons_append, cutAtHoleEnd?, avoids, endsHole, List.foldl_cons]
    cases stops : n.isTop && c == '}' with
    | true => simp
    | false => simp [← ih (some c)]

theorem splitSpecFrom_cons (previous : Option Char) (n : Nesting) (c : Char) (rest : Text) :
    splitSpecFrom previous n (c :: rest) =
      if n.isTop && startsSpec previous c rest.head? then ([], c :: rest)
      else
        (c :: (splitSpecFrom (some c) (n.stepPlain c) rest).1,
          (splitSpecFrom (some c) (n.stepPlain c) rest).2) := by
  rw [splitSpecFrom, startsSpec, Bool.and_assoc]

/-- The cut between expression and format is where the first format starts at top level. -/
theorem splitSpecFrom_append_iff {previous : Option Char} {n : Nesting} {s t : Text} :
    splitSpecFrom previous n (s ++ t) = (s, t) ↔
      avoids startsSpec previous n s t.head? = true ∧
        ∀ c rest, t = c :: rest → (s.foldl stepPlain n).isTop = true ∧
          startsSpec (s.getLast?.or previous) c rest.head? = true := by
  induction s generalizing previous n with
  | nil =>
    cases t with
    | nil => simp [splitSpecFrom, avoids]
    | cons c rest =>
      rw [List.nil_append, splitSpecFrom_cons]
      cases starts : n.isTop && startsSpec previous c rest.head? with
      | true =>
        rw [Bool.and_eq_true] at starts
        simp [avoids, starts]
      | false =>
        rw [Bool.and_eq_false_iff] at starts
        rcases starts with deep | plain
        · simp [deep]
        · simp [plain]
  | cons c s ih =>
    rw [List.cons_append, splitSpecFrom_cons, avoids, List.head?_append, getLast?_cons_or,
      List.foldl_cons]
    cases starts : n.isTop && startsSpec previous c (s.head?.or t.head?) with
    | true => simp
    | false =>
      rw [Bool.not_false, Bool.true_and, ← ih, if_neg (by decide), Prod.ext_iff, Prod.ext_iff]
      simp

end

/-! ## One placeholder -/

/-- Whether an expression is read to its end between the braces of a placeholder: it holds no end
and no format at top level, and closes what it opens. -/
def IsWhole (expr : Text) : Prop :=
  cutAtHoleEnd? .start (expr ++ ['}']) = some (expr, []) ∧ splitSpec expr = (expr, [])

/-- An expression is whole if the scan over it meets neither an end nor a format, and is at top
level behind it. -/
theorem isWhole_iff {expr : Text} :
    IsWhole expr ↔
      avoids endsHole none .start expr none = true ∧
        avoids startsSpec none .start expr none = true ∧
        (expr.foldl stepPlain .start).isTop = true := by
  have spec := @splitSpecFrom_append_iff none .start expr []
  rw [List.append_nil] at spec
  rw [IsWhole, cutAtHoleEnd?_eq_some_iff none none, splitSpec, spec]
  constructor
  · rintro ⟨⟨ends, top⟩, starts, _⟩
    exact ⟨ends, starts, top⟩
  · rintro ⟨ends, starts, top⟩
    exact ⟨⟨ends, top⟩, starts, fun _ _ none => absurd none.symm (List.cons_ne_nil _ _)⟩

/-- The form of a conversion and format: it starts with its mark, and stays within its
placeholder. -/
structure IsSpec (spec : Text) : Prop where
  mark : ∀ c rest, spec = c :: rest → (c = '!' ∨ c = ':') ∧ rest.head? ≠ some '='
  inside : avoids endsHole none .start spec none = true
  closed : (spec.foldl stepPlain .start).isTop = true

/-- A format and the brace behind it start with ink. -/
theorem IsSpec.ink {spec : Text} (format : IsSpec spec) {rest : Text} :
    ∀ c ∈ (spec ++ '}' :: rest).head?, Text.isBlank c = false := by
  intro c mem
  cases spec with
  | nil =>
    obtain rfl := Option.some.inj mem
    decide
  | cons mark more =>
    obtain rfl := Option.some.inj mem
    rcases (format.mark mark more rfl).1 with rfl | rfl <;> decide

/-- The form of a placeholder: an expression without blanks around it, and a format. -/
structure Fit (expr spec : Text) : Prop where
  trimmed : Text.Trimmed expr
  filled : expr ≠ []
  format : IsSpec spec

/-- Whether a placeholder with an expression and a format is read back as that expression and that
format. -/
structure Returns (expr spec : Text) : Prop where
  /-- The brace of the placeholder is not joined by another. -/
  single : expr.head? ≠ some '{'
  /-- The colon of a format does not follow an equals sign. -/
  apart : ¬ (expr.getLast? = some '=' ∧ spec.head? = some ':')
  /-- The expression is read to its end. -/
  whole : IsWhole expr

/-- A format is found behind an expression unless its colon follows an equals sign. -/
theorem IsSpec.starts_iff {spec : Text} (format : IsSpec spec) {c : Char} {rest : Text}
    (cut : spec = c :: rest) (previous : Option Char) :
    startsSpec previous c rest.head? = true ↔ ¬ (previous = some '=' ∧ spec.head? = some ':') := by
  obtain ⟨kind, unequal⟩ := format.mark c rest cut
  subst cut
  rcases kind with rfl | rfl
  · simp [startsSpec, unequal]
  · simp [startsSpec, unequal]

/-- A placeholder is cut into its expression and its format exactly when the expression is whole and
its end does not join the format. -/
theorem cut_iff {expr spec : Text} (format : IsSpec spec) (rest : Text) :
    (cutAtHoleEnd? .start (expr ++ spec ++ '}' :: rest) = some (expr ++ spec, rest) ∧
        splitSpec (expr ++ spec) = (expr, spec)) ↔
      ¬ (expr.getLast? = some '=' ∧ spec.head? = some ':') ∧ IsWhole expr := by
  have unequal : spec.head? = some '=' ↔ none = some '=' := by
    cases spec with
    | nil => rfl
    | cons c rest =>
      obtain ⟨kind, _⟩ := format.mark c rest rfl
      rcases kind with rfl | rfl <;> simp
  have noSpec := avoids_congr seesEquals_startsSpec (Iff.refl (none = some '=')) unequal .start expr
  rw [cutAtHoleEnd?_eq_some_iff none none, splitSpec, splitSpecFrom_append_iff, isWhole_iff,
    avoids_append, List.foldl_append, noSpec, avoids_endsHole none none _ none,
    avoids_endsHole (expr.getLast?.or none) none none none, Bool.and_eq_true, Option.or_none]
  constructor
  · rintro ⟨⟨⟨ends, _⟩, closed⟩, starts, found⟩
    cases cut : spec with
    | nil =>
      rw [cut] at closed
      exact ⟨by simp, ends, starts, closed⟩
    | cons c more =>
      obtain ⟨top, startsHere⟩ := found c more cut
      rw [format.starts_iff cut] at startsHere
      rw [← cut]
      exact ⟨startsHere, ends, starts, top⟩
  · rintro ⟨apart, ends, starts, top⟩
    rw [eq_start_of_isTop top]
    refine ⟨⟨⟨ends, format.inside⟩, format.closed⟩, starts, ?_⟩
    intro c more cut
    exact ⟨rfl, (format.starts_iff cut _).mpr apart⟩

/-! ## Literal text -/

/-- Text of characters other than braces, and of braces written twice. -/
inductive Spelled : Text → Prop
  | nil : Spelled []
  | char {c : Char} {rest : Text} (noOpening : c ≠ '{') (noClosing : c ≠ '}')
      (spelled : Spelled rest) : Spelled (c :: rest)
  | doubled {brace : Char} {rest : Text} (kind : brace = '{' ∨ brace = '}')
      (spelled : Spelled rest) : Spelled (brace :: brace :: rest)

/-- A character other than a brace is a piece of its own. -/
theorem pieces?_char {c : Char} (noOpening : c ≠ '{') (noClosing : c ≠ '}') (rest : Text) :
    pieces? (c :: rest) = (pieces? rest).map (.char c :: ·) := by
  rw [pieces?] <;> simp_all

/-- A brace written twice is one piece. -/
theorem pieces?_doubled {brace : Char} (kind : brace = '{' ∨ brace = '}') (rest : Text) :
    pieces? (brace :: brace :: rest) = (pieces? rest).map (.doubled brace :: ·) := by
  rcases kind with rfl | rfl <;> rw [pieces?]

/-- An opening brace on its own starts a placeholder, and what follows its end is cut further. -/
theorem pieces?_hole {rest : Text} (single : rest.head? ≠ some '{') :
    pieces? ('{' :: rest) =
      (cutAtHoleEnd? .start rest).bind fun cut => (pieces? cut.2).map (.hole cut.1 :: ·) := by
  rw [pieces?]
  · split
    next found => rw [found]; rfl
    next found => rw [found]; rfl
  · rintro more rfl
    exact single rfl

/-- A closing brace on its own is a piece. -/
theorem pieces?_lone {rest : Text} (single : rest.head? ≠ some '}') :
    pieces? ('}' :: rest) = (pieces? rest).map (.lone :: ·) := by
  rw [pieces?]
  rintro more rfl
  exact single rfl

/-- Literal text is read piece by piece, whatever follows it, and its pieces are joined again. -/
theorem Spelled.exists_pieces {text : Text} (spelled : Spelled text) :
    ∃ front : List Piece, front.any Piece.isBlank = false ∧
      (∀ rest, pieces? (text ++ rest) = (pieces? rest).map (front ++ ·)) ∧
      ∀ pieces, segments (front ++ pieces) = prepend text (segments pieces) := by
  induction spelled with
  | nil =>
    refine ⟨[], rfl, ?_, fun pieces => (prepend_nil _).symm⟩
    intro rest
    cases found : pieces? rest <;> simp [found]
  | @char c rest noOpening noClosing _ ih =>
    obtain ⟨front, noBlank, read, joined⟩ := ih
    refine ⟨.char c :: front, noBlank, ?_, ?_⟩
    · intro more
      rw [List.cons_append, pieces?_char noOpening noClosing, read, Option.map_map]
      rfl
    · intro pieces
      rw [List.cons_append, segments, joined, prepend_append]
      rfl
  | @doubled brace rest kind _ ih =>
    obtain ⟨front, noBlank, read, joined⟩ := ih
    refine ⟨.doubled brace :: front, noBlank, ?_, ?_⟩
    · intro more
      rw [List.cons_append, List.cons_append, pieces?_doubled kind, read, Option.map_map]
      rfl
    · intro pieces
      rw [List.cons_append, segments, joined, prepend_append]
      rfl

/-- Text put before segments starts them with a literal that is not empty. -/
theorem exists_prepend_eq {text : Text} (filled : text ≠ []) (segments : List Segment) :
    ∃ front later, prepend text segments = .literal front :: later ∧ front ≠ [] := by
  cases text with
  | nil => exact absurd rfl filled
  | cons c text =>
    cases segments with
    | nil => exact ⟨c :: text, [], rfl, filled⟩
    | cons segment segments =>
      cases segment with
      | literal more => exact ⟨c :: text ++ more, segments, rfl, by simp⟩
      | placeholder expr spec =>
        exact ⟨c :: text, .placeholder expr spec :: segments, rfl, filled⟩

/-- Pieces make no empty literal at the front. -/
theorem segments_ne_literal_nil (pieces : List Piece) (later : List Segment) :
    segments pieces ≠ .literal [] :: later := by
  have joined {text : Text} (filled : text ≠ []) (rest : List Segment) :
      prepend text rest ≠ .literal [] :: later := by
    obtain ⟨front, _, same, some⟩ := exists_prepend_eq filled rest
    rw [same]
    intro empty
    exact some (Segment.literal.inj (List.cons.inj empty).1)
  cases pieces with
  | nil => exact (List.cons_ne_nil _ _).symm
  | cons piece pieces =>
    cases piece with
    | char c | doubled brace | lone => exact joined (List.cons_ne_nil _ _) _
    | hole inner =>
      rw [segments]
      split
      · exact joined (List.cons_ne_nil _ _) _
      · intro same
        cases (List.cons.inj same).1

/-! ## Segments -/

/-- Segments in the form that a cut gives them: literal text is spelled out, not empty, and never
next to literal text, and the placeholders have a given form. -/
inductive Normal (form : Text → Text → Prop) : List Segment → Prop
  | nil : Normal form []
  | literal {text : Text} {rest : List Segment} (spelled : Spelled text) (filled : text ≠ [])
      (alone : ∀ more later, rest ≠ .literal more :: later) (normal : Normal form rest) :
      Normal form (.literal text :: rest)
  | placeholder {expr spec : Text} {rest : List Segment} (formed : form expr spec)
      (normal : Normal form rest) : Normal form (.placeholder expr spec :: rest)

/-- The placeholders of segments in normal form have the form they are to have. -/
theorem Normal.of_mem {form : Text → Text → Prop} {segments : List Segment}
    (normal : Normal form segments) {expr spec : Text}
    (mem : Segment.placeholder expr spec ∈ segments) : form expr spec := by
  induction normal with
  | nil => cases mem
  | literal _ _ _ _ ih =>
    rcases List.mem_cons.mp mem with same | mem
    · cases same
    · exact ih mem
  | placeholder formed _ ih =>
    rcases List.mem_cons.mp mem with same | mem
    · obtain ⟨rfl, rfl⟩ := Segment.placeholder.inj same
      exact formed
    · exact ih mem

theorem prepend_of_alone {text : Text} {segments : List Segment} (filled : text ≠ [])
    (alone : ∀ more later, segments ≠ .literal more :: later) :
    prepend text segments = .literal text :: segments := by
  cases text with
  | nil => exact absurd rfl filled
  | cons c text =>
    cases segments with
    | nil => rfl
    | cons segment segments =>
      cases segment with
      | literal more => exact absurd rfl (alone more segments)
      | placeholder expr spec => rfl

/-- If a text put before segments stays a segment of its own, the segments are those behind it. -/
theorem eq_of_prepend_eq {text : Text} {segments rest : List Segment}
    (filled : ∀ later, segments ≠ .literal [] :: later)
    (same : prepend text segments = .literal text :: rest) : segments = rest := by
  cases text with
  | nil =>
    rw [prepend_nil] at same
    exact absurd same (filled rest)
  | cons c text =>
    cases segments with
    | nil => exact (List.cons.inj same).2
    | cons segment segments =>
      cases segment with
      | literal more =>
        obtain ⟨joined, _⟩ := List.cons.inj same
        have empty : more = [] := List.self_eq_append_right.mp (Segment.literal.inj joined).symm
        exact absurd (by rw [empty]) (filled segments)
      | placeholder expr spec => exact (List.cons.inj same).2

/-- Placeholders that are read back on their own are read back among the other segments. -/
theorem pieces?_render {template : List Segment} (normal : Normal Fit template)
    (returns : ∀ expr spec, Segment.placeholder expr spec ∈ template → Returns expr spec) :
    ∃ pieces, pieces? (render template) = some pieces ∧ pieces.any Piece.isBlank = false ∧
      segments pieces = template := by
  induction normal with
  | nil => exact ⟨[], by rw [render, pieces?], rfl, rfl⟩
  | @literal text rest spelled filled alone _ ih =>
    obtain ⟨pieces, read, noBlank, joined⟩ :=
      ih fun expr spec mem => returns expr spec (List.mem_cons_of_mem _ mem)
    obtain ⟨front, noBlankFront, readFront, joinedFront⟩ := spelled.exists_pieces
    refine ⟨front ++ pieces, ?_, ?_, ?_⟩
    · rw [render, readFront, read]
      rfl
    · rw [List.any_append, noBlankFront, noBlank]
      rfl
    · rw [joinedFront, joined, prepend_of_alone filled alone]
  | @placeholder expr spec rest fit _ ih =>
    obtain ⟨pieces, read, noBlank, joined⟩ :=
      ih fun expr spec mem => returns expr spec (List.mem_cons_of_mem _ mem)
    have own := returns expr spec List.mem_cons_self
    obtain ⟨cut, parts⟩ := (cut_iff fit.format (render rest)).mpr ⟨own.apart, own.whole⟩
    have notBlank : isBlankHole (expr ++ spec) = false := by
      rw [isBlankHole, parts, Text.trim_eq_self fit.trimmed]
      simpa using fit.filled
    refine ⟨.hole (expr ++ spec) :: pieces, ?_, ?_, ?_⟩
    · have single : (expr ++ spec ++ '}' :: render rest).head? ≠ some '{' := by
        obtain ⟨c, more, rfl⟩ := List.exists_cons_of_ne_nil fit.filled
        exact own.single
      rw [render, List.cons_append, List.cons_append, pieces?_hole single, cut]
      show (pieces? (render rest)).map _ = _
      rw [read]
      rfl
    · rw [List.any_cons, noBlank, Piece.isBlank, notBlank]
      rfl
    · rw [segments, notBlank, parts, Text.trim_eq_self fit.trimmed, joined]
      rfl

/-- A text whose trimmed part is what another starts with is that part, if no blank follows. -/
theorem eq_of_trim_eq {s t u v : Text} (cut : Text.trim s = t) (filled : t ≠ [])
    (whole : t ++ u = s ++ v) (ink : ∀ c ∈ u.head?, Text.isBlank c = false) : s = t := by
  obtain ⟨lead, tail, parts, blankLead, blankTail⟩ := Text.exists_eq_trim_between s
  have front := (Text.trimmed_trim s).front
  rw [cut] at parts front
  rw [parts] at whole
  have noLead : lead = [] := by
    cases lead with
    | nil => rfl
    | cons c lead =>
      obtain ⟨d, more, rfl⟩ := List.exists_cons_of_ne_nil filled
      have same : d = c := (List.cons.inj whole).1
      have blank := blankLead c List.mem_cons_self
      rw [← same, front d rfl] at blank
      cases blank
  subst noLead
  rw [List.nil_append, List.append_assoc] at whole
  have behind := List.append_cancel_left whole
  have noTail : tail = [] := by
    cases tail with
    | nil => rfl
    | cons c tail =>
      have blank := blankTail c List.mem_cons_self
      rw [ink c (by rw [behind]; rfl)] at blank
      cases blank
  rw [parts, noTail, List.nil_append, List.append_nil]

/-- A placeholder that is read back at the front is read back on its own, and what follows it is
what follows it again. -/
theorem returns_of_pieces? {expr spec rest : Text} {pieces : List Piece} {later : List Segment}
    (fit : Fit expr spec) (read : pieces? ('{' :: (expr ++ spec ++ '}' :: rest)) = some pieces)
    (joined : segments pieces = .placeholder expr spec :: later) :
    Returns expr spec ∧ ∃ more, pieces? rest = some more ∧ segments more = later := by
  have literalFirst {text : Text} (filled : text ≠ []) (more : List Segment) :
      prepend text more ≠ .placeholder expr spec :: later := by
    obtain ⟨_, _, same, _⟩ := exists_prepend_eq filled more
    rw [same]
    intro mixed
    cases (List.cons.inj mixed).1
  have single : expr.head? ≠ some '{' := by
    intro brace
    obtain ⟨tail, rfl⟩ := List.head?_eq_some_iff.mp brace
    rw [List.cons_append, List.cons_append, pieces?_doubled (.inl rfl)] at read
    obtain ⟨more, _, rfl⟩ := Option.map_eq_some_iff.mp read
    exact literalFirst (List.cons_ne_nil _ _) _ joined
  have front : (expr ++ spec ++ '}' :: rest).head? ≠ some '{' := by
    obtain ⟨c, tail, rfl⟩ := List.exists_cons_of_ne_nil fit.filled
    exact single
  rw [pieces?_hole front] at read
  obtain ⟨⟨inner, after⟩, cut, read⟩ := Option.bind_eq_some_iff.mp read
  obtain ⟨more, readMore, rfl⟩ := Option.map_eq_some_iff.mp read
  rw [segments] at joined
  split at joined
  · exact absurd joined (literalFirst (List.cons_ne_nil _ _) _)
  · obtain ⟨same, sameLater⟩ := List.cons.inj joined
    obtain ⟨sameExpr, sameSpec⟩ := Segment.placeholder.inj same
    have whole := eq_append_of_cutAtHoleEnd cut
    have parts : (splitSpec inner).1 ++ spec = inner := by
      rw [← sameSpec]
      exact splitSpecFrom_append none .start inner
    -- The expression and the format have no blanks between them that trimming could take away.
    have taken : (splitSpec inner).1 = expr := by
      refine eq_of_trim_eq (u := spec ++ '}' :: rest) (v := spec ++ '}' :: after) sameExpr
        fit.filled ?_ fit.format.ink
      rw [← List.append_assoc, ← List.append_assoc, parts, whole]
    rw [taken] at parts
    subst parts
    obtain rfl : rest = after := (List.cons.inj (List.append_cancel_left whole)).2
    have found := (cut_iff fit.format rest).mp ⟨cut, Prod.ext taken sameSpec⟩
    exact ⟨⟨single, found.1, found.2⟩, more, readMore, sameLater⟩

/-- Segments that are read back have placeholders that are read back on their own. -/
theorem returns_of_segments {template : List Segment} {pieces : List Piece}
    (normal : Normal Fit template) (read : pieces? (render template) = some pieces)
    (joined : segments pieces = template) :
    ∀ expr spec, Segment.placeholder expr spec ∈ template → Returns expr spec := by
  induction normal generalizing pieces with
  | nil =>
    intro expr spec mem
    cases mem
  | @literal text rest spelled filled alone _ ih =>
    obtain ⟨front, _, readFront, joinedFront⟩ := spelled.exists_pieces
    rw [render, readFront] at read
    obtain ⟨more, readMore, rfl⟩ := Option.map_eq_some_iff.mp read
    rw [joinedFront] at joined
    have later := eq_of_prepend_eq (segments_ne_literal_nil more) joined
    intro expr spec mem
    rcases List.mem_cons.mp mem with same | mem
    · cases same
    · exact ih readMore later expr spec mem
  | @placeholder expr spec rest fit _ ih =>
    rw [render, List.cons_append, List.cons_append] at read
    obtain ⟨returns, more, readMore, later⟩ := returns_of_pieces? fit read joined
    intro other otherSpec mem
    rcases List.mem_cons.mp mem with same | mem
    · obtain ⟨rfl, rfl⟩ := Segment.placeholder.inj same
      exact returns
    · exact ih readMore later other otherSpec mem

/-- Rendered segments are cut into the same segments exactly when each placeholder is read back on
its own. -/
theorem split_render_iff {template : List Segment} (normal : Normal Fit template) :
    split (render template) = .ok template ↔
      ∀ expr spec, Segment.placeholder expr spec ∈ template → Returns expr spec := by
  constructor
  · intro ok
    obtain ⟨pieces, read, _, joined⟩ := split_eq_ok_iff.mp ok
    exact returns_of_segments normal read joined
  · intro returns
    obtain ⟨pieces, read, noBlank, joined⟩ := pieces?_render normal returns
    refine split_eq_ok_iff.mpr ⟨pieces, read, ?_, joined⟩
    rw [noBlank, Bool.false_and]

/-! ## The segments of a template -/

/-- The blanks around a text leave the scan where it is. -/
theorem foldl_trim (s : Text) :
    (Text.trim s).foldl stepPlain .start = s.foldl stepPlain .start := by
  obtain ⟨lead, tail, parts, blankLead, blankTail⟩ := Text.exists_eq_trim_between s
  have plain : Nesting.start.quoting.Plain := trivial
  have before : lead.foldl stepPlain .start = .start :=
    foldl_neutral plain fun c mem => isNeutral_of_isBlank (blankLead c mem)
  have after := foldl_neutral (plain_foldl plain (Text.trim s)) (s := tail)
    fun c mem => isNeutral_of_isBlank (blankTail c mem)
  calc
    _ = tail.foldl stepPlain ((Text.trim s).foldl stepPlain .start) := after.symm
    _ = (lead ++ Text.trim s ++ tail).foldl stepPlain .start := by
      rw [List.foldl_append, List.foldl_append, before]
    _ = s.foldl stepPlain .start := by rw [← parts]

/-- A scan that meets nothing meets nothing without the blanks around the text. -/
theorem avoids_trim {stop : Option Char → Char → Option Char → Bool} (sees : SeesEquals stop)
    {s : Text} {next : Option Char} (unequal : next ≠ some '=')
    (clear : avoids stop none .start s next = true) :
    avoids stop none .start (Text.trim s) none = true := by
  obtain ⟨lead, tail, parts, blankLead, blankTail⟩ := Text.exists_eq_trim_between s
  have notEquals {c : Char} (blank : Text.isBlank c = true) : c ≠ '=' := by
    rintro rfl
    exact absurd blank (by decide)
  have behind : tail.head?.or next = some '=' ↔ none = some '=' := by
    cases tail with
    | nil => simpa using unequal
    | cons c tail => simpa using notEquals (blankTail c List.mem_cons_self)
  have ahead : lead.getLast?.or none = some '=' ↔ none = some '=' := by
    rw [Option.or_none]
    constructor
    · intro last
      exact absurd rfl (notEquals (blankLead '=' (List.mem_of_getLast? last)))
    · intro none
      cases none
  have before : lead.foldl stepPlain .start = .start :=
    foldl_neutral (n := .start) trivial fun c mem => isNeutral_of_isBlank (blankLead c mem)
  rw [parts, avoids_append, avoids_append, Bool.and_eq_true, Bool.and_eq_true, before] at clear
  rw [← avoids_congr sees ahead behind]
  exact clear.1.2

/-- What is cut from between two braces has the form of a placeholder, and its expression is
whole. -/
theorem fit_of_cut {inner after : Text}
    (cut : cutAtHoleEnd? .start (inner ++ '}' :: after) = some (inner, after))
    (notBlank : isBlankHole inner = false) :
    Fit (Text.trim (splitSpec inner).1) (splitSpec inner).2 ∧
      IsWhole (Text.trim (splitSpec inner).1) := by
  have filled : Text.trim (splitSpec inner).1 ≠ [] := by
    simpa [isBlankHole] using notBlank
  have joined := splitSpecFrom_append none .start inner
  have parts : splitSpec inner = ((splitSpec inner).1, (splitSpec inner).2) := rfl
  rw [splitSpec] at filled parts ⊢
  generalize (splitSpecFrom none .start inner).1 = expr at *
  generalize (splitSpecFrom none .start inner).2 = spec at *
  subst joined
  obtain ⟨noSpec, found⟩ := splitSpecFrom_append_iff.mp parts
  obtain ⟨noEnd, closed⟩ := (cutAtHoleEnd?_eq_some_iff none none).mp cut
  rw [avoids_append, Bool.and_eq_true] at noEnd
  rw [List.foldl_append] at closed
  -- The expression ends at top level: there its format starts, or the placeholder ends.
  have top : (expr.foldl stepPlain .start).isTop = true := by
    cases spec with
    | nil => exact closed
    | cons c rest => exact (found c rest rfl).1
  rw [eq_start_of_isTop top] at noEnd closed
  have mark : ∀ c rest, spec = c :: rest → (c = '!' ∨ c = ':') ∧ rest.head? ≠ some '=' := by
    intro c rest same
    have starts := (found c rest same).2
    simp only [startsSpec, Bool.and_eq_true, Bool.or_eq_true, bne_iff_ne, beq_iff_eq] at starts
    exact ⟨starts.2.imp_right And.left, starts.1⟩
  have unequal : spec.head? ≠ some '=' := by
    cases spec with
    | nil => simp
    | cons c rest =>
      rcases (mark c rest rfl).1 with rfl | rfl <;> simp
  refine ⟨⟨Text.trimmed_trim expr, filled, mark, ?_, closed⟩, isWhole_iff.mpr ⟨?_, ?_, ?_⟩⟩
  · rw [avoids_endsHole none _ none none]
    exact noEnd.2
  · exact avoids_trim seesEquals_endsHole (by rwa [Option.or_none]) noEnd.1
  · exact avoids_trim seesEquals_startsSpec unequal noSpec
  · rw [foldl_trim]
    exact top

theorem Spelled.append {s t : Text} (front : Spelled s) (back : Spelled t) : Spelled (s ++ t) := by
  induction front with
  | nil => exact back
  | char noOpening noClosing _ ih => exact .char noOpening noClosing ih
  | doubled kind _ ih => exact .doubled kind ih

/-- Spelled text put before segments keeps their form. -/
theorem normal_prepend {form : Text → Text → Prop} {text : Text} {segments : List Segment}
    (spelled : Spelled text) (normal : Normal form segments) :
    Normal form (prepend text segments) := by
  cases text with
  | nil =>
    rw [prepend_nil]
    exact normal
  | cons c text =>
    cases normal with
    | nil => exact .literal spelled (List.cons_ne_nil _ _) (by simp) .nil
    | literal spelledMore _ alone normal =>
      exact .literal (spelled.append spelledMore) (List.cons_ne_nil _ _) alone normal
    | placeholder formed normal =>
      exact .literal spelled (List.cons_ne_nil _ _) (by simp) (.placeholder formed normal)

/-- The segments of a template are in normal form, and the expressions of its placeholders are
whole. -/
theorem normal_segments {body : Text} {pieces : List Piece} (read : pieces? body = some pieces)
    (noBlank : pieces.any Piece.isBlank = false) :
    Normal (fun expr spec => Fit expr spec ∧ IsWhole expr) (segments pieces) := by
  fun_induction pieces? body generalizing pieces with
  | case1 =>
    obtain rfl := Option.some.inj read
    exact .nil
  | case2 rest ih | case3 rest ih =>
    obtain ⟨more, readMore, rfl⟩ := Option.map_eq_some_iff.mp read
    exact normal_prepend (.doubled (by simp) .nil) (ih readMore noBlank)
  | case4 rest _ inner after found ih =>
    obtain ⟨more, readMore, rfl⟩ := Option.map_eq_some_iff.mp read
    rw [List.any_cons, Bool.or_eq_false_iff] at noBlank
    have own : isBlankHole inner = false := noBlank.1
    rw [eq_append_of_cutAtHoleEnd found] at found
    rw [segments, if_neg (by rw [own]; decide)]
    exact .placeholder (fit_of_cut found own) (ih readMore noBlank.2)
  | case5 => cases read
  | case6 rest _ ih =>
    obtain ⟨more, readMore, rfl⟩ := Option.map_eq_some_iff.mp read
    exact normal_prepend (.doubled (by simp) .nil) (ih readMore noBlank)
  | case7 c rest _ _ noOpening noClosing ih =>
    obtain ⟨more, readMore, rfl⟩ := Option.map_eq_some_iff.mp read
    exact normal_prepend (.char noOpening noClosing .nil) (ih readMore noBlank)

/-- The segments of a template with placeholders are in normal form, and each expression is whole.
-/
theorem normal_split {body : Text} {template : List Segment} (ok : split body = .ok template)
    (has : hasPlaceholders template = true) :
    Normal (fun expr spec => Fit expr spec ∧ IsWhole expr) template := by
  obtain ⟨pieces, read, accepted, rfl⟩ := split_eq_ok_iff.mp ok
  rw [has, Bool.and_true] at accepted
  exact normal_segments read accepted

end Template
end Outline
