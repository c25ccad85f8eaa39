import Mathlib.Data.List.Chain
import Mathlib.Data.List.Forall2
import Outline.Proofs.Template

/-!
# What a template is made of

`Template.Cut` says which pieces a template has, read from left to right, and `Template.Becomes`
what each piece becomes: literal text or a placeholder. The segments of a template are these, with
neighbouring literal texts joined, so that no character is lost and none is added but for the second
brace of a lone one (`Template.units_segments`). A template has no pieces exactly when one of its
placeholders never ends (`Template.pieces?_eq_none_iff`).
-/

set_option autoImplicit false

namespace Outline.Template

open Nesting

/-! ## Where a scan stops -/

/-- A scan meets nothing if there is no stop at top level. -/
theorem avoids_eq_true_iff {stop : Option Char → Char → Option Char → Bool}
    {previous next : Option Char} {n : Nesting} {s : Text} :
    avoids stop previous n s next = true ↔
      ∀ lead c rest, s = lead ++ c :: rest → (lead.foldl stepPlain n).isTop = true →
        stop (lead.getLast?.or previous) c (rest.head?.or next) = false := by
  induction s generalizing previous n with
  | nil =>
    refine ⟨fun _ lead c rest same => ?_, fun _ => rfl⟩
    exact absurd same.symm (List.append_ne_nil_of_right_ne_nil lead (List.cons_ne_nil c rest))
  | cons d s ih =>
    rw [avoids, Bool.and_eq_true, ih]
    constructor
    · rintro ⟨here, later⟩ lead c rest same top
      cases lead with
      | nil =>
        obtain ⟨rfl, rfl⟩ := List.cons.inj same
        rw [show n.isTop = true from top, Bool.true_and, Bool.not_eq_true'] at here
        exact here
      | cons e lead =>
        obtain ⟨rfl, rfl⟩ := List.cons.inj same
        rw [getLast?_cons_or]
        exact later lead c rest rfl top
    · intro clear
      constructor
      · cases top : n.isTop with
        | false => rfl
        | true =>
          rw [Bool.true_and, Bool.not_eq_true']
          exact clear [] d s rfl top
      · intro lead c rest same top
        rw [← getLast?_cons_or d lead previous]
        exact clear (d :: lead) c rest (by rw [same]; rfl) top

/-- A scan meets no end of a placeholder if no closing brace is at top level. -/
theorem avoids_endsHole_iff {s : Text} :
    avoids endsHole none .start s none = true ↔
      ∀ lead rest, s = lead ++ '}' :: rest → Text.endsAtTop lead = false := by
  rw [avoids_eq_true_iff]
  constructor
  · intro clear lead rest same
    cases top : Text.endsAtTop lead with
    | false => rfl
    | true => cases clear lead '}' rest same top
  · intro closed lead c rest same top
    refine beq_eq_false_iff_ne.mpr ?_
    rintro rfl
    exact Bool.false_ne_true ((closed lead rest same).symm.trans top)

/-- What stands between two braces: the second is the first closing brace at top level. -/
structure IsInner (inner : Text) : Prop where
  closed : Text.endsAtTop inner = true
  first : ∀ lead rest, inner = lead ++ '}' :: rest → Text.endsAtTop lead = false

/-- A placeholder ends at the first closing brace at top level. -/
theorem cutAtHoleEnd?_append_iff {inner after : Text} :
    cutAtHoleEnd? .start (inner ++ '}' :: after) = some (inner, after) ↔ IsInner inner := by
  rw [cutAtHoleEnd?_eq_some_iff none none, avoids_endsHole_iff]
  exact ⟨fun found => ⟨found.2, found.1⟩, fun isInner => ⟨isInner.first, isInner.closed⟩⟩

/-- A placeholder has no end if no closing brace is at top level. -/
theorem cutAtHoleEnd?_eq_none_iff {s : Text} :
    cutAtHoleEnd? .start s = none ↔
      ∀ inner after, s = inner ++ '}' :: after → Text.endsAtTop inner = false := by
  have avoided (n : Nesting) : cutAtHoleEnd? n s = none ↔ avoids endsHole none n s none = true := by
    induction s generalizing n with
    | nil => simp [cutAtHoleEnd?, avoids]
    | cons c rest ih =>
      rw [cutAtHoleEnd?, avoids, endsHole, avoids_endsHole (some c) none none none]
      cases stops : n.isTop && c == '}' with
      | true => simp
      | false => simp [ih]
  rw [avoided, avoids_endsHole_iff]

/-! ## Expression and format -/

/-- The two parts of what stands between braces: the second starts with the first mark of a format
at top level, and is empty where there is none. -/
structure Parts (inner expr spec : Text) : Prop where
  whole : inner = expr ++ spec
  mark : ∀ c rest, spec = c :: rest →
    Text.endsAtTop expr = true ∧ startsSpec expr.getLast? c rest.head? = true
  first : ∀ lead c rest, expr = lead ++ c :: rest → Text.endsAtTop lead = true →
    startsSpec lead.getLast? c (rest ++ spec).head? = false

/-- The cut between braces gives the two parts of what stands there. -/
theorem splitSpec_eq_iff {inner expr spec : Text} :
    splitSpec inner = (expr, spec) ↔ Parts inner expr spec := by
  have parts : splitSpec (expr ++ spec) = (expr, spec) ↔
      (∀ lead c rest, expr = lead ++ c :: rest → Text.endsAtTop lead = true →
        startsSpec lead.getLast? c (rest ++ spec).head? = false) ∧
      ∀ c rest, spec = c :: rest →
        Text.endsAtTop expr = true ∧ startsSpec expr.getLast? c rest.head? = true := by
    rw [splitSpec, splitSpecFrom_append_iff, avoids_eq_true_iff]
    simp only [Option.or_none, List.head?_append, Text.endsAtTop]
  constructor
  · intro cut
    have whole := splitSpecFrom_append none .start inner
    rw [← splitSpec, cut] at whole
    subst whole
    obtain ⟨first, mark⟩ := parts.mp cut
    exact ⟨rfl, mark, first⟩
  · rintro ⟨rfl, mark, first⟩
    exact parts.mpr ⟨first, mark⟩

/-- Whether nothing but blanks stands between braces, before a format perhaps. -/
def Blank (inner : Text) : Prop := ∃ expr spec, Parts inner expr spec ∧ Text.trim expr = []

theorem isBlankHole_iff {inner : Text} : isBlankHole inner = true ↔ Blank inner := by
  rw [isBlankHole, List.isEmpty_iff]
  constructor
  · intro blank
    exact ⟨_, _, splitSpec_eq_iff.mp rfl, blank⟩
  · rintro ⟨expr, spec, parts, blank⟩
    rwa [splitSpec_eq_iff.mpr parts]

/-! ## Pieces -/

/-- The pieces of a template, from left to right. A brace that is followed by another of its kind
makes a pair with it. -/
inductive Cut : Text → List Piece → Prop
  | nil : Cut [] []
  | char {c : Char} {rest : Text} {pieces : List Piece} (noOpening : c ≠ '{') (noClosing : c ≠ '}')
      (more : Cut rest pieces) : Cut (c :: rest) (.char c :: pieces)
  | doubled {brace : Char} {rest : Text} {pieces : List Piece} (kind : brace = '{' ∨ brace = '}')
      (more : Cut rest pieces) : Cut (brace :: brace :: rest) (.doubled brace :: pieces)
  | lone {rest : Text} {pieces : List Piece} (single : rest.head? ≠ some '}')
      (more : Cut rest pieces) : Cut ('}' :: rest) (.lone :: pieces)
  | hole {inner rest : Text} {pieces : List Piece} (single : inner.head? ≠ some '{')
      (isInner : IsInner inner) (more : Cut rest pieces) :
      Cut ('{' :: (inner ++ '}' :: rest)) (.hole inner :: pieces)

/-- The scan of a template comes to a placeholder that never ends. -/
def Opens (body : Text) : Prop :=
  ∃ lead pieces rest, body = lead ++ '{' :: rest ∧ Cut lead pieces ∧ rest.head? ≠ some '{' ∧
    ∀ inner after, rest = inner ++ '}' :: after → Text.endsAtTop inner = false

theorem head?_inner {inner : Text} (single : inner.head? ≠ some '{') (rest : Text) :
    (inner ++ '}' :: rest).head? ≠ some '{' := by
  cases inner with
  | nil => simp
  | cons c inner => exact single

/-- The pieces of the front of a template are read first, if the brace that ends it does not make a
pair with the next. -/
theorem Cut.pieces?_append {lead : Text} {pieces : List Piece} (cut : Cut lead pieces) {tail : Text}
    (apart : tail.head? ≠ some '}') :
    pieces? (lead ++ tail) = (pieces? tail).map (pieces ++ ·) := by
  induction cut with
  | nil => cases found : pieces? tail <;> simp [found]
  | char noOpening noClosing _ ih =>
    rw [List.cons_append, pieces?_char noOpening noClosing, ih, Option.map_map]
    rfl
  | doubled kind _ ih =>
    rw [List.cons_append, List.cons_append, pieces?_doubled kind, ih, Option.map_map]
    rfl
  | @lone rest _ single _ ih =>
    have singleMore : (rest ++ tail).head? ≠ some '}' := by
      cases rest with
      | nil => exact apart
      | cons c rest => exact single
    rw [List.cons_append, pieces?_lone singleMore, ih, Option.map_map]
    rfl
  | @hole inner rest _ single isInner _ ih =>
    rw [List.cons_append, List.append_assoc, List.cons_append,
      pieces?_hole (head?_inner single _), cutAtHoleEnd?_append_iff.mpr isInner, Option.bind_some,
      ih, Option.map_map]
    rfl

theorem head?_ne_some {c : Char} {s : Text} (other : ∀ rest, s = c :: rest → False) :
    s.head? ≠ some c := by
  intro head
  obtain ⟨rest, same⟩ := List.head?_eq_some_iff.mp head
  exact other rest same

theorem head?_ne_some_of_append {c : Char} {s t : Text}
    (other : ∀ rest, s ++ t = c :: rest → False) : s.head? ≠ some c :=
  head?_ne_some fun rest same => other (rest ++ t) (by rw [same]; rfl)

/-- The pieces that are found are those of the template from left to right. -/
theorem cut_of_pieces? {body : Text} {pieces : List Piece} (read : pieces? body = some pieces) :
    Cut body pieces := by
  fun_induction pieces? body generalizing pieces with
  | case1 =>
    obtain rfl := Option.some.inj read
    exact .nil
  | case2 rest ih =>
    obtain ⟨more, readMore, rfl⟩ := Option.map_eq_some_iff.mp read
    exact .doubled (.inl rfl) (ih readMore)
  | case3 rest ih =>
    obtain ⟨more, readMore, rfl⟩ := Option.map_eq_some_iff.mp read
    exact .doubled (.inr rfl) (ih readMore)
  | case4 rest noPair inner after found ih =>
    obtain ⟨more, readMore, rfl⟩ := Option.map_eq_some_iff.mp read
    obtain rfl := eq_append_of_cutAtHoleEnd found
    exact .hole (head?_ne_some_of_append noPair) (cutAtHoleEnd?_append_iff.mp found) (ih readMore)
  | case5 => cases read
  | case6 rest noPair ih =>
    obtain ⟨more, readMore, rfl⟩ := Option.map_eq_some_iff.mp read
    exact .lone (head?_ne_some noPair) (ih readMore)
  | case7 c rest _ _ noOpening noClosing ih =>
    obtain ⟨more, readMore, rfl⟩ := Option.map_eq_some_iff.mp read
    exact .char noOpening noClosing (ih readMore)

/-- Reading fails at the first placeholder that never ends, with the pieces before it read. -/
theorem opens_of_pieces? {body : Text} (read : pieces? body = none) : Opens body := by
  fun_induction pieces? body with
  | case1 => cases read
  | case2 rest ih =>
    obtain ⟨lead, pieces, after, rfl, cut, stuck⟩ := ih (Option.map_eq_none_iff.mp read)
    exact ⟨_, _, after, rfl, .doubled (.inl rfl) cut, stuck⟩
  | case3 rest ih =>
    obtain ⟨lead, pieces, after, rfl, cut, stuck⟩ := ih (Option.map_eq_none_iff.mp read)
    exact ⟨_, _, after, rfl, .doubled (.inr rfl) cut, stuck⟩
  | case4 rest noPair inner after found ih =>
    obtain ⟨lead, pieces, behind, rfl, cut, stuck⟩ := ih (Option.map_eq_none_iff.mp read)
    obtain rfl := eq_append_of_cutAtHoleEnd found
    have own := cutAtHoleEnd?_append_iff.mp found
    refine ⟨_, _, behind, ?_, .hole (head?_ne_some_of_append noPair) own cut, stuck⟩
    rw [List.cons_append, List.append_assoc, List.cons_append]
  | case5 rest noPair found =>
    exact ⟨[], [], rest, rfl, .nil, head?_ne_some noPair, cutAtHoleEnd?_eq_none_iff.mp found⟩
  | case6 rest noPair ih =>
    obtain ⟨lead, pieces, behind, rfl, cut, stuck⟩ := ih (Option.map_eq_none_iff.mp read)
    exact ⟨_, _, behind, rfl, .lone (head?_ne_some_of_append noPair) cut, stuck⟩
  | case7 c rest _ _ noOpening noClosing ih =>
    obtain ⟨lead, pieces, after, rfl, cut, stuck⟩ := ih (Option.map_eq_none_iff.mp read)
    exact ⟨_, _, after, rfl, .char noOpening noClosing cut, stuck⟩

/-- The pieces that are found are exactly those of the template. -/
theorem pieces?_eq_some_iff {body : Text} {pieces : List Piece} :
    pieces? body = some pieces ↔ Cut body pieces := by
  refine ⟨cut_of_pieces?, fun cut => ?_⟩
  have read := @Cut.pieces?_append _ _ cut [] (by simp)
  rwa [List.append_nil, pieces?, Option.map_some, List.append_nil] at read

/-- A template has no pieces exactly when one of its placeholders never ends. -/
theorem pieces?_eq_none_iff {body : Text} : pieces? body = none ↔ Opens body := by
  refine ⟨opens_of_pieces?, ?_⟩
  rintro ⟨lead, pieces, rest, rfl, cut, single, endless⟩
  rw [cut.pieces?_append (by simp), pieces?_hole single, cutAtHoleEnd?_eq_none_iff.mpr endless]
  rfl

/-! ## Segments -/

/-- What a piece becomes: literal text, or a placeholder without the blanks around its
expression. -/
inductive Becomes : Piece → Segment → Prop
  | char (c : Char) : Becomes (.char c) (.literal [c])
  | doubled (brace : Char) : Becomes (.doubled brace) (.literal [brace, brace])
  | lone : Becomes .lone (.literal ['}', '}'])
  | blank {inner : Text} (blank : Blank inner) :
      Becomes (.hole inner) (.literal ('{' :: inner ++ ['}']))
  | placeholder {inner expr spec : Text} (parts : Parts inner expr spec)
      (filled : Text.trim expr ≠ []) : Becomes (.hole inner) (.placeholder (Text.trim expr) spec)

/-- The segment that a piece becomes. -/
def Piece.segment : Piece → Segment
  | .char c => .literal [c]
  | .doubled brace => .literal [brace, brace]
  | .lone => .literal ['}', '}']
  | .hole inner =>
    if isBlankHole inner then .literal ('{' :: inner ++ ['}'])
    else .placeholder (Text.trim (splitSpec inner).1) (splitSpec inner).2

theorem becomes_segment (piece : Piece) : Becomes piece piece.segment := by
  cases piece with
  | char c => exact .char c
  | doubled brace => exact .doubled brace
  | lone => exact .lone
  | hole inner =>
    rw [Piece.segment]
    split
    next blank => exact .blank (isBlankHole_iff.mp blank)
    next filled =>
      refine .placeholder (splitSpec_eq_iff.mp rfl) ?_
      simpa [isBlankHole] using filled

/-- A segment put before segments; literal text joins literal text. -/
def attach : Segment → List Segment → List Segment
  | .literal text, segments => prepend text segments
  | .placeholder expr spec, segments => .placeholder expr spec :: segments

/-- The segments are what the pieces become, attached one by one from the right. -/
theorem segments_eq_foldr (pieces : List Piece) :
    segments pieces = (pieces.map Piece.segment).foldr attach [] := by
  induction pieces with
  | nil => rfl
  | cons piece pieces ih =>
    rw [List.map_cons, List.foldr_cons, ← ih]
    cases piece with
    | char c | doubled brace | lone => rfl
    | hole inner =>
      rw [segments, Piece.segment]
      split <;> rfl

/-- A segment character by character, a placeholder as one. -/
def units : Segment → List Segment
  | .literal text => text.map fun c => .literal [c]
  | .placeholder expr spec => [.placeholder expr spec]

/-- Attaching a segment loses no character and no placeholder. -/
theorem units_attach (segment : Segment) (segments : List Segment) :
    (attach segment segments).flatMap units = units segment ++ segments.flatMap units := by
  cases segment with
  | placeholder expr spec => rfl
  | literal text =>
    cases text with
    | nil => rw [attach, prepend_nil]; rfl
    | cons c text =>
      cases segments with
      | nil => rfl
      | cons first segments =>
        cases first with
        | literal more => simp [attach, prepend, units]
        | placeholder expr spec => rfl

/-- Joining pieces loses nothing: character by character and placeholder by placeholder, the
segments are what the pieces become. -/
theorem units_segments (pieces : List Piece) :
    (segments pieces).flatMap units = (pieces.map Piece.segment).flatMap units := by
  rw [segments_eq_foldr]
  induction pieces.map Piece.segment with
  | nil => rfl
  | cons segment more ih => rw [List.foldr_cons, units_attach, ih, List.flatMap_cons]

/-- Segments taken apart into characters render to the same text. -/
theorem render_units (segments : List Segment) :
    render (segments.flatMap units) = render segments := by
  have chars (text : Text) (more : List Segment) :
      render (text.map (fun c => Segment.literal [c]) ++ more) = text ++ render more := by
    induction text with
    | nil => rfl
    | cons c text ih =>
      rw [List.map_cons, List.cons_append, render, ih]
      rfl
  induction segments with
  | nil => rfl
  | cons segment segments ih =>
    cases segment with
    | literal text => rw [List.flatMap_cons, units, chars, ih, render]
    | placeholder expr spec =>
      rw [List.flatMap_cons, units, List.singleton_append, render, ih, render]

/-- The form of a segment: literal text is not empty, and neither is the expression of a
placeholder, which has no blanks around it; a format starts with its mark. -/
def Sound : Segment → Prop
  | .literal text => text ≠ []
  | .placeholder expr spec =>
    expr ≠ [] ∧ Text.Trimmed expr ∧ ∀ c ∈ spec.head?, c = '!' ∨ c = ':'

/-- Segments of that form, of which no two neighbours are literal text. -/
structure Joined (segments : List Segment) : Prop where
  apart : segments.IsChain fun first second =>
    isPlaceholder first = true ∨ isPlaceholder second = true
  sound : ∀ segment ∈ segments, Sound segment

theorem sound_of_becomes {piece : Piece} {segment : Segment} (becomes : Becomes piece segment) :
    Sound segment := by
  cases becomes with
  | char | doubled | lone | blank => exact List.cons_ne_nil _ _
  | placeholder parts filled =>
    refine ⟨filled, Text.trimmed_trim _, ?_⟩
    intro c head
    obtain ⟨rest, same⟩ := List.head?_eq_some_iff.mp head
    have starts := (parts.mark c rest same).2
    simp only [startsSpec, Bool.and_eq_true, Bool.or_eq_true, beq_iff_eq] at starts
    exact starts.2.imp_right And.left

/-- Attaching a segment puts no two literal texts side by side. -/
theorem Joined.attach {segment : Segment} {segments : List Segment} (sound : Sound segment)
    (joined : Joined segments) : Joined (attach segment segments) := by
  cases segment with
  | placeholder expr spec =>
    refine ⟨?_, List.forall_mem_cons.mpr ⟨sound, joined.sound⟩⟩
    cases segments with
    | nil => exact List.isChain_singleton _
    | cons first more => exact List.isChain_cons_cons.mpr ⟨.inl rfl, joined.apart⟩
  | literal text =>
    obtain ⟨c, text, rfl⟩ := List.exists_cons_of_ne_nil sound
    cases segments with
    | nil => exact ⟨List.isChain_singleton _, List.forall_mem_singleton.mpr sound⟩
    | cons first more =>
      cases first with
      | placeholder expr spec =>
        exact ⟨List.isChain_cons_cons.mpr ⟨.inr rfl, joined.apart⟩,
          List.forall_mem_cons.mpr ⟨sound, joined.sound⟩⟩
      | literal other =>
        -- The joined text stands where the other one stood.
        have others := (List.forall_mem_cons.mp joined.sound).2
        refine ⟨?_, List.forall_mem_cons.mpr ⟨List.cons_ne_nil _ _, others⟩⟩
        cases more with
        | nil => exact List.isChain_singleton _
        | cons second more =>
          have behind := List.isChain_cons_cons.mp joined.apart
          exact List.isChain_cons_cons.mpr behind

/-- No two neighbours among the segments of pieces are literal text, and none is empty. -/
theorem joined_segments (pieces : List Piece) : Joined (segments pieces) := by
  rw [segments_eq_foldr]
  induction pieces with
  | nil =>
    refine ⟨List.isChain_nil, ?_⟩
    intro segment mem
    cases mem
  | cons piece pieces ih => exact ih.attach (sound_of_becomes (becomes_segment piece))

/-! ## Placeholders with and without an expression -/

theorem hasPlaceholders_units (segments : List Segment) :
    hasPlaceholders (segments.flatMap units) = hasPlaceholders segments := by
  have own (segment : Segment) : (units segment).any isPlaceholder = isPlaceholder segment := by
    cases segment with
    | literal text => simp [units, isPlaceholder]
    | placeholder expr spec => rfl
  simp only [hasPlaceholders, List.any_flatMap, own]

/-- There is a placeholder among segments exactly when braces with an expression are among the
pieces. -/
theorem hasPlaceholders_segments_iff {pieces : List Piece} :
    hasPlaceholders (segments pieces) = true ↔ ∃ inner, .hole inner ∈ pieces ∧ ¬ Blank inner := by
  rw [← hasPlaceholders_units, units_segments, hasPlaceholders_units, hasPlaceholders, List.any_map,
    List.any_eq_true]
  constructor
  · rintro ⟨piece, mem, found⟩
    cases piece with
    | char | doubled | lone => cases found
    | hole inner =>
      refine ⟨inner, mem, ?_⟩
      rw [← isBlankHole_iff]
      intro blank
      rw [Function.comp_apply, Piece.segment, if_pos blank] at found
      cases found
  · rintro ⟨inner, mem, filled⟩
    rw [← isBlankHole_iff] at filled
    refine ⟨.hole inner, mem, ?_⟩
    rw [Function.comp_apply, Piece.segment, if_neg filled]
    rfl

theorem any_isBlank_iff {pieces : List Piece} :
    pieces.any Piece.isBlank = true ↔ ∃ inner, .hole inner ∈ pieces ∧ Blank inner := by
  rw [List.any_eq_true]
  constructor
  · rintro ⟨piece, mem, blank⟩
    cases piece with
    | char | doubled | lone => cases blank
    | hole inner => exact ⟨inner, mem, isBlankHole_iff.mp blank⟩
  · rintro ⟨inner, mem, blank⟩
    exact ⟨.hole inner, mem, isBlankHole_iff.mpr blank⟩

/-- Pieces among which some pair of braces has an expression and some has none. -/
def Mixed (pieces : List Piece) : Prop :=
  (∃ inner, .hole inner ∈ pieces ∧ Blank inner) ∧ ∃ inner, .hole inner ∈ pieces ∧ ¬ Blank inner

theorem read_eq_ok {line : Nat} {body : Text} {template : List Segment}
    (ok : read line body = .ok template) : split body = .ok template := by
  rw [read] at ok
  split at ok
  next found => rw [found, Except.ok.inj ok]
  next => cases ok

/-- A template on a line is refused with the wording of its fault and that line. -/
theorem read_eq_error_iff {line : Nat} {body : Text} {error : Error} :
    read line body = .error error ↔
      ∃ fault, split body = .error fault ∧ error = .expression line fault.message := by
  rw [read]
  cases split body <;> simp [eq_comm]

/-- The segments of a template are those of its pieces. -/
theorem split_eq_ok {body : Text} {template : List Segment} (ok : split body = .ok template) :
    ∃ pieces, Cut body pieces ∧ template = segments pieces := by
  obtain ⟨pieces, read, _, rfl⟩ := split_eq_ok_iff.mp ok
  exact ⟨pieces, cut_of_pieces? read, rfl⟩

/-- A template is refused exactly when a placeholder never ends, or when some braces have an
expression and others have none. -/
theorem split_eq_error_iff {body : Text} {fault : Fault} :
    split body = .error fault ↔
      fault = .unterminated ∧ Opens body ∨
        fault = .empty ∧ ∃ pieces, Cut body pieces ∧ Mixed pieces := by
  rw [← pieces?_eq_none_iff, split_eq_segments]
  simp only [← pieces?_eq_some_iff]
  cases read : pieces? body with
  | none => simp [eq_comm]
  | some pieces =>
    have mixed : (pieces.any Piece.isBlank && hasPlaceholders (segments pieces)) = true ↔
        Mixed pieces := by
      rw [Bool.and_eq_true, any_isBlank_iff, hasPlaceholders_segments_iff, Mixed]
    constructor
    · intro failed
      change (if _ then Except.error Fault.empty else .ok (segments pieces)) = _ at failed
      split at failed
      next both => exact .inr ⟨(Except.error.inj failed).symm, pieces, rfl, mixed.mp both⟩
      next => cases failed
    · rintro (⟨_, none⟩ | ⟨rfl, pieces, same, both⟩)
      · cases none
      · obtain rfl := Option.some.inj same
        exact if_pos (mixed.mpr both)

/-- A template that is read loses nothing: it is cut into pieces from left to right, and its
segments are what the pieces become, with literal texts joined, so that none is empty and no two are
neighbours. It is refused exactly when a placeholder never ends, or when one has an expression and
another has none. -/
theorem read_lossless (line : Nat) (body : Text) :
    (∀ template, read line body = .ok template →
      Joined template ∧ ∃ pieces each, Cut body pieces ∧ List.Forall₂ Becomes pieces each ∧
        template.flatMap units = each.flatMap units ∧ render template = render each) ∧
      ∀ error, read line body = .error error ↔
        error = .expression line Fault.unterminated.message ∧ Opens body ∨
          error = .expression line Fault.empty.message ∧
            ∃ pieces, Cut body pieces ∧ Mixed pieces := by
  constructor
  · intro template ok
    obtain ⟨pieces, cut, rfl⟩ := split_eq_ok (read_eq_ok ok)
    have becomes : List.Forall₂ Becomes pieces (pieces.map Piece.segment) :=
      List.forall₂_map_right_iff.mpr (List.forall₂_same.mpr fun piece _ => becomes_segment piece)
    have kept := units_segments pieces
    refine ⟨joined_segments pieces, pieces, pieces.map Piece.segment, cut, becomes, kept, ?_⟩
    calc
      render (segments pieces)
        = render ((segments pieces).flatMap units) := (render_units _).symm
      _ = render ((pieces.map Piece.segment).flatMap units) := by rw [kept]
      _ = render (pieces.map Piece.segment) := render_units _
  · intro error
    rw [read_eq_error_iff]
    constructor
    · rintro ⟨fault, failed, rfl⟩
      rcases split_eq_error_iff.mp failed with ⟨rfl, opens⟩ | ⟨rfl, mixed⟩
      · exact .inl ⟨rfl, opens⟩
      · exact .inr ⟨rfl, mixed⟩
    · rintro (⟨rfl, opens⟩ | ⟨rfl, mixed⟩)
      · exact ⟨.unterminated, split_eq_error_iff.mpr (.inl ⟨rfl, opens⟩), rfl⟩
      · exact ⟨.empty, split_eq_error_iff.mpr (.inr ⟨rfl, mixed⟩), rfl⟩

/-- A lone brace, a format behind a subscript that holds a colon, and doubled braces; a placeholder
whose only closing brace is quoted; and a blank placeholder beside another. -/
theorem read_lossless_formats :
    let body := "a\x7d \x7b d[':'] : >3\x7d\x7b\x7bb\x7d\x7d".toList
    let template := [Segment.literal "a\x7d\x7d ".toList,
      .placeholder "d[':']".toList ": >3".toList, .literal "\x7b\x7bb\x7d\x7d".toList]
    let endless := "x \x7bd['\x7d']".toList
    let mixed := "\x7b :>3\x7d \x7bx\x7d".toList
    read 1 body = .ok template ∧ Joined template ∧
      (∃ pieces each, Cut body pieces ∧ List.Forall₂ Becomes pieces each ∧
        render template = render each) ∧
      read 2 endless = .error (.expression 2 Fault.unterminated.message) ∧ Opens endless ∧
      read 3 mixed = .error (.expression 3 Fault.empty.message) ∧
      ∃ pieces, Cut mixed pieces ∧ Mixed pieces := by
  intro body template endless mixed
  have ok : read 1 body = .ok template := by decide +kernel
  have failed : read 2 endless = .error (.expression 2 Fault.unterminated.message) := by
    decide +kernel
  have failed' : read 3 mixed = .error (.expression 3 Fault.empty.message) := by decide +kernel
  obtain ⟨joined, pieces, each, cut, becomes, _, same⟩ := (read_lossless 1 body).1 template ok
  have opens := (((read_lossless 2 endless).2 _).mp failed).resolve_right fun other =>
    absurd other.1 (by decide)
  have both := (((read_lossless 3 mixed).2 _).mp failed').resolve_left fun other =>
    absurd other.1 (by decide)
  exact ⟨ok, joined, ⟨pieces, each, cut, becomes, same⟩, failed, opens.2, failed', both.2⟩

end Outline.Template
