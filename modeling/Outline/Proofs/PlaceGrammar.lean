import Outline.Proofs.Checked.Text
import Outline.Proofs.Grammar

/-!
# The grammar of places

What may stand on the left of an assignment is said here by a grammar (`Text.SinglePlace`): an
identifier, and behind a place an attribute or a subscript. The index of a subscript is read with
its string literals skipped, and its square brackets are nested (`Text.Index`); brackets of other
kinds do not count. The grammar builds a place from the left, one trailer after another, while a
place is read by its first identifier and then a run of trailers;
`SinglePlace.append_trailers` and `SinglePlace.isSinglePlace_append` bring the two together.
-/

set_option autoImplicit false

namespace Outline.Text

open Grammar

/-! ## The grammar -/

/-- What stands between the quotes of a string literal: a backslash protects the character behind
it, and the quote occurs only so. -/
inductive LiteralBody (quote : Char) : Text → Prop
  | nil : LiteralBody quote []
  | plain {c : Char} {s : Text} (noQuote : c ≠ quote) (noSlash : c ≠ '\\')
      (rest : LiteralBody quote s) : LiteralBody quote (c :: s)
  | escaped {c : Char} {s : Text} (rest : LiteralBody quote s) :
      LiteralBody quote ('\\' :: c :: s)

/-- Texts in which each string literal is closed and each square bracket outside the literals has
its partner. -/
inductive Index : Text → Prop
  | nil : Index []
  | plain {c : Char} {s : Text} (noQuote : isQuote c = false) (noOpening : c ≠ '[')
      (noClosing : c ≠ ']') (rest : Index s) : Index (c :: s)
  | literal {quote : Char} {body s : Text} (quotes : isQuote quote = true)
      (inside : LiteralBody quote body) (rest : Index s) : Index (quote :: body ++ quote :: s)
  | bracket {s t : Text} (inside : Index s) (rest : Index t) : Index ('[' :: s ++ ']' :: t)

/-- An identifier with any number of attributes and subscripts behind it. -/
inductive SinglePlace : Text → Prop
  | name {s : Text} (identifier : isIdentifier s = true) : SinglePlace s
  | member {place name : Text} (target : SinglePlace place)
      (identifier : isIdentifier name = true) : SinglePlace (place ++ '.' :: name)
  | subscript {place index : Text} (target : SinglePlace place) (filled : index ≠ [])
      (nested : Index index) : SinglePlace (place ++ '[' :: index ++ [']'])

/-! ## Finding the end of an index -/

section

variable {depth : Nat} {quoting : Quoting} {c : Char} {s : Text}

/-- The search for the end of an index goes on inside a literal, and into one. -/
theorem cutAtClosing?_quoted (quoted : quoting ≠ .outside ∨ isQuote c = true) :
    cutAtClosing? '[' ']' depth quoting (c :: s) =
      (cutAtClosing? '[' ']' depth (quoting.step c) s).map fun cut => (c :: cut.1, cut.2) := by
  rw [cutAtClosing?, if_pos quoted]

theorem cutAtClosing?_opening :
    cutAtClosing? '[' ']' depth .outside ('[' :: s) =
      (cutAtClosing? '[' ']' (depth + 1) .outside s).map fun cut => ('[' :: cut.1, cut.2) := by
  rw [cutAtClosing?, if_neg (by decide), if_pos rfl]

theorem cutAtClosing?_inner :
    cutAtClosing? '[' ']' (depth + 2) .outside (']' :: s) =
      (cutAtClosing? '[' ']' (depth + 1) .outside s).map fun cut => (']' :: cut.1, cut.2) := by
  rw [cutAtClosing?, if_neg (by decide), if_neg (by decide), if_pos rfl, if_neg (by omega)]
  rfl

theorem cutAtClosing?_outer :
    cutAtClosing? '[' ']' 1 .outside (']' :: s) = some ([], s) := by
  rw [cutAtClosing?, if_neg (by decide), if_neg (by decide), if_pos rfl, if_pos (Nat.le_refl 1)]

theorem cutAtClosing?_plain (noQuote : isQuote c = false) (noOpening : c ≠ '[')
    (noClosing : c ≠ ']') :
    cutAtClosing? '[' ']' depth .outside (c :: s) =
      (cutAtClosing? '[' ']' depth .outside s).map fun cut => (c :: cut.1, cut.2) := by
  rw [cutAtClosing?, if_neg (by simp [noQuote]), if_neg noOpening, if_neg noClosing]

end

/-- The search passes over what is left of a literal. -/
theorem LiteralBody.cutAtClosing?_append {quote : Char} (quotes : isQuote quote = true)
    {body : Text} (inside : LiteralBody quote body) (depth : Nat) (rest : Text) :
    cutAtClosing? '[' ']' depth (.inside quote) (body ++ quote :: rest) =
      (cutAtClosing? '[' ']' depth .outside rest).map
        fun cut => (body ++ quote :: cut.1, cut.2) := by
  induction inside with
  | nil =>
    have noSlash : quote ≠ '\\' := by
      rintro rfl
      cases quotes
    have ends : (Quoting.inside quote).step quote = .outside := by
      rw [Quoting.step, if_neg noSlash, if_pos rfl]
    rw [List.nil_append, cutAtClosing?_quoted (.inr quotes), ends]
    rfl
  | @plain c body noQuote noSlash _ ih =>
    have stays : (Quoting.inside quote).step c = .inside quote := by
      rw [Quoting.step, if_neg noSlash, if_neg noQuote]
    rw [List.cons_append, cutAtClosing?_quoted (.inl (by simp)), stays, ih, Option.map_map]
    rfl
  | @escaped c body _ ih =>
    have protects : (Quoting.inside quote).step '\\' = .escaped quote := by
      rw [Quoting.step, if_pos rfl]
    rw [List.cons_append, List.cons_append, cutAtClosing?_quoted (.inl (by simp)), protects,
      cutAtClosing?_quoted (.inl (by simp)), Quoting.step, ih, Option.map_map, Option.map_map]
    rfl

/-- The search passes over an index: whatever brackets are open, it ends behind it where it would
end without it. -/
theorem Index.cutAtClosing?_append {index : Text} (nested : Index index) (depth : Nat)
    (rest : Text) :
    cutAtClosing? '[' ']' (depth + 1) .outside (index ++ rest) =
      (cutAtClosing? '[' ']' (depth + 1) .outside rest).map
        fun cut => (index ++ cut.1, cut.2) := by
  induction nested generalizing depth rest with
  | nil => simp
  | @plain c s noQuote noOpening noClosing _ ih =>
    rw [List.cons_append, cutAtClosing?_plain noQuote noOpening noClosing, ih, Option.map_map]
    rfl
  | @literal quote body s quotes inside _ ih =>
    have opens : Quoting.outside.step quote = .inside quote := if_pos quotes
    rw [List.cons_append, List.cons_append, List.append_assoc, List.cons_append,
      cutAtClosing?_quoted (.inr quotes), opens, inside.cutAtClosing?_append quotes, ih]
    simp [Function.comp_def]
  | @bracket s t _ _ ihInside ihRest =>
    rw [List.cons_append, List.cons_append, List.append_assoc, List.cons_append,
      cutAtClosing?_opening, ihInside, cutAtClosing?_inner, ihRest]
    simp [Function.comp_def]

/-- Two indices side by side are one. -/
theorem Index.append {s t : Text} (front : Index s) (back : Index t) : Index (s ++ t) := by
  induction front with
  | nil => exact back
  | plain noQuote noOpening noClosing _ ih => exact .plain noQuote noOpening noClosing ih
  | @literal quote body s quotes inside _ ih =>
    have longer := Index.literal quotes inside ih
    simpa using longer
  | @bracket s s' inside _ _ ih =>
    have longer := Index.bracket inside ih
    simpa using longer

/-- What is left of an index when some brackets are open before it: an index before each bracket
that closes one of them, and one behind the last. -/
def ClosesAt : (depth : Nat) → Text → Prop
  | 0, s => Index s
  | depth + 1, s => ∃ inside rest, s = inside ++ ']' :: rest ∧ Index inside ∧ ClosesAt depth rest

theorem ClosesAt.append {depth : Nat} {s t : Text} (front : Index s) (closes : ClosesAt depth t) :
    ClosesAt depth (s ++ t) := by
  cases depth with
  | zero => exact front.append closes
  | succ depth =>
    obtain ⟨inside, rest, rfl, nested, more⟩ := closes
    exact ⟨s ++ inside, rest, by rw [List.append_assoc], front.append nested, more⟩

/-- An opening bracket is one more to be closed. -/
theorem ClosesAt.opening {depth : Nat} {s : Text} (closes : ClosesAt (depth + 1) s) :
    ClosesAt depth ('[' :: s) := by
  obtain ⟨inside, rest, rfl, nested, more⟩ := closes
  have whole := more.append (Index.bracket nested .nil)
  simpa using whole

/-- What is left of an index from a place on: the end of the literal there, if there is one, and
then the brackets that are open. -/
def EndsIndex (depth : Nat) : Quoting → Text → Prop
  | .outside, s => ClosesAt depth s
  | .inside quote, s =>
    ∃ body rest, s = body ++ quote :: rest ∧ LiteralBody quote body ∧ ClosesAt depth rest
  | .escaped quote, s =>
    ∃ c body rest, s = c :: (body ++ quote :: rest) ∧ LiteralBody quote body ∧
      ClosesAt depth rest

/-- A character inside a literal, or the quote that starts one. -/
theorem EndsIndex.quoted {depth : Nat} {quoting : Quoting} {c : Char} {s : Text}
    (quoted : quoting ≠ .outside ∨ isQuote c = true) (ends : EndsIndex depth (quoting.step c) s) :
    EndsIndex depth quoting (c :: s) := by
  cases quoting with
  | outside =>
    have quotes : isQuote c = true := by simpa using quoted
    rw [Quoting.step, if_pos quotes] at ends
    obtain ⟨body, rest, rfl, inside, closes⟩ := ends
    have whole := closes.append (Index.literal quotes inside .nil)
    simpa [EndsIndex] using whole
  | inside quote =>
    rw [Quoting.step] at ends
    split at ends
    next slash =>
      obtain ⟨e, body, rest, rfl, inside, closes⟩ := ends
      exact ⟨'\\' :: e :: body, rest, by rw [slash]; rfl, .escaped inside, closes⟩
    next noSlash =>
      split at ends
      next same => exact ⟨[], s, by rw [same]; rfl, .nil, ends⟩
      next differ =>
        obtain ⟨body, rest, rfl, inside, closes⟩ := ends
        exact ⟨c :: body, rest, rfl, .plain differ noSlash inside, closes⟩
  | escaped quote =>
    obtain ⟨body, rest, rfl, inside, closes⟩ := ends
    exact ⟨c, body, rest, rfl, inside, closes⟩

/-- The search passed over a character, so the index it found starts with it. -/
theorem exists_of_map_cons {c : Char} {cut : Option (Text × Text)} {index after : Text}
    (found : (cut.map fun parts => (c :: parts.1, parts.2)) = some (index, after)) :
    ∃ more, index = c :: more ∧ cut = some (more, after) := by
  obtain ⟨⟨more, behind⟩, later, same⟩ := Option.map_eq_some_iff.mp found
  obtain ⟨rfl, rfl⟩ := Prod.mk.inj same
  exact ⟨more, rfl, later⟩

/-- What the search passes over closes the literal and the brackets that are open. -/
theorem endsIndex_of_cutAtClosing? {depth : Nat} {quoting : Quoting} {s index after : Text}
    (found : cutAtClosing? '[' ']' (depth + 1) quoting s = some (index, after)) :
    EndsIndex depth quoting index := by
  induction s generalizing depth quoting index with
  | nil => cases found
  | cons c s ih =>
    by_cases quoted : quoting ≠ .outside ∨ isQuote c = true
    · rw [cutAtClosing?_quoted quoted] at found
      obtain ⟨more, rfl, later⟩ := exists_of_map_cons found
      exact (ih later).quoted quoted
    obtain ⟨outside, noQuote⟩ := not_or.mp quoted
    obtain rfl := not_not.mp outside
    rw [Bool.not_eq_true] at noQuote
    by_cases opening : c = '['
    · subst opening
      rw [cutAtClosing?_opening] at found
      obtain ⟨more, rfl, later⟩ := exists_of_map_cons found
      exact ClosesAt.opening (ih later)
    by_cases closing : c = ']'
    · subst closing
      cases depth with
      | zero =>
        rw [cutAtClosing?_outer] at found
        obtain ⟨rfl, rfl⟩ := Prod.mk.inj (Option.some.inj found)
        exact Index.nil
      | succ depth =>
        rw [cutAtClosing?_inner] at found
        obtain ⟨more, rfl, later⟩ := exists_of_map_cons found
        exact ⟨[], more, rfl, .nil, ih later⟩
    · rw [cutAtClosing?_plain noQuote opening closing] at found
      obtain ⟨more, rfl, later⟩ := exists_of_map_cons found
      exact ClosesAt.append (Index.plain noQuote opening closing .nil) (ih later)

/-- The end of an index is found exactly behind an index. -/
theorem cutAtClosing?_eq_some_iff {s index after : Text} :
    cutAtClosing? '[' ']' 1 .outside s = some (index, after) ↔
      s = index ++ ']' :: after ∧ Index index := by
  constructor
  · intro found
    exact ⟨Checked.eq_append_of_cutAtClosing found, endsIndex_of_cutAtClosing? found⟩
  · rintro ⟨rfl, nested⟩
    rw [nested.cutAtClosing?_append, cutAtClosing?_outer]
    simp

/-! ## Trailers -/

/-- An attribute is one trailer. -/
theorem isTrailers_member {name rest : Text} (identifier : isIdentifier name = true)
    (stops : StopsAt isWordChar rest) : isTrailers ('.' :: (name ++ rest)) = isTrailers rest := by
  cases name with
  | nil => cases identifier
  | cons c name =>
    rw [isIdentifier, Bool.and_eq_true, List.all_eq_true] at identifier
    rw [List.cons_append, isTrailers, identifier.1, Bool.true_and, afterWord,
      stops.dropWhile_append identifier.2]

/-- A subscript is one trailer. -/
theorem isTrailers_subscript {index rest : Text} (filled : index ≠ []) (nested : Index index) :
    isTrailers ('[' :: (index ++ ']' :: rest)) = isTrailers rest := by
  have found := cutAtClosing?_eq_some_iff.mpr ⟨@rfl _ (index ++ ']' :: rest), nested⟩
  rw [isTrailers]
  split
  next own after found' =>
    obtain ⟨rfl, rfl⟩ := Prod.mk.inj (Option.some.inj (found.symm.trans found'))
    rw [List.isEmpty_eq_false_iff.mpr filled]
    rfl
  next missing => cases found.symm.trans missing

/-- Reading a text that starts with a place comes down to reading what is behind the place as
trailers, unless it makes the last identifier longer. -/
theorem SinglePlace.isSinglePlace_append {place : Text} (target : SinglePlace place) {rest : Text}
    (stops : StopsAt isWordChar rest) : isSinglePlace (place ++ rest) = isTrailers rest := by
  induction target generalizing rest with
  | @name s identifier =>
    cases s with
    | nil => cases identifier
    | cons c s =>
      rw [isIdentifier, Bool.and_eq_true, List.all_eq_true] at identifier
      rw [List.cons_append, isSinglePlace, identifier.1, Bool.true_and, afterWord,
        stops.dropWhile_append identifier.2]
  | @member place name _ identifier ih =>
    rw [List.append_assoc, List.cons_append, ih (stopsAt_cons (by decide) _),
      isTrailers_member identifier stops]
  | @subscript place index _ filled nested ih =>
    rw [List.append_assoc, List.append_assoc, List.cons_append, List.singleton_append,
      ih (stopsAt_cons (by decide) _), isTrailers_subscript filled nested]

/-- A text that starts like an identifier is an identifier and what is behind the word. -/
theorem exists_append_afterWord {c : Char} (start : isWordStart c = true) (rest : Text) :
    ∃ name, isIdentifier name = true ∧ c :: rest = name ++ afterWord rest := by
  refine ⟨leadingWord (c :: rest), Token.isIdentifier_leadingWord start rest, ?_⟩
  have split : c :: rest = leadingWord (c :: rest) ++ afterWord (c :: rest) :=
    List.takeWhile_append_dropWhile.symm
  rwa [afterWord, List.dropWhile_cons_of_pos (isWordChar_of_isWordStart start)] at split

/-- A place with trailers behind it is a place. -/
theorem SinglePlace.append_trailers {place rest : Text} (target : SinglePlace place)
    (trailers : isTrailers rest = true) : SinglePlace (place ++ rest) := by
  fun_induction isTrailers rest generalizing place with
  | case1 => rwa [List.append_nil]
  | case2 c rest ih =>
    rw [Bool.and_eq_true] at trailers
    obtain ⟨name, identifier, split⟩ := exists_append_afterWord trailers.1 rest
    have longer := ih (target.member identifier) trailers.2
    rw [List.append_assoc, List.cons_append, ← split] at longer
    exact longer
  | case3 rest index after found ih =>
    rw [Bool.and_eq_true, Bool.not_eq_true', List.isEmpty_eq_false_iff] at trailers
    obtain ⟨rfl, nested⟩ := cutAtClosing?_eq_some_iff.mp found
    have longer := ih (target.subscript trailers.1 nested) trailers.2
    simpa using longer
  | case4 => cases trailers
  | case5 => cases trailers

/-- The single places that are accepted are those of the grammar. -/
theorem isSinglePlace_iff {s : Text} : isSinglePlace s = true ↔ SinglePlace s := by
  constructor
  · intro place
    cases s with
    | nil => cases place
    | cons c rest =>
      rw [isSinglePlace, Bool.and_eq_true] at place
      obtain ⟨name, identifier, split⟩ := exists_append_afterWord place.1 rest
      rw [split]
      exact (SinglePlace.name identifier).append_trailers place.2
  · intro target
    have read := target.isSinglePlace_append (stopsAt_nil isWordChar)
    rwa [List.append_nil, isTrailers] at read

/-- The left side of an assignment is one place or several, as the grammar derives them: a text is
accepted exactly if it has parts between its commas at top level and each of them is a single
place. -/
theorem isPlace_grammar (s : Text) :
    isPlace s = true ↔ splitCommas s ≠ [] ∧ ∀ part ∈ splitCommas s, SinglePlace part := by
  rw [isPlace, Bool.and_eq_true, Bool.not_eq_true', List.isEmpty_eq_false_iff, List.all_eq_true]
  simp only [isSinglePlace_iff]

-- The quoted bracket does not end the subscript, and an empty subscript is none.
example : SinglePlace "d['[' + ü[0]].x".toList ∧ ¬ SinglePlace "d[]".toList :=
  ⟨isSinglePlace_iff.mp (by decide +kernel), fun place =>
    absurd (isSinglePlace_iff.mpr place) (by decide +kernel)⟩

end Outline.Text
