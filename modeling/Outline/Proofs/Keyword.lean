import Outline.Proofs.Known
import Outline.Proofs.Occurrence

/-!
# Keywords at top level

Two searches ask whether a place of a text is at top level. The one for a character honours
backslash escapes inside string literals; the one for a keyword takes every quote of its kind as the
end of a literal. Otherwise they read alike: the scan without escapes is the image of the scan with
escapes (`Nesting.unescaped_step`), until a backslash protects the quote that would end a literal.
The search for a keyword misses no whole word at top level of its own scan, although it jumps
over what it refuses; `Text.keywordPlace_least` says when the other scan gives the same answer.
-/

set_option autoImplicit false

namespace Outline

/-! ## Scans with and without escapes -/

namespace Quoting

/-- A place of the scan with escapes, as the scan without them sees it. -/
def unescaped : Quoting → Quoting
  | .outside => .outside
  | .inside quote => .inside quote
  | .escaped quote => .inside quote

/-- One character moves both scans alike, unless it is the quote that a backslash protects. -/
theorem unescaped_step {quoting : Quoting} (proper : quoting.Proper) {c : Char}
    (free : quoting ≠ .escaped c) : (quoting.step c).unescaped = quoting.unescaped.stepPlain c := by
  cases quoting with
  | outside =>
    unfold step unescaped stepPlain
    by_cases quote : Text.isQuote c = true <;> simp [quote]
  | inside quote =>
    have noSlash : quote ≠ '\\' := by
      rintro rfl
      cases proper
    by_cases slash : c = '\\'
    · subst slash
      simp [step, unescaped, stepPlain, noSlash.symm]
    · by_cases same : c = quote
      · subst same
        simp [step, unescaped, stepPlain, slash]
      · simp [step, unescaped, stepPlain, slash, same]
  | escaped quote =>
    have differ : c ≠ quote := fun same => free (by rw [same])
    simp [step, unescaped, stepPlain, differ]

theorem unescaped_eq_outside_iff {quoting : Quoting} :
    quoting.unescaped = .outside ↔ quoting = .outside := by
  cases quoting <;> simp [unescaped]

end Quoting

namespace Nesting

/-- A state of the scan with escapes, as the scan without them sees it. -/
def unescaped (n : Nesting) : Nesting := ⟨n.depth, n.quoting.unescaped⟩

/-- Whether a scan is at top level does not depend on escapes. -/
theorem isTop_unescaped (n : Nesting) : n.unescaped.isTop = n.isTop := by
  rw [Bool.eq_iff_iff, isTop_iff, isTop_iff]
  exact and_congr_right fun _ => Quoting.unescaped_eq_outside_iff

theorem unescaped_step {n : Nesting} (proper : n.quoting.Proper) {c : Char}
    (free : n.quoting ≠ .escaped c) : (n.step c).unescaped = n.unescaped.stepPlain c := by
  unfold unescaped step stepPlain
  simp only [Quoting.unescaped_step proper free, Quoting.unescaped_eq_outside_iff]

end Nesting

namespace Text

/-- No string literal of a text holds the quote that ends it behind a backslash. -/
def Unprotected (s : Text) : Prop :=
  ∀ front quote back, s = front ++ quote :: back →
    front.foldl Quoting.step .outside ≠ .escaped quote

/-- Whether no quote from a place of the scan on is protected so. -/
def isUnprotected : Quoting → Text → Bool
  | _, [] => true
  | quoting, c :: rest => quoting != .escaped c && isUnprotected (quoting.step c) rest

/-- No backslash in an unprotected text stands before the quote that would end its string. -/
theorem isUnprotected_iff {quoting : Quoting} {s : Text} :
    isUnprotected quoting s = true ↔ ∀ front quote back, s = front ++ quote :: back →
      front.foldl Quoting.step quoting ≠ .escaped quote := by
  induction s generalizing quoting with
  | nil => simp [isUnprotected]
  | cons c rest ih =>
    rw [isUnprotected, Bool.and_eq_true, bne_iff_ne, ih]
    constructor
    · rintro ⟨own, later⟩ front quote back split
      cases front with
      | nil =>
        obtain ⟨rfl, _⟩ := List.cons.inj split
        exact own
      | cons d front =>
        obtain ⟨rfl, inRest⟩ := List.cons.inj split
        exact later front quote back inRest
    · intro free
      refine ⟨free [] c rest rfl, fun front quote back split => ?_⟩
      exact free (c :: front) quote back (by rw [split, List.cons_append])

instance (s : Text) : Decidable (Unprotected s) := decidable_of_iff _ isUnprotected_iff

theorem Unprotected.front {before after : Text} (free : Unprotected (before ++ after)) :
    Unprotected before := by
  intro front quote back split
  apply free front quote (back ++ after)
  rw [split, List.append_assoc, List.cons_append]

/-- Over such a text both scans come to the same state. -/
theorem unescaped_foldl_step {s : Text} (free : Unprotected s) :
    (s.foldl Nesting.step .start).unescaped = s.foldl Nesting.stepPlain .start := by
  induction s using List.reverseRecOn with
  | nil => rfl
  | append_singleton s c ih =>
    have own : (s.foldl Nesting.step .start).quoting ≠ .escaped c := by
      rw [Nesting.quoting_foldl_step]
      exact free s c [] rfl
    have proper : (s.foldl Nesting.step .start).quoting.Proper :=
      @Nesting.proper_foldl_step .start trivial s
    rw [List.foldl_append, List.foldl_append, ← ih free.front]
    exact Nesting.unescaped_step proper own

/-- Where no quote is protected, the two kinds of scan agree on the top level. -/
theorem endsTop_iff_endsAtTop {s : Text} (free : Unprotected s) :
    EndsTop s ↔ endsAtTop s = true := by
  rw [EndsTop, endsAtTop, ← unescaped_foldl_step free, Nesting.isTop_unescaped]

/-! ## The places of a keyword -/

/-- The byte offsets at which a keyword stands as a whole word behind a text that ends at top
level. -/
def keywordPlaces (top : Text → Prop) (keyword s : Text) : Set Nat :=
  {place | ∃ before after, s = before ++ (keyword ++ after) ∧
    (∀ c ∈ before.getLast?, isWordChar c = false) ∧ (∀ c ∈ after.head?, isWordChar c = false) ∧
    top before ∧ byteSize before = place}

/-- The byte offset at which the search finds a keyword. -/
def keywordPlace? (keyword s : Text) : Option Nat :=
  (cutAtKeyword? keyword s).map fun cut => byteSize cut.1

theorem isWordBoundary_iff {s : Text} :
    isWordBoundary s = true ↔ ∀ c ∈ s.head?, isWordChar c = false := by
  cases s <;> simp [isWordBoundary]

section

variable {keyword : Text} (filled : keyword ≠ []) (word : ∀ c ∈ keyword, isWordChar c = true)

include filled word

/-- The search finds the first place at top level of its own scan. -/
theorem isFirstPlace_keywordPlace? (s : Text) :
    IsFirstPlace (keywordPlaces (endsAtTop ·) keyword s) (keywordPlace? keyword s) := by
  let accept (before after : Text) : Bool :=
    isWordBoundary before && isWordBoundary after && endsAtTop before.reverse
  have apart : Apart keyword accept := by
    intro c early before after
    have inWord := word c (List.dropLast_subset _ early)
    simp [accept, isWordBoundary, inWord]
  have same : approvedPlaces keyword accept s = keywordPlaces (endsAtTop ·) keyword s := by
    ext place
    simp only [approvedPlaces, keywordPlaces, accept, Set.mem_ofPred_eq, Bool.and_eq_true,
      isWordBoundary_iff, List.head?_reverse, List.reverse_reverse, and_assoc]
  rw [← same]
  exact isFirstPlace_cutAtOccurrence? filled apart s

/-- A keyword is found at the first place where it is a whole word outside every bracket and every
string literal, all quotes of a kind ending a literal. That is the first place outside brackets and
literals with escapes exactly if the first place of both kinds is of each kind; so it is if no
literal holds the quote that ends it behind a backslash. -/
theorem keywordPlace_least (s : Text) :
    IsFirstPlace (keywordPlaces (endsAtTop ·) keyword s) (keywordPlace? keyword s) ∧
      (IsFirstPlace (keywordPlaces EndsTop keyword s) (keywordPlace? keyword s) ↔
        ∀ place,
          IsLeast (keywordPlaces (endsAtTop ·) keyword s ∪ keywordPlaces EndsTop keyword s) place →
          place ∈ keywordPlaces (endsAtTop ·) keyword s ∩ keywordPlaces EndsTop keyword s) ∧
      (Unprotected s →
        IsFirstPlace (keywordPlaces EndsTop keyword s) (keywordPlace? keyword s)) := by
  have first := isFirstPlace_keywordPlace? filled word s
  refine ⟨first, first.iff_forall_isLeast, fun free => ?_⟩
  have same : keywordPlaces EndsTop keyword s = keywordPlaces (endsAtTop ·) keyword s := by
    ext place
    constructor
    · rintro ⟨before, after, split, left, right, top, size⟩
      rw [split] at free
      exact ⟨before, after, split, left, right, (endsTop_iff_endsAtTop free.front).mp top, size⟩
    · rintro ⟨before, after, split, left, right, top, size⟩
      rw [split] at free
      exact ⟨before, after, split, left, right, (endsTop_iff_endsAtTop free.front).mpr top, size⟩
  rw [same]
  exact first

end

/-- A keyword behind a longer word, in brackets and in a literal with an escape, and one at top
level. -/
theorem keywordPlace_least_behind :
    let s := "asas(as) 'é\\n as' as b".toList
    Unprotected s ∧ IsFirstPlace (keywordPlaces (endsAtTop ·) "as".toList s) (some 19) ∧
      IsFirstPlace (keywordPlaces EndsTop "as".toList s) (some 19) := by
  intro s
  have free : Unprotected s := by decide
  have found : keywordPlace? "as".toList s = some 19 := by decide +kernel
  have least := @keywordPlace_least "as".toList (by decide)
    (List.all_eq_true.mp (by decide)) s
  rw [found] at least
  exact ⟨free, least.1, least.2.2 free⟩

/-- A quote behind a backslash: the keyword in `'\' as x'` is found inside the literal, and the one
behind the literal of `'a\'' as b` is not found. -/
theorem keywordPlace_protected :
    let inside := "'\\' as x'".toList
    let behind := "'a\\'' as b".toList
    keywordPlace? "as".toList inside = some 4 ∧
      ¬ IsFirstPlace (keywordPlaces EndsTop "as".toList inside) (some 4) ∧
      keywordPlace? "as".toList behind = none ∧
      ¬ IsFirstPlace (keywordPlaces EndsTop "as".toList behind) none := by
  intro inside behind
  refine ⟨by decide +kernel, ?_, by decide +kernel, ?_⟩
  · rintro ⟨⟨before, after, split, _, _, top, size⟩, _⟩
    have cut : Checked.front inside 4 = .ok before := Checked.front_append split size.symm
    have known : Checked.front inside 4 = .ok "'\\' ".toList := by decide
    obtain rfl := Except.ok.inj (cut.symm.trans known)
    exact absurd top (by unfold EndsTop; decide)
  · intro missing
    have found : 6 ∈ keywordPlaces EndsTop "as".toList behind := by
      refine ⟨"'a\\'' ".toList, " b".toList, by decide, ?_, ?_, ?_, by decide⟩
      · rintro c ⟨⟩
        decide
      · rintro c ⟨⟩
        decide
      · unfold EndsTop
        decide
    rw [show keywordPlaces EndsTop "as".toList behind = ∅ from missing] at found
    exact found

end Text
end Outline
