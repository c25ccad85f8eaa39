import Mathlib.Order.Bounds.Basic
import Mathlib.Order.WellFounded
import Outline.Proofs.Checked.Text

/-!
# First occurrences

A search for a word goes on behind each occurrence that it refuses, so it never looks at an
occurrence that overlaps a refused one. Nothing is lost by that as long as no occurrence that starts
inside another one would be approved (`Text.Apart`). The search then finds the first of all
occurrences that are approved, counted in bytes (`Text.isFirstPlace_cutAtOccurrence?`).
-/

set_option autoImplicit false

namespace Outline

/-! ## The first of some places -/

/-- An answer to the question which of some places comes first; there may be none. -/
def IsFirstPlace (places : Set Nat) : Option Nat → Prop
  | some place => IsLeast places place
  | none => places = ∅

theorem IsFirstPlace.unique {places : Set Nat} {found other : Option Nat}
    (first : IsFirstPlace places found) (second : IsFirstPlace places other) : found = other := by
  cases found with
  | none =>
    cases other with
    | none => rfl
    | some place =>
      have empty : places = ∅ := first
      exact absurd (empty ▸ second.1) (Set.notMem_empty place)
  | some place =>
    cases other with
    | none =>
      have empty : places = ∅ := second
      exact absurd (empty ▸ first.1) (Set.notMem_empty place)
    | some next => exact congrArg some (IsLeast.unique first second)

/-- The question always has an answer. -/
theorem exists_isFirstPlace (places : Set Nat) : ∃ found, IsFirstPlace places found := by
  rcases places.eq_empty_or_nonempty with empty | filled
  · exact ⟨none, empty⟩
  · obtain ⟨place, mem, least⟩ := Nat.lt_wfRel.wf.has_min places filled
    exact ⟨some place, mem, fun other isPlace => Nat.le_of_not_lt (least other isPlace)⟩

/-- The first of some places is also the first of others exactly if the first of both is one of
each. -/
theorem IsFirstPlace.iff_forall_isLeast {places others : Set Nat} {found : Option Nat}
    (first : IsFirstPlace places found) :
    IsFirstPlace others found ↔
      ∀ place, IsLeast (places ∪ others) place → place ∈ places ∩ others := by
  constructor
  · intro second place least
    cases found with
    | none =>
      have empty : places = ∅ ∧ others = ∅ := ⟨first, second⟩
      rw [empty.1, empty.2, Set.union_empty] at least
      exact absurd least.1 (Set.notMem_empty place)
    | some own =>
      have both := IsLeast.union first second
      rw [min_self] at both
      obtain rfl := both.unique least
      exact ⟨first.1, second.1⟩
  · intro agree
    obtain ⟨either, isFirst⟩ := exists_isFirstPlace (places ∪ others)
    cases either with
    | none =>
      obtain ⟨noPlace, noOther⟩ := Set.union_empty_iff.mp isFirst
      obtain rfl := first.unique (show IsFirstPlace places none from noPlace)
      exact noOther
    | some place =>
      obtain ⟨inPlaces, inOthers⟩ := agree place isFirst
      have least : IsFirstPlace places (some place) :=
        ⟨inPlaces, fun other mem => isFirst.2 (Or.inl mem)⟩
      obtain rfl := first.unique least
      exact ⟨inOthers, fun other mem => isFirst.2 (Or.inr mem)⟩

namespace Text

variable {word : Text} {accept : Text → Text → Bool}

/-! ## Searching for a word -/

/-- What follows a character of the word, its last one apart, is never approved. -/
def Apart (word : Text) (accept : Text → Text → Bool) : Prop :=
  ∀ c ∈ word.dropLast, ∀ before after, accept (c :: before) after = false

/-- An approved occurrence behind a refused one does not overlap it. -/
theorem Apart.exists_eq_append (apart : Apart word accept) {lead behind back after : Text}
    (both : word ++ after = lead ++ (word ++ back))
    (approved : accept (lead.reverse ++ behind) back = true)
    (refused : accept behind after = false) : ∃ more, lead = word ++ more := by
  rcases List.append_eq_append_iff.mp both with ⟨more, beyond, _⟩ | ⟨tail, inside, rest⟩
  · exact ⟨more, beyond⟩
  · rcases List.eq_nil_or_concat lead with rfl | ⟨front, c, rfl⟩
    · -- The two start at the same place, so they are the same.
      rw [List.nil_append] at inside
      subst inside
      obtain rfl := List.append_cancel_left rest
      rw [List.reverse_nil, List.nil_append, refused] at approved
      cases approved
    · cases tail with
      | nil => exact ⟨[], by rw [inside, List.append_nil, List.append_nil]⟩
      | cons d tail =>
        have early : c ∈ word.dropLast := by
          rw [inside, List.dropLast_append_of_ne_nil (List.cons_ne_nil d tail)]
          simp
        rw [List.concat_eq_append, List.reverse_append, List.reverse_singleton,
          List.singleton_append, List.cons_append, apart c early] at approved
        cases approved

/-- The search misses nothing: it comes to an occurrence that is approved, or stops before it. -/
theorem exists_cutAtOccurrenceFrom (filled : word ≠ []) (apart : Apart word accept)
    {behind lead back : Text} (approved : accept (lead.reverse ++ behind) back = true) :
    ∃ before after,
      cutAtOccurrenceFrom word accept 0 behind (lead ++ (word ++ back)) = some (before, after) ∧
        before.length ≤ behind.length + lead.length := by
  -- Each round passes over a character, or over all of a refused occurrence.
  induction size : lead.length using Nat.strongRecOn generalizing behind lead with
  | _ count ih =>
    cases here : after? word (lead ++ (word ++ back)) with
    | none =>
      cases lead with
      | nil => simp [after?_eq_some_iff.mpr rfl] at here
      | cons c lead =>
        have absent : ¬(after? word (c :: (lead ++ (word ++ back)))).isSome := by
          rw [← List.cons_append, here]
          decide
        rw [List.reverse_cons, List.append_assoc, List.singleton_append] at approved
        rw [List.length_cons] at size
        obtain ⟨before, after, found, le⟩ := ih lead.length (by omega) approved rfl
        rw [List.cons_append, Checked.cutAtOccurrenceFrom_absent absent]
        rw [List.length_cons] at le
        exact ⟨before, after, found, by omega⟩
    | some after =>
      have both := after?_eq_some_iff.mp here
      rw [both, Checked.cutAtOccurrenceFrom_here filled]
      split
      · exact ⟨_, _, rfl, by rw [List.length_reverse]; omega⟩
      next refused =>
        rw [Bool.not_eq_true] at refused
        obtain ⟨more, rfl⟩ := apart.exists_eq_append both.symm approved refused
        rw [List.append_assoc] at both
        obtain rfl := List.append_cancel_left both
        rw [List.reverse_append, List.append_assoc] at approved
        have positive := List.length_pos_iff.mpr filled
        rw [List.length_append] at size
        obtain ⟨before, after, found, le⟩ := ih more.length (by omega) approved rfl
        refine ⟨before, after, found, ?_⟩
        rw [List.length_append, List.length_reverse] at le
        omega

/-! ## Places in bytes -/

/-- The byte offsets of the occurrences of a word that are approved. -/
def approvedPlaces (word : Text) (accept : Text → Text → Bool) (s : Text) : Set Nat :=
  {place | ∃ before after, s = before ++ (word ++ after) ∧ accept before.reverse after = true ∧
    byteSize before = place}

/-- A longer front of a text takes at least as many bytes. -/
theorem byteSize_le_of_length_le {s front back before after : Text} (split : s = front ++ back)
    (other : s = before ++ after) (le : front.length ≤ before.length) :
    byteSize front ≤ byteSize before := by
  have isPrefix : front <+: before :=
    List.prefix_of_prefix_length_le ⟨back, split.symm⟩ ⟨after, other.symm⟩ le
  obtain ⟨more, rfl⟩ := isPrefix
  rw [byteSize_append]
  omega

/-- The search finds the first occurrence that is approved, and there is none if it finds none. -/
theorem isFirstPlace_cutAtOccurrence? (filled : word ≠ []) (apart : Apart word accept) (s : Text) :
    IsFirstPlace (approvedPlaces word accept s)
      ((cutAtOccurrence? word accept s).map fun cut => byteSize cut.1) := by
  have complete {before after : Text} (split : s = before ++ (word ++ after))
      (approved : accept before.reverse after = true) :
      ∃ front back, cutAtOccurrence? word accept s = some (front, back) ∧
        front.length ≤ before.length := by
    have found := @exists_cutAtOccurrenceFrom _ _ filled apart [] before after
      (by rwa [List.append_nil])
    rw [List.length_nil, Nat.zero_add, ← split] at found
    exact found
  cases cut : cutAtOccurrence? word accept s with
  | none =>
    refine Set.eq_empty_of_forall_notMem ?_
    rintro place ⟨before, after, split, approved, _⟩
    obtain ⟨front, back, found, _⟩ := complete split approved
    cases cut.symm.trans found
  | some parts =>
    obtain ⟨before, after⟩ := parts
    have split : s = before ++ (word ++ after) := eq_append_of_cutAtOccurrenceFrom cut
    refine ⟨⟨before, after, split, accept_of_cutAtOccurrenceFrom cut, rfl⟩, ?_⟩
    rintro place ⟨other, rest, splitOther, approved, rfl⟩
    obtain ⟨front, back, found, le⟩ := complete splitOther approved
    obtain ⟨rfl, rfl⟩ := Prod.mk.inj (Option.some.inj (cut.symm.trans found))
    exact byteSize_le_of_length_le split splitOther le

end Text
end Outline
