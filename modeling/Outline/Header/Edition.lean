import Outline.Header.Letter

/-!
# An edition of the letters

The letters with which the program runs: the alphabetic characters and those of a later edition of
Unicode. Statements are made for all letters; only runs on given texts depend on this edition.
-/

set_option autoImplicit false

namespace Outline.Letters

/-- Code points that are letters in headers and alphabetic nowhere else, as ascending closed
ranges. -/
def laterRanges : List (Nat × Nat) := [
  (0x558, 0x558), (0x58B, 0x58C), (0x5C8, 0x5C9), (0x208F, 0x208F), (0x209D, 0x209F),
  (0xA7DD, 0xA7DD), (0xAB6C, 0xAB6D), (0x107BB, 0x107BF), (0x10ECB, 0x10ECD), (0x10ED9, 0x10EEE),
  (0x10EF3, 0x10EF5), (0x10EF7, 0x10EF8), (0x11B0A, 0x11B0A), (0x11DF0, 0x11DF1),
  (0x1246F, 0x1246F), (0x12475, 0x1247F), (0x12550, 0x12686), (0x18CD6, 0x18CDA),
  (0x18D1F, 0x18D20), (0x18E00, 0x19191), (0x191A0, 0x191D2), (0x1B123, 0x1B128),
  (0x1B168, 0x1B168), (0x1DF50, 0x1DF50), (0x2B81E, 0x2B81E), (0x3D000, 0x3FC3F)]

/-- All letters of the table are beyond ASCII. -/
theorem le_of_inRanges_laterRanges {point : Nat}
    (later : Text.inRanges laterRanges point = true) : 0x80 ≤ point := by
  obtain ⟨range, mem, low, _⟩ := (Text.inRanges_iff _ _).mp later
  have all : (laterRanges.all fun range => 0x80 ≤ range.1) = true := by decide
  have bound : 0x80 ≤ range.1 := by simpa using List.all_eq_true.mp all range mem
  omega

/-- No later letter is a number of any script. -/
theorem isNumeric_of_inRanges_laterRanges {c : Char}
    (later : Text.inRanges laterRanges c.toNat = true) : Text.isNumeric c = false := by
  have large := le_of_inRanges_laterRanges later
  rw [Text.isNumeric, if_neg (by omega), Bool.eq_false_iff]
  intro numeric
  obtain ⟨range, inLater, low, high⟩ := (Text.inRanges_iff _ _).mp later
  obtain ⟨other, inNumeric, lowOther, highOther⟩ := (Text.inRanges_iff _ _).mp numeric
  have apart : (laterRanges.all fun range => Text.numericRanges.all fun other =>
      decide (range.2 < other.1 ∨ other.2 < range.1)) = true := by decide +kernel
  have disjoint := List.all_eq_true.mp (List.all_eq_true.mp apart range inLater) other inNumeric
  rw [decide_eq_true_eq] at disjoint
  omega

/-- The letters of the later edition. -/
instance edition : Letters where
  isLetter c := Text.isAlphabetic c || Text.inRanges laterRanges c.toNat
  ascii {c} small := by
    cases later : Text.inRanges laterRanges c.toNat with
    | false => rw [Bool.or_false]
    | true => exact absurd (le_of_inRanges_laterRanges later) (Nat.not_le_of_lt small)
  alphabetic alphabetic := by rw [alphabetic, Bool.true_or]
  number {c} number letter := by
    rcases (Bool.or_eq_true _ _).mp letter with alphabetic | later
    · exact alphabetic
    · rw [isNumeric_of_inRanges_laterRanges later] at number
      cases number
  blank {c} blank := by
    have none : (Text.blanks.all fun c =>
        !(Text.isAlphabetic c || Text.inRanges laterRanges c.toNat)) = true := by decide +kernel
    simpa using List.all_eq_true.mp none c ((Text.isBlank_iff c).mp blank)

end Outline.Letters
