import Outline.Text.Alphabetic
import Outline.Text.Basic
import Outline.Text.Numeric

/-!
# Words and names

A word is a run of letters, numbers and underscores. An identifier is a word that starts with a
letter or an underscore, and a dotted path is identifiers joined by dots.
-/

set_option autoImplicit false

namespace Outline.Text

/-- Whether a character may start an identifier. -/
def isWordStart (c : Char) : Bool := isAlphabetic c || c == '_'

/-- Whether a character may stand inside a word. -/
def isWordChar (c : Char) : Bool := isAlphabetic c || isNumeric c || c == '_'

/-- What starts a word can also go on with it. -/
theorem isWordChar_of_isWordStart {c : Char} (start : isWordStart c = true) :
    isWordChar c = true := by
  simp only [isWordStart, isWordChar, Bool.or_eq_true] at *
  rcases start with h | h
  · exact .inl (.inl h)
  · exact .inr h

theorem isWordChar_of_isDigit {c : Char} (digit : c.isDigit = true) : isWordChar c = true := by
  have small : c.toNat < 0x80 := by
    simp only [Char.isDigit, Bool.and_eq_true, decide_eq_true_eq] at digit
    have : c.val.toNat ≤ 57 := digit.2
    exact Nat.lt_of_le_of_lt this (by decide)
  simp [isWordChar, isNumeric, small, digit]

/-- Whether a text is a single identifier. -/
def isIdentifier : Text → Bool
  | [] => false
  | c :: rest => isWordStart c && rest.all isWordChar

/-- Whether a text is identifiers joined by dots. -/
def isDottedPath (s : Text) : Bool := (s.splitOn '.').all isIdentifier

/-- The word a text starts with, possibly empty. -/
def leadingWord (s : Text) : Text := s.takeWhile isWordChar

/-- What follows the word a text starts with. -/
def afterWord (s : Text) : Text := s.dropWhile isWordChar

theorem length_afterWord_le (s : Text) : (afterWord s).length ≤ s.length :=
  (List.dropWhile_sublist isWordChar).length_le

/-- The texts before and after the first dot. -/
def cutAtFirstDot? (s : Text) : Option (Text × Text) :=
  match s.dropWhile (· != '.') with
  | [] => none
  | _ :: rest => some (s.takeWhile (· != '.'), rest)

/-- The texts before and after the last dot. -/
def cutAtLastDot? (s : Text) : Option (Text × Text) :=
  (cutAtFirstDot? s.reverse).map fun (last, first) => (first.reverse, last.reverse)

end Outline.Text
