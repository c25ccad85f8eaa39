import Outline.Text.Blank

/-!
# Text

The library works on text as a list of characters; `String` appears only where text enters or
leaves it. This module holds the operations that need no idea of the document language: trimming,
cutting into lines, finding an occurrence, and the byte measure in which columns are counted.
-/

set_option autoImplicit false

namespace Outline

/-- A text is the list of its characters. -/
abbrev Text := List Char

namespace Text

/-! ## Trimming -/

/-- The text without its leading blanks. -/
def trimStart (s : Text) : Text := s.dropWhile isBlank

/-- The text without its trailing blanks. -/
def trimEnd (s : Text) : Text := (s.reverse.dropWhile isBlank).reverse

/-- The text without the blanks at either end. -/
def trim (s : Text) : Text := trimEnd (trimStart s)

/-- The trimmed text, or nothing when only blanks are there. -/
def nonBlank? (s : Text) : Option Text :=
  match trim s with
  | [] => none
  | c :: rest => some (c :: rest)

theorem length_trimStart_le (s : Text) : (trimStart s).length ≤ s.length :=
  (List.dropWhile_sublist isBlank).length_le

theorem length_trimEnd_le (s : Text) : (trimEnd s).length ≤ s.length := by
  have h := (List.dropWhile_sublist (l := s.reverse) isBlank).length_le
  simpa [trimEnd] using h

theorem length_trim_le (s : Text) : (trim s).length ≤ s.length :=
  Nat.le_trans (length_trimEnd_le _) (length_trimStart_le _)

/-! ## Lines -/

/-- The lines of a text. A line feed ends a line, together with a carriage return right before it;
what follows the last line feed is a line only if it is not empty. -/
def lines : Text → List Text
  | [] => []
  | '\n' :: rest => [] :: lines rest
  | '\r' :: '\n' :: rest => [] :: lines rest
  | c :: rest =>
    match lines rest with
    | [] => [[c]]
    | line :: more => (c :: line) :: more

/-! ## Occurrences -/

/-- What follows a text that starts in a given way. -/
def after? : (lead s : Text) → Option Text
  | [], s => some s
  | _ :: _, [] => none
  | a :: lead, b :: s => if a = b then after? lead s else none

@[simp]
theorem after?_eq_some_iff {lead s rest : Text} :
    after? lead s = some rest ↔ s = lead ++ rest := by
  induction lead generalizing s with
  | nil => simp [after?]
  | cons a lead ih =>
    cases s with
    | nil => simp [after?]
    | cons b s =>
      rw [after?]
      split
      next same => simp [ih, same]
      next differ => simp [Ne.symm differ]

/-- The search behind `cutAtOccurrence?`: `skip` characters are still part of a refused
occurrence, and `before` holds what lies behind, last character first. -/
def cutAtOccurrenceFrom (word : Text) (accept : Text → Text → Bool) :
    (skip : Nat) → (before : Text) → Text → Option (Text × Text)
  | skip, before, rest =>
    match if skip = 0 then after? word rest else none with
    | some after =>
      if accept before after then some (before.reverse, after)
      else
        match rest with
        | [] => none
        | c :: rest => cutAtOccurrenceFrom word accept (word.length - 1) (c :: before) rest
    | none =>
      match rest with
      | [] => none
      | c :: rest => cutAtOccurrenceFrom word accept (skip - 1) (c :: before) rest

/-- What stands before and after the first occurrence of a word that `accept` approves. The
occurrences are taken from left to right without overlap; `accept` sees the text before, last
character first, and the text after. -/
def cutAtOccurrence? (word : Text) (accept : Text → Text → Bool) (s : Text) :
    Option (Text × Text) :=
  cutAtOccurrenceFrom word accept 0 [] s

/-! ## Bytes -/

/-- The number of bytes a text takes in UTF-8. -/
def byteSize (s : Text) : Nat := s.foldl (fun size c => size + c.utf8Size) 0

/-- The text from a byte offset on. -/
def dropBytes : Text → Nat → Text
  | [], _ => []
  | c :: rest, n => if n = 0 then c :: rest else dropBytes rest (n - c.utf8Size)

/-! ## Numbers -/

/-- The decimal digits of a number. -/
def ofNat (n : Nat) : Text := Nat.toDigits 10 n

/-- The decimal digits of a number, padded with zeros on the left to a width. -/
def padded (width n : Nat) : Text :=
  List.replicate (width - (ofNat n).length) '0' ++ ofNat n

end Text
end Outline
