import Outline.Header.Letter
import Outline.Text.Basic

/-!
# The pieces of a header

Headers and range sugar are read by a small grammar: gaps of spaces and tabs, keywords, names and
integers. A name here is a letter or underscore followed by letters, ASCII digits and underscores.
Reading goes forward only: what a piece has taken is never given back.
-/

set_option autoImplicit false

namespace Outline.Grammar

/-- Whether a character may stand between two pieces. -/
def isGap (c : Char) : Bool := c == ' ' || c == '\t'

/-- The text without the gap it starts with. -/
def skipGap (s : Text) : Text := s.dropWhile isGap

/-- Whether a character may start a name. -/
def isNameStart [Letters] (c : Char) : Bool := Letters.isLetter c || c == '_'

/-- Whether a character may stand inside a name. -/
def isNameChar [Letters] (c : Char) : Bool := Letters.isLetter c || c.isDigit || c == '_'

/-- A name at the front of a text, and what follows it. -/
def readName? [Letters] : Text → Option (Text × Text)
  | [] => none
  | c :: rest =>
    if isNameStart c then some (c :: rest.takeWhile isNameChar, rest.dropWhile isNameChar) else none

/-- What follows a keyword at the front of a text; a longer name is not that keyword. -/
def readKeyword? [Letters] (keyword s : Text) : Option Text :=
  match Text.after? keyword s with
  | none => none
  | some [] => some []
  | some (c :: rest) => if isNameChar c then none else some (c :: rest)

/-- The rest of a header, trimmed; there must be something. -/
def readRest? (s : Text) : Option Text := if s.isEmpty then none else some (Text.trim s)

/-- An integer at the front of a text, and what follows it: ASCII digits, perhaps after a minus
sign. -/
def readInteger? (s : Text) : Option (Text × Text) :=
  match s with
  | '-' :: c :: rest =>
    if c.isDigit then some ('-' :: c :: rest.takeWhile Char.isDigit, rest.dropWhile Char.isDigit)
    else none
  | c :: rest =>
    if c.isDigit then some (c :: rest.takeWhile Char.isDigit, rest.dropWhile Char.isDigit) else none
  | [] => none

theorem length_skipGap_le (s : Text) : (skipGap s).length ≤ s.length :=
  (List.dropWhile_sublist isGap).length_le

/-- A name takes something. -/
theorem length_lt_of_readName [Letters] {s name rest : Text}
    (read : readName? s = some (name, rest)) : rest.length < s.length := by
  cases s with
  | nil => cases read
  | cons c tail =>
    rw [readName?] at read
    split at read
    · obtain ⟨rfl, rfl⟩ := Prod.mk.inj (Option.some.inj read)
      exact Nat.lt_succ_of_le (List.dropWhile_sublist isNameChar).length_le
    · cases read

/-- An integer takes something. -/
theorem length_lt_of_readInteger {s digits rest : Text}
    (read : readInteger? s = some (digits, rest)) : rest.length < s.length := by
  have shorter (tail : Text) : (tail.dropWhile Char.isDigit).length ≤ tail.length :=
    (List.dropWhile_sublist Char.isDigit).length_le
  unfold readInteger? at read
  split at read
  next c tail =>
    split at read
    · obtain ⟨rfl, rfl⟩ := Prod.mk.inj (Option.some.inj read)
      have := shorter tail
      simp only [List.length_cons]
      omega
    · cases read
  next c tail _ =>
    split at read
    · obtain ⟨rfl, rfl⟩ := Prod.mk.inj (Option.some.inj read)
      exact Nat.lt_succ_of_le (shorter tail)
    · cases read
  next => cases read

end Outline.Grammar
