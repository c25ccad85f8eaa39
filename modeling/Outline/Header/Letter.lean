import Outline.Text.Blank
import Outline.Text.Word

/-!
# Letters in headers

The names of headers and of range sugar are made of letters that are given from outside: which
characters they are is not settled here. `Letters` says what is known of them. They are those of
some edition of Unicode, which knows every character that is alphabetic elsewhere and may know more;
so a name that a header introduces need not be an identifier of the statements after it.
-/

set_option autoImplicit false

namespace Outline

/-- The letters of headers and of range sugar. -/
class Letters where
  /-- Whether a character is a letter in a header. -/
  isLetter : Char → Bool
  /-- Below U+0080 the letters are the alphabetic characters. -/
  ascii {c : Char} (small : c.toNat < 0x80) : isLetter c = Text.isAlphabetic c
  /-- Every alphabetic character is a letter. -/
  alphabetic {c : Char} (alphabetic : Text.isAlphabetic c = true) : isLetter c = true
  /-- A number of any script is a letter only if it is alphabetic. -/
  number {c : Char} (number : Text.isNumeric c = true) (letter : isLetter c = true) :
    Text.isAlphabetic c = true
  /-- A blank is no letter. -/
  blank {c : Char} (blank : Text.isBlank c = true) : isLetter c = false

end Outline
