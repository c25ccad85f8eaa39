/-!
# Blank characters

A character is blank when it has the Unicode property White_Space. There are few of them, so the
property is a membership test in a list of single characters.
-/

set_option autoImplicit false

namespace Outline.Text

/-- The characters with the Unicode property White_Space, ascending. -/
def blanks : List Char :=
  ['\t', '\n', '\x0b', '\x0c', '\r', ' ', '\u0085', '\u00a0', '\u1680', '\u2000', '\u2001',
    '\u2002', '\u2003', '\u2004', '\u2005', '\u2006', '\u2007', '\u2008', '\u2009', '\u200a',
    '\u2028', '\u2029', '\u202f', '\u205f', '\u3000']

/-- Whether a character is white space. -/
def isBlank (c : Char) : Bool := blanks.contains c

/-- The blanks are those of the table. -/
theorem isBlank_iff (c : Char) : isBlank c = true ↔ c ∈ blanks := by
  simp [isBlank]

end Outline.Text
