import Outline.Text.Basic
import Outline.Text.Hidden

/-!
# Quoted text

Messages show a piece of text in double quotes, so that a reader sees exactly what it holds: the
quote and the backslash are escaped, and a hidden character is given by its code point.
-/

set_option autoImplicit false

namespace Outline.Text

/-- A character as it stands in quoted text. -/
def quoteChar (c : Char) : Text :=
  if c = '\x00' then ['\\', '0']
  else if c = '\t' then ['\\', 't']
  else if c = '\n' then ['\\', 'n']
  else if c = '\r' then ['\\', 'r']
  else if c = '"' then ['\\', '"']
  else if c = '\\' then ['\\', '\\']
  else if isHidden c then ['\\', 'u', '{'] ++ Nat.toDigits 16 c.toNat ++ ['}']
  else [c]

/-- A text in double quotes. -/
def quoted (s : Text) : Text := '"' :: s.flatMap quoteChar ++ ['"']

end Outline.Text
