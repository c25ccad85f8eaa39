import Outline.Text.Basic

/-!
# Inside and outside string literals

Every search in a line has to know whether a character belongs to a string literal. A scan keeps
that as a `Quoting`, which one character at a time moves on. Two readings occur: `step` honours
backslash escapes, and `stepPlain` takes every matching quote as the end.
-/

set_option autoImplicit false

namespace Outline

/-- Where a scan stands with respect to string literals. -/
inductive Quoting where
  /-- Outside every literal. -/
  | outside
  /-- Inside a literal that the given quote ends. -/
  | inside (quote : Char)
  /-- Inside such a literal, right after a backslash. -/
  | escaped (quote : Char)
  deriving DecidableEq, Repr

namespace Text

/-- Whether a character opens a string literal. -/
def isQuote (c : Char) : Bool := c == '"' || c == '\''

end Text

namespace Quoting

/-- The scan moves over one character; a backslash inside a literal protects the next one. -/
def step : Quoting → Char → Quoting
  | .outside, c => if Text.isQuote c then .inside c else .outside
  | .inside q, c => if c = '\\' then .escaped q else if c = q then .outside else .inside q
  | .escaped q, _ => .inside q

/-- The scan moves over one character; a backslash has no meaning of its own. -/
def stepPlain : Quoting → Char → Quoting
  | .outside, c => if Text.isQuote c then .inside c else .outside
  | .inside q, c => if c = q then .outside else .inside q
  | .escaped q, c => if c = q then .outside else .inside q

end Quoting
end Outline
