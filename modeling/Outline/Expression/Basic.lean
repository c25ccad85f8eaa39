import Outline.Expression.Template
import Outline.Expression.Token
import Outline.Header.Range
import Outline.Text.NameSet

/-!
# Expressions

A value of a document is nearly an expression of the target language. `Expression.ofText` checks
that its brackets match and its strings end, and respells what only documents know: the words
`true`, `false` and `null`, strings with placeholders, and range sugar. It also gathers the names
that the expression mentions.
-/

set_option autoImplicit false

namespace Outline

/-- An expression of the target language and the names it mentions. -/
structure Expression where
  /-- The expression as written in the target language. -/
  text : Text := []
  /-- The names it refers to, attributes left out. -/
  references : NameSet := .empty
  /-- The names whose members it takes. -/
  memberRoots : NameSet := .empty
  deriving DecidableEq, Repr

namespace Expression

/-- What can be wrong with a value. -/
inductive Fault where
  /-- A closing bracket meets an open bracket of another kind. -/
  | mismatched (found expected : Char)
  /-- A closing bracket meets no open bracket. -/
  | unbalanced (found : Char)
  /-- A bracket stays open. -/
  | unclosed (bracket : Char)
  /-- A string literal does not end. -/
  | unterminatedLiteral
  /-- Range sugar is at fault. -/
  | range (fault : RangeSugar.Fault)
  /-- The body of a string is at fault. -/
  | template (fault : Template.Fault)
  /-- A placeholder would end the string it stands in. -/
  | quoteClash (expr : Text)
  deriving DecidableEq, Repr

/-- The wording of a fault. -/
def Fault.message : Fault → String
  | .mismatched found expected => s!"mismatched '{found}' (expected '{expected}')"
  | .unbalanced found => s!"unbalanced '{found}' has no matching opening bracket"
  | .unclosed bracket => s!"unclosed '{bracket}'"
  | .unterminatedLiteral => "unterminated string literal"
  | .range fault => fault.message
  | .template fault => fault.message
  | .quoteClash expr =>
    s!"placeholder `{String.ofList expr}` uses the same quote character as its string"

/-- An expression that mentions no names. -/
def plain (text : Text) : Expression := { text }

/-- Two expressions written one after the other. -/
def append (left right : Expression) : Expression where
  text := left.text ++ right.text
  references := left.references.union right.references
  memberRoots := left.memberRoots.union right.memberRoots

/-! ## Brackets -/

/-- The bracket that closes an open one. -/
def closingOf (opening : Char) : Char :=
  if opening = '(' then ')' else if opening = '[' then ']' else '}'

/-- The open brackets, innermost first, after one more token. -/
def nest (opened : List Char) : Token → Except Fault (List Char)
  | .symbol c =>
    if Text.isOpening c then .ok (c :: opened)
    else if Text.isClosing c then
      match opened with
      | [] => .error (.unbalanced c)
      | innermost :: outer =>
        if closingOf innermost = c then .ok outer
        else .error (.mismatched c (closingOf innermost))
    else .ok opened
  | _ => .ok opened

/-! ## Words -/

/-- The words that are never names of something. -/
def keywords : List Text :=
  ["and".toList, "or".toList, "not".toList, "in".toList, "is".toList, "if".toList, "else".toList,
    "lambda".toList, "for".toList, "None".toList, "True".toList, "False".toList, "await".toList,
    "yield".toList]

/-- The spelling of a word in the target language. -/
def respell (word : Text) : Text :=
  if word = "true".toList then "True".toList
  else if word = "false".toList then "False".toList
  else if word = "null".toList then "None".toList
  else word

/-- The expression that a word makes. -/
def ofWord (name : Text) (member : Bool) : Expression :=
  if keywords.contains (respell name) then plain (respell name)
  else
    { text := respell name
      references := .ofList [name]
      memberRoots := if member then .ofList [name] else .empty }

/-- The call that range sugar stands for. -/
def ofRange [Letters] (sugar : Text) : Except Fault Expression :=
  match RangeSugar.bounds sugar with
  | .error fault => .error (.range fault)
  | .ok bounds =>
    .ok
      { text := "range(".toList ++ [',', ' '].intercalate bounds ++ [')']
        references := .ofList (bounds.filter fun bound => bound.head?.any Text.isWordStart) }

/-! ## Strings -/

/-- Whether a mark before a string makes it interpolate. -/
def hasF (mark : Text) : Bool := mark.contains 'f' || mark.contains 'F'

/-- Whether placeholders in a string with this mark are replaced: the mark asks for it, or at
least does not make the string raw or bytes. -/
def interpolates (mark : Text) : Bool :=
  hasF mark || !(mark.any fun c => c == 'r' || c == 'R' || c == 'b' || c == 'B')

/-- The mark of a string with placeholders. -/
def interpolatedMark (mark : Text) : Text := if hasF mark then mark else 'f' :: mark

/-- The segments of a string with each placeholder made an expression by `inner`. No placeholder
may hold the quote that ends the string. -/
def fill (inner : Text → Except Fault Expression) (quote : Char) :
    List Segment → Except Fault Expression
  | [] => .ok {}
  | .literal text :: rest => do
    let more ← fill inner quote rest
    return (plain text).append more
  | .placeholder expr spec :: rest => do
    let filled ← inner expr
    if filled.text.contains quote then .error (.quoteClash expr)
    else do
      let more ← fill inner quote rest
      return { filled with text := '{' :: filled.text ++ spec ++ ['}'] }.append more

/-- The expression that a string literal makes. -/
def ofLiteral (inner : Text → Except Fault Expression) (mark : Text) (delimiter : Delimiter)
    (body : Text) : Except Fault Expression :=
  let asWritten := plain (mark ++ delimiter.text ++ body ++ delimiter.text)
  if interpolates mark then
    match Template.split body with
    | .error fault => .error (.template fault)
    | .ok segments =>
      if Template.hasPlaceholders segments then do
        let filled ← fill inner delimiter.quote segments
        return { filled with
          text := interpolatedMark mark ++ delimiter.text ++ filled.text ++ delimiter.text }
      else .ok asWritten
  else .ok asWritten

/-! ## Values -/

/-- The expression that one token makes. -/
def ofToken [Letters] (inner : Text → Except Fault Expression) : Token → Except Fault Expression
  | .word name member => .ok (ofWord name member)
  | .attribute name => .ok (plain name)
  | .number digits => .ok (plain digits)
  | .range sugar => ofRange sugar
  | .literal mark delimiter body => ofLiteral inner mark delimiter body
  | .unterminated _ => .error .unterminatedLiteral
  | .symbol c => .ok (plain [c])

/-- The expression that tokens make, after the open brackets, innermost first. -/
def ofTokens [Letters] (inner : Text → Except Fault Expression) :
    (opened : List Char) → List Token → Except Fault Expression
  | [], [] => .ok {}
  | innermost :: _, [] => .error (.unclosed innermost)
  | opened, token :: rest => do
    let opened ← nest opened token
    let first ← ofToken inner token
    let more ← ofTokens inner opened rest
    return first.append more

/-- The expression that a value makes. A placeholder is shorter than the value it stands in, so
the bound on its length refuses none. -/
def ofText [Letters] (raw : Text) : Except Fault Expression :=
  ofTokens
    (fun expr =>
      if expr.length < raw.length then ofText expr else .error .unterminatedLiteral)
    [] (Token.readAll (Text.trim raw))
termination_by raw.length

/-- The expression that a value on a line makes. -/
def read [Letters] (line : Nat) (raw : Text) : Except Error Expression :=
  match ofText raw with
  | .ok expression => .ok expression
  | .error fault => .error (.expression line fault.message)

/-- A text as a string literal in double quotes, so that it can be read as one with
placeholders. -/
def quoteTemplate (s : Text) : Text :=
  '"' :: s.flatMap (fun c => if c = '\\' ∨ c = '"' then ['\\', c] else [c]) ++ ['"']

end Expression
end Outline
