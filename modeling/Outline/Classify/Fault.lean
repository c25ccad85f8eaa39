import Outline.Error
import Outline.Node.Basic

/-!
# Lines without a role

The reasons for which a line has no role where it stands, and their wording.
-/

set_option autoImplicit false

namespace Outline.Classify

/-- Why a line has no role where it stands. -/
inductive Fault where
  /-- A list item stands where a statement should. -/
  | strayItem
  /-- `packages:` has a value, or no entries. -/
  | packagesForm
  /-- A line starts with its colon. -/
  | missingName
  /-- The line is no statement. -/
  | unrecognized (text : Text)
  /-- A header has text after its colon. -/
  | headerValue (keyword : Text)
  /-- An alternative does not follow a condition. -/
  | noCondition (keyword : String)
  /-- A line with a semicolon is no call. -/
  | notCall (text : Text)
  /-- A header lacks its colon. -/
  | missingColon (keyword : Text)
  /-- An entry of `packages:` is no plain item. -/
  | importForm
  /-- An entry of `packages:` is no import. -/
  | importPath (text : Text)
  /-- A node of this role has a block below it. -/
  | ownsBlock (role : Role)
  /-- A nested block holds neither pairs nor items. -/
  | nestedForm
  /-- A nested block holds both pairs and other lines. -/
  | nestedMix
  /-- A pair has a value and a nested block. -/
  | valueAndBlock (key : Text)
  /-- A pair has neither value nor nested block. -/
  | noValue (key : Text)
  /-- A call has arguments and a nested block. -/
  | argumentsAndBlock (key : Text)
  /-- A line of a mapping is no pair. -/
  | notPair
  /-- A pair of a mapping starts with its colon. -/
  | missingKey
  /-- A line of a list is no item. -/
  | notItem
  /-- An item that starts with a pair goes on with items. -/
  | pairThenItems
  /-- An item with a value has a nested list. -/
  | valueThenItems
  /-- An item is empty. -/
  | emptyItem
  deriving DecidableEq, Repr

/-- The wording of a fault. -/
def Fault.message : Fault → String
  | .strayItem => "list item outside of a list (give it a `name:` line above)"
  | .packagesForm => "'packages:' takes no inline value and needs an indented `- module` list"
  | .missingName => "missing name before ':'"
  | .unrecognized text => s!"unrecognized statement `{String.ofList text}`"
  | .headerValue keyword =>
    s!"'{String.ofList keyword}' header must end with ':' and put its body on the following lines"
  | .noCondition keyword => s!"'{keyword}' must directly follow an 'if' or 'elif' block"
  | .notCall text => s!"`{String.ofList text}` is not a call; expected `name;`"
  | .missingColon keyword => s!"missing ':' after '{String.ofList keyword}' header"
  | .importForm => "'packages:' entries must be `- module` or `- module.member`"
  | .importPath text => s!"invalid package entry `{String.ofList text}`"
  | .ownsBlock role => s!"{role.name} cannot own an indented block"
  | .nestedForm => "nested block must hold `key: value` entries or `- item` entries"
  | .nestedMix => "nested block mixes `key: value` entries with other lines"
  | .valueAndBlock key =>
    s!"`{String.ofList key}:` has both an inline value and an indented block"
  | .noValue key => s!"`{String.ofList key}:` has no value"
  | .argumentsAndBlock key =>
    s!"call to `{String.ofList key}` has both inline arguments and an indented block"
  | .notPair => "expected a `key: value` entry inside a mapping"
  | .missingKey => "missing key before ':'"
  | .notItem => "expected a `- item` entry inside a list"
  | .pairThenItems => "a `- key: value` item can only continue with more `key: value` entries"
  | .valueThenItems => "a list item with a value cannot also hold a nested list"
  | .emptyItem => "empty list item"

/-- The error that reports a fault on a line. -/
def Fault.error (fault : Fault) (line : Nat) : Error := .classification line fault.message

/-- The error that a header on a line has no body. -/
def noBody (keyword : Text) (line : Nat) : Error :=
  .structural line s!"'{String.ofList keyword}' block has no body"

end Outline.Classify
