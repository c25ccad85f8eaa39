import Outline.Config.Basic
import Outline.Json

/-!
# Reading a configuration

A configuration file is a JSON object with a member for each option that is set, each at most once
and no other, or a JSON array that gives the options in their order and may stop early. A block
style is written as its name, or as an object whose one member has that name and the value null.
-/

set_option autoImplicit false

namespace Outline.Config

/-- The options of a configuration, in the order in which an array gives them. -/
inductive Field where
  | blockStyle
  | indentationUnit
  | sourceIndentationUnit
  | keepComments
  deriving DecidableEq, Repr

namespace Field

/-- All options, in order. -/
def all : List Field := [.blockStyle, .indentationUnit, .sourceIndentationUnit, .keepComments]

/-- The key of an option in a configuration object. -/
def key : Field → String
  | .blockStyle => "targetDialectBlockStyle"
  | .indentationUnit => "indentationUnit"
  | .sourceIndentationUnit => "sourceIndentationUnit"
  | .keepComments => "keepComments"

end Field

/-- A block style at the front of a text, and what follows it. -/
def readStyle? (s : Text) : Option (BlockStyle × Text) :=
  match Json.readMark? '{' s with
  | none => do
    let (name, rest) ← Json.readString? s
    return (← BlockStyle.ofName? name, rest)
  | some rest => do
    let (name, rest) ← Json.readString? rest
    let rest ← Json.readMark? ':' rest
    let rest ← Json.readWord? "null".toList rest
    let rest ← Json.readMark? '}' rest
    return (← BlockStyle.ofName? name, rest)

/-- A truth value at the front of a text, and what follows it. -/
def readBool? (s : Text) : Option (Bool × Text) :=
  match Json.readWord? "true".toList s with
  | some rest => some (true, rest)
  | none => (Json.readWord? "false".toList s).map fun rest => (false, rest)

/-- The configuration with an option set to the value at the front of a text, and what follows
that value. -/
def readField? (config : Config) (field : Field) (s : Text) : Option (Config × Text) :=
  match field with
  | .blockStyle => do
    let (style, rest) ← readStyle? s
    return ({ config with blockStyle := style }, rest)
  | .indentationUnit => do
    let (unit, rest) ← Json.readString? s
    return ({ config with indentationUnit := unit }, rest)
  | .sourceIndentationUnit =>
    match Json.readWord? "null".toList s with
    | some rest => some ({ config with sourceIndentationUnit := none }, rest)
    | none => do
      let (unit, rest) ← Json.readString? s
      return ({ config with sourceIndentationUnit := some unit }, rest)
  | .keepComments => do
    let (keep, rest) ← readBool? s
    return ({ config with keepComments := keep }, rest)

/-- The members of an object up to its closing brace. Each of the open options may still occur,
and an option that has occurred is open no more, so there are at most as many members. -/
def readMembers? : (turns : Nat) → (opened : List Field) → Config → Text → Option (Config × Text)
  | 0, _, _, _ => none
  | turns + 1, opened, config, s => do
    let (key, rest) ← Json.readString? s
    let field ← opened.find? fun field => field.key.toList = key
    let rest ← Json.readMark? ':' rest
    let (config, rest) ← readField? config field rest
    match Json.readMark? '}' rest with
    | some rest => return (config, rest)
    | none => readMembers? turns (opened.erase field) config (← Json.readMark? ',' rest)

/-- The items of an array up to its closing bracket, one for each option in order. -/
def readItems? : (opened : List Field) → Config → Text → Option (Config × Text)
  | [], _, _ => none
  | field :: opened, config, s => do
    let (config, rest) ← readField? config field s
    match Json.readMark? ']' rest with
    | some rest => return (config, rest)
    | none => readItems? opened config (← Json.readMark? ',' rest)

/-- An object or an array of options at the front of a text, and what follows it. -/
def readOptions? (s : Text) : Option (Config × Text) :=
  match Json.readMark? '{' s, Json.readMark? '[' s with
  | some rest, _ =>
    match Json.readMark? '}' rest with
    | some rest => some ({}, rest)
    | none => readMembers? Field.all.length Field.all {} rest
  | none, some rest =>
    match Json.readMark? ']' rest with
    | some rest => some ({}, rest)
    | none => readItems? Field.all {} rest
  | none, none => none

/-- The configuration that a whole text holds. -/
def ofJson? (s : Text) : Option Config := do
  let (config, rest) ← readOptions? s
  if (Json.skipGap rest).isEmpty then some config else none

/-- The configuration that a whole text holds, if its options can be honoured. -/
def ofJson (s : Text) : Except Error Config :=
  match ofJson? s with
  | none => .error Fault.unreadable.error
  | some config => do
    config.validate
    return config

end Outline.Config
