import Outline.Config.Basic

/-!
# Options of the command line

Arguments are read from left to right, and the first fault ends the reading. An option that takes a
value has it attached, or as the next argument, which must not look like an option. No option may
be given twice. After a double dash every argument is an input.
-/

set_option autoImplicit false

namespace Outline.Command

/-- What an argument can set. -/
inductive Key where
  | input
  | output
  | toStdout
  | check
  | dumpTree
  | diagJson
  | config
  | blockStyle
  | indentUnit
  | keepComments
  | debug
  | version
  deriving DecidableEq, Repr

namespace Key

/-- The options by their long names. -/
def long? (name : Text) : Option Key :=
  let table : List (String × Key) :=
    [("output", .output), ("tr", .toStdout), ("check", .check), ("dump-tree", .dumpTree),
      ("diag-json", .diagJson), ("config", .config), ("block-style", .blockStyle),
      ("indent-unit", .indentUnit), ("keep-comments", .keepComments), ("debug", .debug),
      ("version", .version)]
  (table.find? fun entry => entry.1.toList = name).map Prod.snd

/-- The options by their letters. -/
def short? (letter : Char) : Option Key :=
  [('o', Key.output), ('c', .check), ('d', .debug), ('V', .version)].lookup letter

/-- Whether an option takes a value. -/
def takesValue : Key → Bool
  | .input | .output | .config | .blockStyle | .indentUnit => true
  | _ => false

end Key

/-- The number that a text writes: decimal digits, perhaps after a plus sign, below 2^64. -/
def width? (s : Text) : Option Nat :=
  let digits := match s with
    | '+' :: rest => rest
    | s => s
  if !digits.isEmpty && digits.all Char.isDigit then
    let n := digits.foldl (fun n c => n * 10 + (c.toNat - '0'.toNat)) 0
    if n < UInt64.size then some n else none
  else none

/-- Whether an option accepts a value. -/
def accepts (key : Key) (value : Text) : Bool :=
  match key with
  | .blockStyle => (BlockStyle.ofName? value).isSome
  | .indentUnit => (width? value).isSome
  | .input | .output | .config => !value.isEmpty
  | _ => true

/-- The settings read so far. -/
abbrev Settings := List (Key × Text)

/-- The settings with one more, unless it is there already or does not accept its value. -/
def assign? (settings : Settings) (key : Key) (value : Text) : Option Settings :=
  if (settings.lookup key).isSome || !accepts key value then none
  else some ((key, value) :: settings)

/-- What the arguments ask for. -/
inductive Request where
  /-- A run with settings. -/
  | run (settings : Settings)
  /-- The version of the program. -/
  | version
  /-- Nothing that can be done. -/
  | unusable
  deriving DecidableEq, Repr

/-- Whether an argument looks like an option. -/
def isOptionLike : Text → Bool
  | '-' :: _ :: _ => true
  | _ => false

/-- What an argument does to the settings. -/
inductive Effect where
  /-- They change. -/
  | settings (settings : Settings)
  /-- The next argument is the value of an option. -/
  | awaits (settings : Settings) (key : Key)
  /-- The version is asked for. -/
  | version
  /-- The argument cannot be used. -/
  | unusable
  deriving DecidableEq, Repr

/-- The effect of setting an option. -/
def Effect.ofAssign (settings : Settings) (key : Key) (value : Text) : Effect :=
  match assign? settings key value with
  | some settings => .settings settings
  | none => .unusable

/-- The effect of a long option, given the text after its two dashes. -/
def long (settings : Settings) (text : Text) : Effect :=
  let name := text.takeWhile (· != '=')
  match Key.long? name, text.drop name.length with
  | none, _ => .unusable
  | some key, _ :: value =>
    if key.takesValue then .ofAssign settings key value else .unusable
  | some key, [] =>
    if key.takesValue then .awaits settings key
    else if key = .version then .version
    else .ofAssign settings key []

/-- The effect of letters after a single dash. A letter that takes a value takes the letters after
it, perhaps behind an equals sign. -/
def short (settings : Settings) : Text → Effect
  | [] => .settings settings
  | letter :: rest =>
    match Key.short? letter with
    | none => .unusable
    | some key =>
      if key.takesValue then
        match rest with
        | [] => .awaits settings key
        | '=' :: value => .ofAssign settings key value
        | value => .ofAssign settings key value
      else if key = .version then .version
      else
        match assign? settings key [] with
        | some settings => short settings rest
        | none => .unusable

/-- The effect of an argument outside the value of an option. -/
def effect (settings : Settings) : Text → Effect
  | '-' :: '-' :: text => long settings text
  | '-' :: c :: rest => short settings (c :: rest)
  | argument => .ofAssign settings .input argument

/-- The settings after arguments that are all inputs. -/
def inputs? : Settings → List Text → Option Settings
  | settings, [] => some settings
  | settings, argument :: rest =>
    match assign? settings .input argument with
    | some settings => inputs? settings rest
    | none => none

/-- What settings ask for: a run needs an input. -/
def Request.ofSettings : Option Settings → Request
  | none => .unusable
  | some settings => if (settings.lookup .input).isSome then .run settings else .unusable

/-- What arguments ask for, after the settings read so far. -/
def readFrom (settings : Settings) : List Text → Request
  | [] => .ofSettings (some settings)
  | ['-', '-'] :: rest => .ofSettings (inputs? settings rest)
  | argument :: rest =>
    match effect settings argument with
    | .unusable => .unusable
    | .version => .version
    | .settings settings => readFrom settings rest
    | .awaits settings key =>
      match rest with
      | [] => .unusable
      | value :: rest =>
        if isOptionLike value then .unusable
        else
          match assign? settings key value with
          | some settings => readFrom settings rest
          | none => .unusable

/-- What arguments ask for. -/
def Request.ofArguments (arguments : List String) : Request :=
  readFrom [] (arguments.map String.toList)

/-! ## Settings by name -/

namespace Settings

/-- Whether a setting is there. -/
def has (settings : Settings) (key : Key) : Bool := (settings.lookup key).isSome

/-- The value of a setting. -/
def value? (settings : Settings) (key : Key) : Option String :=
  (settings.lookup key).map String.ofList

/-- The configuration with the options that the settings override. -/
def override (settings : Settings) (config : Config) : Config :=
  { config with
    blockStyle := ((settings.lookup .blockStyle).bind BlockStyle.ofName?).getD config.blockStyle
    indentationUnit := match (settings.lookup .indentUnit).bind width? with
      | some width => List.replicate width ' '
      | none => config.indentationUnit
    keepComments := config.keepComments || settings.has .keepComments }

end Settings
end Outline.Command
