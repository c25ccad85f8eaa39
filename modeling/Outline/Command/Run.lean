import Outline.Command.Files
import Outline.Command.Options
import Outline.Header.Edition
import Outline.Node.Listing

/-!
# Running a command

A run loads the configuration, reads the input and then lists the classified forest, checks the
document, prints the code or writes it to a file. What it prints and the status it ends with are its
outcome.
-/

set_option autoImplicit false

namespace Outline.Command

/-- What a run prints, and its exit status. -/
structure Outcome where
  /-- The exit status. -/
  exit : Nat := 0
  /-- What goes to standard output. -/
  stdout : String := ""
  /-- What goes to standard error. -/
  stderr : String := ""
  deriving DecidableEq, Repr

/-- A failure and its causes, the nearest first. -/
structure Failure where
  /-- What failed. -/
  text : String
  /-- What it failed for. -/
  causes : List String := []
  deriving DecidableEq, Repr

/-- The causes of a failure, numbered if there is more than one. -/
def Failure.causesText : List String → String
  | [] => ""
  | [cause] => s!"\n\nCaused by:\n    {cause}"
  | causes =>
    let numbered := causes.zipIdx.map fun entry => s!"\n    {entry.2}: {entry.1}"
    "\n\nCaused by:" ++ String.join numbered

/-- The text of a failure and of its causes. -/
def Failure.report (failure : Failure) : String :=
  "Error: " ++ failure.text ++ causesText failure.causes ++ "\n"

/-- A failed run. -/
def Failure.outcome (failure : Failure) : Outcome := { exit := 1, stderr := failure.report }

/-- A run that found errors in the document. -/
def refused (settings : Settings) (diagnostics : Diagnostics) : Outcome where
  exit := 1
  stdout := diagnostics.text
  stderr := if settings.has .diagJson then diagnostics.json ++ "\n" else ""

/-- The causes that an error gives: one from a file has the fault of the file behind it. -/
def causesOf (error : Error) : List String :=
  match error with
  | .io message => [error.text, message]
  | error => [error.text]

/-- What is said about warnings. -/
def warned (settings : Settings) (warnings : Diagnostics) : String :=
  if warnings.isEmpty then ""
  else warnings.text ++ if settings.has .diagJson then warnings.json ++ "\n" else ""

/-- The file that code goes to when none is named: the name of the input, in the current
directory, with another extension. -/
def defaultOutput (input : String) : String :=
  match Path.fileName? input.toList with
  | some name => String.ofList (Path.stem name ++ ".py".toList)
  | none => input

section

variable {m : Type → Type} [Monad m] (files : FileAccess m) (settings : Settings)

/-- The configuration of a run: the one of the named file, if one is named, with what the
settings override. -/
def loadConfig : m (Except Failure Config) := do
  let config : Except Failure Config ← match settings.value? .config with
    | none => pure (.ok {})
    | some path => do
      match Config.ofFile (← files.readText path) with
      | .ok config => pure (.ok config)
      | .error error =>
        pure (.error ⟨s!"failed to load configuration from {path}", causesOf error⟩)
  match config with
  | .error failure => return .error failure
  | .ok config =>
    let config := settings.override config
    match config.validate with
    | .ok () => return .ok config
    | .error error => return .error ⟨error.text, []⟩

/-- The classified forest is listed. -/
def listTree (config : Config) (input : String) (source : Text) : Outcome :=
  match analyze config source with
  | .ok analysis =>
    { stdout := "=== Classified block tree ===\n" ++ String.ofList analysis.forest.listing }
  | .error error => refused settings [.ofError (some input) error]

/-- The code of a document is checked, printed or written. -/
def deliver (input : String) (compiled : Compiled) : m Outcome := do
  let stderr := warned settings compiled.warnings
  let code := String.ofList compiled.code
  if settings.has .check then return { stdout := "✅ Transpilation successful!\n", stderr }
  else if settings.has .toStdout then return { stdout := code, stderr }
  else
    let path := (settings.value? .output).getD (defaultOutput input)
    match ← files.write path code with
    | .ok () =>
      let shown := String.ofList (Text.quoted path.toList)
      return { stdout := s!"✅ Transpiled to: {shown}\n", stderr }
    | .error fault =>
      let failure : Failure := ⟨s!"failed to write {path}", [fault.message]⟩
      return { exit := 1, stderr := stderr ++ failure.report }

/-- A run on an input. -/
def runOn (input : String) : m Outcome := do
  match ← loadConfig files settings with
  | .error failure => return failure.outcome
  | .ok config =>
    match ← files.readText input with
    | .error fault => return (Failure.mk s!"failed to read {input}" [fault.message]).outcome
    | .ok source =>
      if settings.has .dumpTree then return listTree settings config input source.toList
      else
        match diagnose config (some input) source.toList with
        | .error diagnostics => return refused settings diagnostics
        | .ok compiled => deliver files settings input compiled

end

/-- The version of the program. -/
def versionText : String := "pyml 2.1.0\n"

/-- A run with arguments. -/
def run {m : Type → Type} [Monad m] (files : FileAccess m) (arguments : List String) :
    m Outcome :=
  match Request.ofArguments arguments with
  | .unusable => return { exit := 2 }
  | .version => return { stdout := versionText }
  | .run settings => runOn files settings ((settings.value? .input).getD "")

end Outline.Command
