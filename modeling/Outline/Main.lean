import Outline.Command.Run

/-!
# The command line

The program runs its command on the real file system, prints the outcome and ends with its status.
-/

set_option autoImplicit false

namespace Outline

/-- The fault that a system error stands for. -/
def FileFault.ofError : IO.Error → FileFault
  | .noFileOrDirectory .. => .notFound
  | error => .other (toString error)

/-- Reading and writing real files. -/
def realFiles : FileAccess IO where
  read path := do
    try
      let bytes ← IO.FS.readBinFile path
      return .ok bytes
    catch error => return .error (.ofError error)
  write path content := do
    try
      IO.FS.writeFile path content
      return .ok ()
    catch error => return .error (.ofError error)

end Outline

/-- The program. -/
def main (arguments : List String) : IO UInt32 := do
  let outcome ← Outline.Command.run Outline.realFiles arguments
  IO.print outcome.stdout
  IO.eprint outcome.stderr
  return outcome.exit.toUInt32
