import Outline.Config.Reader
import Outline.Document

/-!
# Files

What the command line does to files is written against a `FileAccess`, two operations in some monad.
The real file system is one; a `Disk`, a directory of files as a value, is another, on which every
run is a pure function.
-/

set_option autoImplicit false

namespace Outline

/-- Why a file could not be read or written. -/
inductive FileFault where
  /-- There is no such file, or no directory to put it in. -/
  | notFound
  /-- The path names a directory. -/
  | isDirectory
  /-- The content is not UTF-8. -/
  | notText
  /-- Any other reason, in the words of the system. -/
  | other (message : String)
  deriving DecidableEq, Repr

/-- The wording of a fault. -/
def FileFault.message : FileFault → String
  | .notFound => "No such file or directory (os error 2)"
  | .isDirectory => "Is a directory (os error 21)"
  | .notText => "stream did not contain valid UTF-8"
  | .other message => message

/-- Reading and writing whole files. -/
structure FileAccess (m : Type → Type) where
  /-- The content of a file. -/
  read : String → m (Except FileFault ByteArray)
  /-- A file gets a content. -/
  write : String → String → m (Except FileFault Unit)

namespace FileAccess

variable {m : Type → Type} [Monad m]

/-- The text that a file holds. -/
def decode : Except FileFault ByteArray → Except FileFault String
  | .error fault => .error fault
  | .ok bytes =>
    match String.fromUTF8? bytes with
    | some text => .ok text
    | none => .error .notText

/-- The text of a file. -/
def readText (files : FileAccess m) (path : String) : m (Except FileFault String) := do
  return decode (← files.read path)

end FileAccess

/-- The configuration that a file holds. -/
def Config.ofFile : Except FileFault String → Except Error Config
  | .error fault => .error (.io fault.message)
  | .ok text => Config.ofJson text.toList

/-- Why a file could not be compiled to another. -/
inductive CompileFault where
  /-- One of the files is at fault. -/
  | file (fault : FileFault)
  /-- The document is at fault. -/
  | document (error : Error)
  deriving DecidableEq, Repr

/-- A file is compiled to another. -/
def compileFile [Letters] {m : Type → Type} [Monad m] (files : FileAccess m) (config : Config)
    (input output : String) : m (Except CompileFault Unit) := do
  match ← files.readText input with
  | .error fault => return .error (.file fault)
  | .ok source =>
    match compile config source.toList with
    | .error error => return .error (.document error)
    | .ok code =>
      match ← files.write output (String.ofList code) with
      | .error fault => return .error (.file fault)
      | .ok () => return .ok ()

/-! ## Paths -/

namespace Path

/-- The parts of a path: what stands between its slashes, empty parts and single dots left out. -/
def parts (path : Text) : List Text :=
  (path.splitOn '/').filter fun part => !part.isEmpty && part != ['.']

/-- The last part of a path, if it names something. -/
def fileName? (path : Text) : Option Text :=
  match (parts path).getLast? with
  | some ['.', '.'] => none
  | last => last

/-- A file name without its extension. A dot at the start of the name begins no extension. -/
def stem (name : Text) : Text :=
  match Text.cutAtLastDot? name with
  | some (c :: before, _) => c :: before
  | _ => name

end Path

/-! ## A directory as a value -/

/-- A directory of files. Each has the parts of its path from there. -/
structure Disk where
  /-- The files. -/
  files : List (List Text × ByteArray)

namespace Disk

/-- Whether a path names the directory itself or one that holds a file. -/
def isDirectory (disk : Disk) (path : List Text) : Bool :=
  path.isEmpty || disk.files.any fun file => path.length < file.1.length && path.isPrefixOf file.1

/-- The path after one more part; a double dot goes up from a directory. -/
def descend (disk : Disk) (path : Option (List Text)) (part : Text) : Option (List Text) :=
  match path with
  | none => none
  | some path =>
    if part = ['.', '.'] then
      if path.isEmpty || !disk.isDirectory path then none else some path.dropLast
    else some (path ++ [part])

/-- The place in the directory that a path names; an absolute path names none. -/
def resolve? (disk : Disk) (path : String) : Option (List Text) :=
  match path.toList with
  | '/' :: _ => none
  | path => (Path.parts path).foldl disk.descend (some [])

/-- The content of the file at a place. -/
def content? (disk : Disk) (place : List Text) : Option ByteArray := disk.files.lookup place

/-- The content of a file. -/
def read (disk : Disk) (path : String) : Except FileFault ByteArray :=
  match disk.resolve? path with
  | none => .error .notFound
  | some place =>
    match disk.content? place with
    | some content => .ok content
    | none => .error (if disk.isDirectory place then .isDirectory else .notFound)

/-- The directory after a file got a content. -/
def write (disk : Disk) (path content : String) : Except FileFault Disk :=
  match disk.resolve? path with
  | none => .error .notFound
  | some place =>
    if disk.isDirectory place then .error .isDirectory
    else if disk.isDirectory place.dropLast then
      .ok ⟨(place, content.toUTF8) :: disk.files.filter fun file => file.1 != place⟩
    else .error .notFound

/-- The files of the directory that are not in another with the same content, with their paths. -/
def changes (before after : Disk) : List (String × ByteArray) :=
  (after.files.filter fun file => before.content? file.1 != some file.2).map
    fun (place, content) => (String.ofList (['/'].intercalate place), content)

/-- Reading and writing the files of a directory that is carried along. -/
def access : FileAccess (StateM Disk) where
  read path := do return (← get).read path
  write path content := do
    match (← get).write path content with
    | .error fault => return .error fault
    | .ok disk => do
      set disk
      return .ok ()

end Disk
end Outline
