import TestMatrix.Files.Spelling
import TestMatrix.Platform

/-! # Writing files

A file is replaced in one step: its content goes to a temporary file beside it, which is then
renamed onto it. Directories on the way are made as needed. -/

namespace TestMatrix

/-- The calls that writing makes. -/
structure FileAccess (m : Type → Type) where
  perform : SystemCall → m (Except FileError Unit)
  isDirectory : String → m Bool

def Platform.files {m : Type → Type} (platform : Platform m) : FileAccess m :=
  ⟨platform.perform, platform.isDirectory⟩

namespace FileAccess

variable {m : Type → Type} [Monad m] (files : FileAccess m)

/-- Makes one directory; a directory that is there already will do. -/
def ensureDirectory (path : String) : m (Except FileError Unit) := do
  match ← files.perform (.makeDirectory path) with
  | .ok () => pure (.ok ())
  | .error error => if ← files.isDirectory path then pure (.ok ()) else pure (.error error)

/-- Makes the first of these directories, and where it lacks them those above it, which follow. -/
def makeAll : List String → m (Except FileError Unit)
  | [] => pure (.ok ())
  | path :: above => do
    match ← files.perform (.makeDirectory path) with
    | .ok () => pure (.ok ())
    | .error .notFound =>
      match ← makeAll above with
      | .ok () => files.ensureDirectory path
      | .error error => pure (.error error)
    | .error error => if ← files.isDirectory path then pure (.ok ()) else pure (.error error)

/-- Performs calls in turn, up to the first that fails. -/
def performAll : List SystemCall → m (Except FileError Unit)
  | [] => pure (.ok ())
  | call :: rest => do
    match ← files.perform call with
    | .ok () => performAll rest
    | .error error => pure (.error error)

end FileAccess

namespace Writer

/-- The directory that a file is written in, when its path names one. -/
def parent? (path : String) : Option String :=
  (FilePath.parent? path).filter fun parent => !parent.isEmpty

/-- The temporary file beside a file; none when the path ends in no name. -/
def temporary? (path : String) : Option String :=
  (FilePath.fileName? path).map fun name =>
    FilePath.join ((FilePath.parent? path).getD "") ("." ++ name ++ ".tmp")

/-- The calls that replace a file through a temporary one. -/
def replacement (temporary path : String) (content : ByteArray) : List SystemCall :=
  [.create temporary, .append temporary content, .sync temporary, .rename temporary path] ++
    (parent? path).toList.flatMap fun parent => [.openDirectory parent, .sync parent]

section
variable {m : Type → Type} [Monad m] (files : FileAccess m)

/-- Replaces a file, or makes it. -/
def replace (path : String) (content : ByteArray) : m (Except WriteFault Unit) := do
  match ← files.makeAll ((parent? path).map FilePath.ancestors).toList.flatten with
  | .error error => pure (.error (.system error))
  | .ok () =>
    match temporary? path with
    | none => pure (.error (.noFileName path))
    | some temporary =>
      pure ((← files.performAll (replacement temporary path content)).mapError .system)

/-- Writes an artifact below a directory. Its path must be a plain relative one. Gives the number of
bytes of its content. -/
def write (root path : String) (content : String) : m (Except WriteFault Nat) :=
  if path.isEmpty then pure (.error .emptyPath)
  else if !FilePath.isPlain path then pure (.error (.escapesRoot path))
  else do
    let answer ← replace files (FilePath.join root path) content.toUTF8
    pure (answer.map fun () => content.utf8ByteSize)

end

/-- An artifact as a dry run prints it. -/
def printed (path content : String) : String :=
  let ending := if content.toList.getLast? == some '\n' then "" else "\n"
  s!"==> {path} <==\n{content}{ending}"

end Writer

end TestMatrix
