import TestMatrix.Event
import TestMatrix.Files.Fault

/-! # Platforms

What the program asks of the outside world, in any monad: a pure file system, or the machine. -/

namespace TestMatrix

structure Platform (m : Type → Type) where
  perform : SystemCall → m (Except FileError Unit)
  read : String → m (Except FileError ByteArray)
  isFile : String → m Bool
  isDirectory : String → m Bool
  /-- Writes to the standard output. -/
  print : String → m Unit
  /-- Writes to the standard error. -/
  complain : String → m Unit
  /-- Logs an event. -/
  note : Event → m Unit

/-- The text of these bytes. -/
def textOf (content : ByteArray) : Except ReadFault String :=
  match String.fromUTF8? content with
  | some text => .ok text
  | none => .error .notText

namespace Platform

variable {m : Type → Type} [Monad m]

def readText (platform : Platform m) (path : String) : m (Except ReadFault String) := do
  match ← platform.read path with
  | .ok content => pure (textOf content)
  | .error error => pure (.error (.system error))

end Platform

/-- The text behind a path of a fixed file system; none when the path names no regular file. -/
def FileSystem.text? (fs : FileSystem) (path : String) : Option (Except ReadFault String) :=
  match fs.locate path with
  | .ok (_, .file content) => some (textOf content)
  | _ => none

end TestMatrix
