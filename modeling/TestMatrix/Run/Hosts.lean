import TestMatrix.Files.Templates
import TestMatrix.Files.Writer
import TestMatrix.Render.Script

/-! # Hosts

Where the templates of a run come from and where its artifacts go. -/

namespace TestMatrix

/-- A source of templates. -/
abbrev Source (m : Type → Type) := String → m (Except RunFault String)

/-- A destination of artifacts, which gives the number of bytes it has written. -/
abbrev Sink (m : Type → Type) := Artifact → m (Except RunFault Nat)

section
variable {m : Type → Type} [Monad m]

/-- Templates held in memory. -/
def Source.held (templates : List (String × String)) : Source m := fun reference =>
  pure (Templates.held templates reference)

/-- Templates of a platform's files, read through a cache. -/
def Source.files (platform : Platform m) (directories : List String) :
    Source (StateT TemplateCache m) := fun reference cache => do
  let text? (path : String) : m (Option (Except ReadFault String)) := do
    if ← platform.isFile path then return some (← platform.readText path) else return none
  match ← Templates.read text? directories reference cache with
  | (.ok (path, text), cache) =>
    platform.note ⟨.debug, "template loaded", [("reference", .str reference), ("path", .str path)]⟩
    pure (.ok text, cache)
  | (.error fault, cache) => pure (.error fault, cache)

def sizeOf (content : String) : Json := .num (.int content.utf8ByteSize)

/-- Writes artifacts below a directory of a platform. -/
def Sink.files (platform : Platform m) (root : String) : Sink m := fun artifact => do
  match ← Writer.write platform.files root artifact.path artifact.content with
  | .ok bytes =>
    platform.note ⟨.debug, "artifact written",
      [("path", .str (FilePath.join root artifact.path)), ("bytes", sizeOf artifact.content)]⟩
    pure (.ok bytes)
  | .error fault => pure (.error (.write fault))

/-- Prints artifacts. -/
def Sink.dryRun (platform : Platform m) : Sink m := fun artifact => do
  platform.print (Writer.printed artifact.path artifact.content)
  platform.note ⟨.debug, "artifact printed",
    [("path", .str artifact.path), ("bytes", sizeOf artifact.content)]⟩
  pure (.ok artifact.content.utf8ByteSize)

end

/-- Keeps artifacts in the order they come. -/
def Sink.memory : Sink (StateM (List Artifact)) := fun artifact artifacts =>
  (.ok artifact.content.utf8ByteSize, artifacts ++ [artifact])

end TestMatrix
