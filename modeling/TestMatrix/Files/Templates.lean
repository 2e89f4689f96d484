import TestMatrix.Files.Spelling
import TestMatrix.Platform
import TestMatrix.Run.Fault

/-! # Reading templates

A reference is looked up in the search directories in order, and the first regular file there is the
template; an absolute reference stands for itself. What was found at a path is remembered, hits and
misses alike, under the components of the path. -/

namespace TestMatrix

/-- What was found at the paths asked for so far. -/
abbrev TemplateCache := List (List Component × Option String)

namespace Templates

/-- The paths at which a reference is looked for. -/
def candidates (reference : String) (directories : List String) : List String :=
  if FilePath.isAbsolute reference then [reference]
  else directories.map fun directory => FilePath.join directory reference

section
variable {m : Type → Type} [Monad m] (text? : String → m (Option (Except ReadFault String)))

/-- The text at one path, from the cache or through it. A file that cannot be read as text is a
fault and is not remembered. -/
def load (path : String) (cache : TemplateCache) :
    m (Except RunFault (Option String) × TemplateCache) := do
  let key := FilePath.components path
  match cache.lookup key with
  | some found => pure (.ok found, cache)
  | none =>
    match ← text? path with
    | none => pure (.ok none, (key, none) :: cache)
    | some (.ok text) => pure (.ok (some text), (key, some text) :: cache)
    | some (.error fault) => pure (.error (.templateUnreadable path fault), cache)

/-- The first text among these paths, with its path. -/
def search (cache : TemplateCache) :
    List String → m (Except RunFault (Option (String × String)) × TemplateCache)
  | [] => pure (.ok none, cache)
  | path :: rest => do
    match ← load text? path cache with
    | (.error fault, cache) => pure (.error fault, cache)
    | (.ok (some text), cache) => pure (.ok (some (path, text)), cache)
    | (.ok none, cache) => search cache rest

/-- The template of a reference with the path it was found at. -/
def read (directories : List String) (reference : String) (cache : TemplateCache) :
    m (Except RunFault (String × String) × TemplateCache) := do
  let places := candidates reference directories
  match ← search text? cache places with
  | (.ok (some found), cache) => pure (.ok found, cache)
  | (.ok none, cache) => pure (.error (.templateNotFound reference places), cache)
  | (.error fault, cache) => pure (.error fault, cache)

end

/-- Templates held in memory, by reference; there is nothing to search. -/
def held (templates : List (String × String)) (reference : String) : Except RunFault String :=
  match templates.lookup reference with
  | some text => .ok text
  | none => .error (.templateNotFound reference ["memory"])

end Templates

end TestMatrix
