import TestMatrix.Command.Fault
import TestMatrix.Command.Invocation
import TestMatrix.Platform

/-! # Loading documents and settings -/

namespace TestMatrix

mutual
/-- All texts in a document that are values. -/
def Json.texts : Json → List String
  | .str text => [text]
  | .arr items => textsOfItems items
  | .obj fields => textsOfFields fields
  | _ => []
def Json.textsOfItems : List Json → List String
  | [] => []
  | item :: rest => item.texts ++ textsOfItems rest
def Json.textsOfFields : List (String × Json) → List String
  | [] => []
  | (_, value) :: rest => value.texts ++ textsOfFields rest
end

/-- A command on a platform. -/
abbrev CommandT (m : Type → Type) := ExceptT CommandFault m

namespace Load

section
variable {m : Type → Type} [Monad m] (platform : Platform m)

def document (path : String) : CommandT m Json := do
  match ← platform.readText path with
  | .error fault => throw (.unreadable path fault)
  | .ok text =>
    match Json.parse text with
    | .error error => throw (.notJson path text error)
    | .ok value => pure value

/-- The settings file that is read when none is named and it is there. -/
def settingsFile : String := "testgen.toml"

def settingsAt (path : String) : CommandT m Settings := do
  match ← platform.readText path with
  | .error fault => throw (.unreadable path fault)
  | .ok content =>
    match Settings.parse path content with
    | .error fault => throw (.badSettings path fault)
    | .ok settings => pure settings

/-- The settings of the named file, which must be there, or of the usual one. -/
def settings (named : Option String) : CommandT m Settings := do
  match named with
  | some path => settingsAt platform path
  | none =>
    if ← platform.isFile settingsFile then settingsAt platform settingsFile else pure .empty

/-- Which of these paths name regular files. -/
def regularFiles : List String → m (List String)
  | [] => pure []
  | path :: rest => do
    let isFile ← platform.isFile path
    let others ← regularFiles rest
    pure (if isFile then path :: others else others)

/-- Loads a specification and its schema and validates the one against the other. -/
def validated (inputs : Inputs) : CommandT m (Json × Schema) := do
  let spec ← document platform inputs.spec
  let schema ← document platform inputs.schema
  match Schema.compile schema with
  | .error (.schema defect) => throw (.schema defect)
  | .error (.spec fault) => throw (.spec fault .fresh)
  | .ok compiled =>
    let size (n : Nat) : Json := .num (.int n)
    platform.note ⟨.debug, "schema compiled", [("paths", size compiled.rules.size),
      ("references", size compiled.references.length), ("leaves", size compiled.leaves.size),
      ("domains", size compiled.domains.size)]⟩
    let files ← (regularFiles platform spec.texts : m (List String))
    match Validate.run compiled files.contains .fresh spec with
    | .error rejection => throw (.spec rejection.fault rejection.diagnosis)
    | .ok _ =>
      platform.note ⟨.debug, "specification validated", []⟩
      pure (spec, compiled)

end

end Load

end TestMatrix
