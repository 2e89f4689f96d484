import TestMatrix.Json.Printer
import TestMatrix.Schema.Model

/-! # Exclusion

Candidates are compared with excluded selections by a key: the fields that distinguish a selection,
in the order of their names, as compact text. -/

namespace TestMatrix

/-- Fields that describe a selection without distinguishing it: names, descriptions, comments. -/
def isDescriptive (field : String) : Bool :=
  field == "name" || field == "description" || field.toList.take 2 == ['/', '/']

def exclusionKey (selection : Fields) : String :=
  (Json.obj (sortByName (selection.filter fun (field, _) => !isDescriptive field))).compact

/-- The keys of excluded selections, each once. -/
structure Exclusions where
  keys : List String

namespace Exclusions

def empty : Exclusions := ⟨[]⟩

def contains (exclusions : Exclusions) (selection : Fields) : Bool :=
  exclusions.keys.contains (exclusionKey selection)

/-- Adds the key of a selection. Gives whether it is a new one. -/
def insert (exclusions : Exclusions) (selection : Fields) : Bool × Exclusions :=
  if exclusions.contains selection then (false, exclusions)
  else (true, ⟨exclusionKey selection :: exclusions.keys⟩)

def insertAll (exclusions : Exclusions) (selections : List Fields) : Exclusions :=
  selections.foldl (fun exclusions selection => (exclusions.insert selection).2) exclusions

def size (exclusions : Exclusions) : Nat := exclusions.keys.length

end Exclusions

end TestMatrix
