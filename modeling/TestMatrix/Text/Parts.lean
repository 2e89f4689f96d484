/-! # Parts between slashes

Tree paths, reference targets and file paths are all texts divided by slashes. -/

namespace TestMatrix

/-- The stretches between the slashes of a text, the empty ones included. -/
def splitSlash : List Char → List (List Char)
  | [] => [[]]
  | c :: rest =>
    if c = '/' then [] :: splitSlash rest
    else
      match splitSlash rest with
      | part :: parts => (c :: part) :: parts
      | [] => [[c]]

/-- The stretches between slashes that are not empty. -/
def slashParts (text : String) : List String :=
  ((splitSlash text.toList).filter fun part => !part.isEmpty).map String.ofList

end TestMatrix
