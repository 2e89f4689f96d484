import TestMatrix.Json.Basic

/-! # Selections of a product

Every field of a pattern is a dimension. A cursor runs through the product of the dimensions like an
odometer, the last dimension fastest, and each of its states is one selection. -/

namespace TestMatrix

/-- A field with the values it expands to. -/
structure Dimension where
  key : String
  values : List Json

namespace Odometer

/-- The digits after these, each below its size; none when all stand at their last. -/
def advance : List Nat → List Nat → Option (List Nat)
  | size :: sizes, digit :: digits =>
    match advance sizes digits with
    | some next => some (digit :: next)
    | none =>
      if digit + 1 < size then some ((digit + 1) :: List.replicate digits.length 0) else none
  | _, _ => none

/-- The selection at a state of the cursor. A key that several dimensions share keeps its first
position and the value of the last. -/
def select (dimensions : List Dimension) (digits : List Nat) : Fields :=
  Fields.ofEntries ((dimensions.zip digits).map fun (dimension, digit) =>
    (dimension.key, (dimension.values[digit]?).getD .null))

def sizes (dimensions : List Dimension) : List Nat :=
  dimensions.map fun dimension => dimension.values.length

/-- The first state of the cursor: none when some dimension is empty. -/
def start (dimensions : List Dimension) : Option (List Nat) :=
  if dimensions.any fun dimension => dimension.values.isEmpty then none
  else some (List.replicate dimensions.length 0)

/-- At most this many selections from a state of the cursor on. -/
def take (dimensions : List Dimension) : Nat → Option (List Nat) → List Fields
  | 0, _ => []
  | _, none => []
  | limit + 1, some digits =>
    select dimensions digits :: take dimensions limit (advance (sizes dimensions) digits)

end Odometer

/-- The number of selections: the product of the sizes. -/
def selectionCount (dimensions : List Dimension) : Nat :=
  (Odometer.sizes dimensions).foldr (· * ·) 1

/-- All selections of a product. Without dimensions there is one, the empty one. -/
def selections (dimensions : List Dimension) : List Fields :=
  Odometer.take dimensions (selectionCount dimensions) (Odometer.start dimensions)

end TestMatrix
