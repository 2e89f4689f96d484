import TestMatrix.Matrix.Odometer
import TestMatrix.Schema.Compile

/-! # Leaf patterns

A pattern is a mapping of the specification at a path where the schema has a leaf. The search goes
down in document order and does not look below a pattern. -/

namespace TestMatrix

structure Pattern where
  path : TreePath
  /-- The generalized path, under which the schema has the leaf. -/
  leafPath : TreePath
  /-- The named mappings around the pattern, outermost first. -/
  ancestors : List Fields
  dimensions : List Dimension

namespace Pattern

/-- What a field expands to: the wildcard to the domain it has, a list to its items, and every other
value to itself. -/
def expand (domain : Option (List Json)) (value : Json) : List Json :=
  match value.isWildcard, domain, value with
  | true, some values, _ => values
  | _, _, .arr items => items
  | _, _, single => [single]

def dimensionsOf (schema : Schema) (leafPath : TreePath) (fields : Fields) : List Dimension :=
  fields.map fun (key, value) => ⟨key, expand (schema.domains.get? (leafPath.childKey key)) value⟩

/-- The ancestors of the children of a node. The root names none of its descendants. -/
def ancestorsBelow (path : TreePath) (ancestors : List Fields) (value : Json) : List Fields :=
  match value with
  | .obj fields =>
    if !path.isEmpty && (fields.lookup "name").isSome then ancestors ++ [fields] else ancestors
  | _ => ancestors

section
variable (schema : Schema)

mutual
def ofNode (path : TreePath) (ancestors : List Fields) (value : Json) :
    Except SpecFault (List Pattern) :=
  if schema.leaves.contains path.generalize then
    match value with
    | .obj fields =>
      .ok [⟨path, path.generalize, ancestors, dimensionsOf schema path.generalize fields⟩]
    | _ => .error ⟨path, .patternNotDict path⟩
  else
    let below := ancestorsBelow path ancestors value
    match value with
    | .arr items => ofItems path below 0 items
    | .obj fields => ofFields path below fields
    | _ => .ok []
def ofItems (path : TreePath) (ancestors : List Fields) (position : Nat) :
    List Json → Except SpecFault (List Pattern)
  | [] => .ok []
  | item :: rest => do
    let here ← ofNode (path.child (.index position)) ancestors item
    let there ← ofItems path ancestors (position + 1) rest
    pure (here ++ there)
def ofFields (path : TreePath) (ancestors : List Fields) :
    List (String × Json) → Except SpecFault (List Pattern)
  | [] => .ok []
  | (name, child) :: rest => do
    let here ← ofNode (path.child (.ofKey name)) ancestors child
    let there ← ofFields path ancestors rest
    pure (here ++ there)
end

/-- The patterns of a specification in document order. -/
def ofSpec (spec : Json) : Except SpecFault (List Pattern) := ofNode schema .root [] spec

end

def selections (pattern : Pattern) : List Fields := TestMatrix.selections pattern.dimensions

end Pattern

end TestMatrix
