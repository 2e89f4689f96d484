import TestMatrix.Schema.Compile
import TestMatrix.Spec.Check

/-! # Validating a specification

The walk visits the root and, below a visited node, every list and mapping, parents first and in
document order. A visited node must be described by the schema and satisfy all assertions at its
generalized path. A list or mapping that the schema does not describe is left out when an assertion
of its parent has checked it already. -/

namespace TestMatrix

/-- What the walk looked at last: the node, and the last expectation it was held against. -/
structure Diagnosis where
  path : Option TreePath
  value : Json
  expectation : Option Json

def Diagnosis.fresh : Diagnosis := ⟨none, .null, none⟩

def Diagnosis.pathText (diagnosis : Diagnosis) : String :=
  (diagnosis.path.map TreePath.text).getD ""

/-- Where a walk stopped. -/
structure Rejection where
  fault : SpecFault
  diagnosis : Diagnosis

namespace Validate

/-- Whether an assertion among these has checked the content of the child at this step. -/
def checkedByParent (rules : List Rule) (segment : Segment) : Bool :=
  rules.any fun rule =>
    match rule.assertion, segment with
    | .exactFields fields, .key name _ => fields.any fun (field, _) => field == name
    | .exactFields _, _ => false
    | .exactKeys _, _ => false
    | .eachValue _, _ => true

/-- The assertions for a node; the root needs none. -/
def rulesFor (schema : Schema) (path : TreePath) : Except SpecFault (List Rule) :=
  match schema.rules.get? path.generalize with
  | some rules => .ok rules
  | none => if path.isEmpty then .ok [] else .error ⟨path, .noRule path⟩

/-- Whether the walk passes over a child: scalars, and what its parent has checked. -/
def isPassedOver (schema : Schema) (rules : List Rule) (path : TreePath) (segment : Segment)
    (child : Json) : Bool :=
  !child.isContainer ||
    (!schema.rules.contains (path.child segment).generalize && checkedByParent rules segment)

section
variable (schema : Schema) (isFile : String → Bool)

/-- Holds a node against its assertions in turn. -/
def checkRules (path : TreePath) (value : Json) (diagnosis : Diagnosis) :
    List Rule → Except Rejection Diagnosis
  | [] => .ok diagnosis
  | rule :: rest =>
    let diagnosis := { diagnosis with expectation := some rule.expectation }
    match Check.assertion isFile value rule.assertion with
    | .ok () => checkRules path value diagnosis rest
    | .error violation => .error ⟨⟨path, violation⟩, diagnosis⟩

mutual
def visit (path : TreePath) (diagnosis : Diagnosis) (value : Json) :
    Except Rejection Diagnosis := do
  let diagnosis := { diagnosis with path := some path, value }
  let rules ← (rulesFor schema path).mapError fun fault => ⟨fault, diagnosis⟩
  let diagnosis ← checkRules isFile path value diagnosis rules
  match value with
  | .arr items => visitItems rules path 0 diagnosis items
  | .obj fields => visitFields rules path diagnosis fields
  | _ => pure diagnosis
def visitItems (rules : List Rule) (path : TreePath) (position : Nat) (diagnosis : Diagnosis) :
    List Json → Except Rejection Diagnosis
  | [] => pure diagnosis
  | item :: rest => do
    let segment := Segment.index position
    let diagnosis ←
      if isPassedOver schema rules path segment item then pure diagnosis
      else visit (path.child segment) diagnosis item
    visitItems rules path (position + 1) diagnosis rest
def visitFields (rules : List Rule) (path : TreePath) (diagnosis : Diagnosis) :
    List (String × Json) → Except Rejection Diagnosis
  | [] => pure diagnosis
  | (name, child) :: rest => do
    let segment := Segment.ofKey name
    let diagnosis ←
      if isPassedOver schema rules path segment child then pure diagnosis
      else visit (path.child segment) diagnosis child
    visitFields rules path diagnosis rest
end

/-- Validates a document. The diagnosis is that of the walk before, if there was one. -/
def run (diagnosis : Diagnosis) (spec : Json) : Except Rejection Diagnosis :=
  if spec.isContainer then visit schema isFile .root diagnosis spec
  else
    .error ⟨⟨.root, .expectedContainer spec.typeName⟩,
      { diagnosis with path := some .root, value := spec }⟩

end

end Validate

end TestMatrix
