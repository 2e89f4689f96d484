import TestMatrix.Spec.Violation

/-! # Checking one node

A node satisfies an assertion or violates it in one way, the first that is found. Files are seen
through a function that tells which names denote regular files. -/

namespace TestMatrix

namespace Check

def expectDict : Json → Except Violation Fields
  | .obj fields => .ok fields
  | value => .error (.expectedDict value.typeName)

/-- The mapping has all the expected keys, and no others. -/
def exactKeys (expected : List String) (fields : Fields) : Except Violation Unit :=
  match expected.find? fun key => (fields.lookup key).isNone with
  | some key => .error (.missingField key)
  | none =>
    match (Fields.keys fields).find? fun key => !expected.contains key with
    | some key => .error (.unexpectedField key)
    | none => .ok ()

/-- The items of a list, up to the first that is the wildcard or not allowed. -/
def items (field : String) (allowed : List Json) : List Json → Except Violation Unit
  | [] => .ok ()
  | item :: rest =>
    if item.isWildcard then .error (.wildcardInList field)
    else if item.isAmong allowed then items field allowed rest
    else .error (.notAllowed field allowed)

/-- The wildcard is a member of every allowed set, but only alone. A list must have members only. -/
def membership (field : String) (allowed : List Json) (value : Json) : Except Violation Unit :=
  match value with
  | .arr list => items field allowed list
  | single =>
    if single.isWildcard || single.isAmong allowed then .ok ()
    else .error (.notAllowed field allowed)

section
variable (isFile : String → Bool)

mutual
/-- The value of a field, named for the report. -/
def predicate (field : String) (value : Json) : Predicate → Except Violation Unit
  | .nonEmptyString =>
    match value with
    | .str text => if text.isEmpty then .error (.emptyString field) else .ok ()
    | _ => .error (.notString field)
  | .nonEmptyList =>
    match value with
    | .arr items => if items.isEmpty then .error (.emptyList field) else .ok ()
    | _ => .error (.notList field)
  | .nonEmptyDict =>
    match value with
    | .obj fields => if fields.isEmpty then .error (.emptyDict field) else .ok ()
    | _ => .error (.notDict field)
  | .integer =>
    match value with
    | .num (.int _) => .ok ()
    | _ => .error (.notInteger field)
  | .existingFile =>
    match value with
    | .str name => if isFile name then .ok () else .error (.missingFile field value)
    | _ => .error (.missingFile field value)
  | .oneOf allowed => membership field allowed value
  | .fields rules => do
    let fields ← expectDict value
    exactKeys (rules.map Prod.fst) fields
    predicates fields rules
/-- Each field in the order of the rules. -/
def predicates (fields : Fields) : List (String × Predicate) → Except Violation Unit
  | [] => .ok ()
  | (name, rule) :: rest => do
    match fields.lookup name with
    | some value => predicate name value rule
    | none => .ok ()
    predicates fields rest
end

def assertion (value : Json) : Assertion → Except Violation Unit
  | .exactFields rules => do
    let fields ← expectDict value
    exactKeys (rules.map Prod.fst) fields
    predicates isFile fields rules
  | .exactKeys keys => do
    let fields ← expectDict value
    exactKeys keys fields
  | .eachValue rule =>
    match value with
    | .obj fields => fields.forM fun (name, item) => predicate isFile name item rule
    | .arr items =>
      items.zipIdx.forM fun (item, position) => predicate isFile (toString position) item rule
    | other => .error (.expectedContainer other.typeName)

end

end Check

end TestMatrix
