import TestMatrix.Schema.Defect

/-! # References

`@name/sub` stands for a value defined elsewhere in the schema, `#@name/sub` for the list of its
keys. -/

namespace TestMatrix

inductive ReferenceToken where
  | values (target : String)
  | keys (target : String)

namespace ReferenceToken

/-- The token a text is, if it is one. -/
def parse? (text : String) : Option ReferenceToken :=
  match text.toList with
  | '#' :: '@' :: target => some (.keys (String.ofList target))
  | '@' :: target => some (.values (String.ofList target))
  | _ => none

def target : ReferenceToken → String
  | .values target | .keys target => target

end ReferenceToken

/-- The named values of a schema, each with its last definition. -/
abbrev References := Fields

namespace References

/-- Goes down through mappings, one key at a time. -/
def descend (value : Json) : List String → Option Json
  | [] => some value
  | key :: rest =>
    match value with
    | .obj fields => (fields.lookup key).bind fun child => descend child rest
    | _ => none

/-- The value a target names: its first part is a name, the others are keys. -/
def find? (references : References) (target : String) : Option Json :=
  match slashParts target with
  | [] => none
  | name :: keys => (references.lookup name).bind fun value => descend value keys

/-- The value of a token, or the list of its keys. -/
def resolve (references : References) (token : ReferenceToken) : Except SchemaDefect Json :=
  match token, find? references token.target with
  | .values _, some value => .ok value
  | .keys _, some (.obj fields) => .ok (.arr ((Fields.keys fields).map .str))
  | _, _ => .error (.invalidReference token.target)

/-- Resolves a text that is a token and leaves every other value as it is. -/
def resolveIfToken (references : References) (value : Json) : Except SchemaDefect Json :=
  match value.str?.bind ReferenceToken.parse? with
  | some token => references.resolve token
  | none => .ok value

end References

end TestMatrix
