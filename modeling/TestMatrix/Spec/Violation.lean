import TestMatrix.Schema.Defect

/-! # Violations by a specification

A violation is the specification's fault under rules that are sound. It is reported at the path of
the node that was checked. -/

namespace TestMatrix

inductive Violation where
  | missingField (field : String)
  | unexpectedField (field : String)
  | notString (field : String)
  | emptyString (field : String)
  | notList (field : String)
  | emptyList (field : String)
  | notDict (field : String)
  | emptyDict (field : String)
  | notInteger (field : String)
  | missingFile (field : String) (value : Json)
  | notAllowed (field : String) (allowed : List Json)
  | wildcardInList (field : String)
  | expectedDict (typeName : String)
  | expectedContainer (typeName : String)
  | noRule (path : TreePath)
  /-- A node of the schema itself is no mapping. -/
  | schemaNodeNotDict (path : TreePath)
  | patternNotDict (path : TreePath)

/-- An allowed set as it is shown: the wildcard, then the members. -/
def allowedText (allowed : List Json) : String :=
  (Json.arr (.str Json.wildcard :: allowed.filter fun value => !value.isWildcard)).compact

def Violation.message : Violation → String
  | .missingField field => s!"Must contain field \"{field}\""
  | .unexpectedField field => s!"Unexpected field \"{field}\"."
  | .notString field => s!"Field \"{field}\" must be a string"
  | .emptyString field => s!"Field \"{field}\" must not be empty"
  | .notList field => s!"\"{field}\" must be a list"
  | .emptyList field => s!"List \"{field}\" must not be empty"
  | .notDict field => s!"\"{field}\" must be a dict"
  | .emptyDict field => s!"Dict \"{field}\" must not be empty"
  | .notInteger field => s!"Field \"{field}\" must be an integer"
  | .missingFile field value =>
    s!"Field \"{field}\" must name an existing file, got '{value.display}'"
  | .notAllowed field allowed => s!"Field \"{field}\" must be from: {allowedText allowed}"
  | .wildcardInList field => s!"Field \"{field}\": wildcard is not supported for lists"
  | .expectedDict typeName => s!"Value must be a dict, got {typeName}"
  | .expectedContainer typeName => s!"Value must be a list or dict, got {typeName}"
  | .noRule path => s!"No schema rule for path \"{path.text}\""
  | .schemaNodeNotDict path => s!"Value at schema path \"{path.text}\" must be a dict"
  | .patternNotDict path => s!"Pattern at \"{path.text}\" must be a dict"

structure SpecFault where
  path : TreePath
  violation : Violation

def SpecFault.message (fault : SpecFault) : String :=
  s!"{fault.violation.message} (at \"{fault.path.text}\")"

/-- A fault of either document. -/
inductive Fault where
  | schema (defect : SchemaDefect)
  | spec (fault : SpecFault)

def Fault.message : Fault → String
  | .schema defect => "schema error: " ++ defect.message
  | .spec fault => "spec error: " ++ fault.message

end TestMatrix
