import TestMatrix.Json.Excerpt
import TestMatrix.Run.Fault
import TestMatrix.Settings
import TestMatrix.Spec.Validate

/-! # Faults of a command

What ends a command without success, with its exit code: two for a defect of the schema, one for
everything else. -/

namespace TestMatrix

inductive CommandFault where
  | unreadable (path : String) (fault : ReadFault)
  | notJson (path text : String) (error : SyntaxError)
  | badSettings (path : String) (fault : SettingsFault)
  | schema (defect : SchemaDefect)
  | spec (fault : SpecFault) (diagnosis : Diagnosis)
  | generation (fault : RunFault)
  /-- The report cannot be written. -/
  | report (fault : WriteFault)
  /-- The log file cannot be opened. -/
  | log (error : FileError)

namespace CommandFault

def message : CommandFault → String
  | .unreadable path fault => s!"failed to read {path}: {fault.message}"
  | .notJson path text error => s!"invalid JSON in {path}: {error.excerpt text}"
  | .badSettings path fault => s!"invalid config {path}: {fault.message}"
  | .schema defect => "schema error: " ++ defect.message
  | .spec fault _ => "spec error: " ++ fault.message
  | .generation fault => "generation failed: " ++ fault.message
  | .report fault => "io error: " ++ fault.message
  | .log error => "io error: " ++ error.message

/-- Whether the schema is at fault. -/
def isDefect : CommandFault → Bool
  | .schema _ => true
  | .generation fault => fault.isDefect
  | _ => false

def exitCode (fault : CommandFault) : Nat := if fault.isDefect then 2 else 1

/-- What was looked at when the specification was rejected. -/
def diagnosis? : CommandFault → Option Diagnosis
  | .spec _ diagnosis => some diagnosis
  | _ => none

end CommandFault

/-- A diagnosis as it is shown; an expectation that was never set is left out. -/
def Diagnosis.toJson (diagnosis : Diagnosis) : Json :=
  .obj ([("path", .str diagnosis.pathText), ("value", diagnosis.value)] ++
    (diagnosis.expectation.map fun expectation => ("expectation", expectation)).toList)

end TestMatrix
