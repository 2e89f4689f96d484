import TestMatrix.Files.Fault
import TestMatrix.Spec.Violation

/-! # Faults of a run -/

namespace TestMatrix

inductive RunFault where
  | schema (defect : SchemaDefect)
  | spec (fault : SpecFault)
  | templateNotFound (reference : String) (searched : List String)
  | templateUnreadable (path : String) (fault : ReadFault)
  | write (fault : WriteFault)

namespace RunFault

def message : RunFault → String
  | .schema defect => "schema error: " ++ defect.message
  | .spec fault => "spec error: " ++ fault.message
  | .templateNotFound reference searched =>
    let places := String.intercalate ", " searched
    s!"template '{reference}' not found in search paths [{places}]"
  | .templateUnreadable path fault => s!"failed to read template {path}: {fault.message}"
  | .write fault => "io error: " ++ fault.message

/-- Whether the schema is at fault, and not the specification or the surroundings. -/
def isDefect : RunFault → Bool
  | .schema _ => true
  | _ => false

def ofFault : Fault → RunFault
  | .schema defect => .schema defect
  | .spec fault => .spec fault

end RunFault

end TestMatrix
