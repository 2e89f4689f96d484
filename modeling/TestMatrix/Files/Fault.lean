import TestMatrix.Files.System

/-! # Faults of files

What goes wrong beside the system calls themselves. -/

namespace TestMatrix

/-- Why a file gives no text. -/
inductive ReadFault where
  | system (error : FileError)
  | notText

def ReadFault.message : ReadFault → String
  | .system error => error.message
  | .notText => "stream did not contain valid UTF-8"

/-- Why a file is not written. -/
inductive WriteFault where
  | emptyPath
  | escapesRoot (path : String)
  | noFileName (path : String)
  | system (error : FileError)

def WriteFault.message : WriteFault → String
  | .emptyPath => "empty artifact path"
  | .escapesRoot path => s!"artifact path {path} escapes the output root"
  | .noFileName path => s!"invalid artifact path {path}"
  | .system error => error.message

end TestMatrix
