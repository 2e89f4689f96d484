import TestMatrix.Command.Generate

/-! # Running an invocation -/

namespace TestMatrix

namespace Platform

variable {m : Type → Type} [Monad m]

/-- The platform that logs events of a number of levels only. -/
def keeping (limit : Nat) (platform : Platform m) : Platform m :=
  { platform with note := fun event => if event.isKept limit then platform.note event else pure () }

/-- Makes sure that a log file is there; what it holds stays. -/
def openLog (platform : Platform m) (path : String) : m (Except FileError Unit) := do
  match ← platform.perform (.append path .empty) with
  | .error .notFound => platform.perform (.create path)
  | result => pure result

end Platform

namespace Invocation

section
variable {m : Type → Type} [Monad m] (platform : Platform m)

def validate (inputs : Inputs) : CommandT m Unit := do
  let (_, schema) ← Load.validated platform inputs
  platform.note ⟨.info, "specification valid",
    [("spec", .str inputs.spec), ("leaves", .num (.int schema.leaves.size))]⟩
  platform.print (inputs.spec ++ ": valid\n")

def runCommand (session : Session m) : Command → CommandT m Unit
  | .validate inputs => validate platform inputs
  | .generate request => request.run platform session

/-- Tells why a command failed. -/
def complain (fault : CommandFault) : m Unit := do
  platform.complain ("error: " ++ fault.message ++ "\n")
  match fault.diagnosis? with
  | some diagnosis => platform.complain (diagnosis.toJson.indented ++ "\n")
  | none => pure ()

/-- Runs the command, and tells why if it fails. Gives the exit code. -/
def runLogged (session : Session m) (command : Command) : m Nat := do
  match ← (runCommand platform session command).run with
  | .ok () => pure 0
  | .error fault =>
    platform.note ⟨.error, "command failed", [("error", .str fault.message)]⟩
    complain platform fault
    pure fault.exitCode

/-- Opens the log file, if one is named, and runs the command, logging events of `limit` levels. -/
def run (session : Session m) (limit : Nat) (invocation : Invocation) : m Nat := do
  let opened ←
    match invocation.logFile with
    | some path => platform.openLog path
    | none => pure (.ok ())
  match opened with
  | .error error =>
    complain platform (.log error)
    pure (CommandFault.log error).exitCode
  | .ok () => runLogged (platform.keeping limit) session invocation.command

end

end Invocation

end TestMatrix
