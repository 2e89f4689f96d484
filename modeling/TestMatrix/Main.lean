import Std.Time.DateTime.Timestamp
import TestMatrix.Command.Run
import TestMatrix.Command.Usage
import TestMatrix.Text.Timestamp

/-! # The program

The machine as a platform, and nothing that decides. -/

namespace TestMatrix

namespace Main

/-- The error that a system call reports. Some calls report the code of an error, others its
negation. -/
def errorOf (error : IO.Error) : FileError :=
  let ofCode (code : UInt32) : FileError :=
    match (min code (0 - code)).toNat with
    | 2 => .notFound
    | 16 => .busy
    | 17 => .alreadyExists
    | 20 => .notADirectory
    | 21 => .isADirectory
    | 36 => .nameTooLong
    | _ => .other (toString error)
  match error with
  | .noFileOrDirectory _ code _ | .inappropriateType _ code _ | .alreadyExists _ code _
  | .invalidArgument _ code _ | .resourceBusy code _ => ofCode code
  | error => .other (toString error)

def attempt {α : Type} (action : IO α) : IO (Except FileError α) := do
  try
    pure (.ok (← action))
  catch error => pure (.error (errorOf error))

def perform : SystemCall → IO Unit
  | .makeDirectory path => IO.FS.createDir path
  | .create path => IO.FS.writeBinFile path .empty
  | .append path content => do
    let handle ← IO.FS.Handle.mk path .append
    handle.write content
    handle.flush
  -- what was written has been flushed, and there is no call that asks for more
  | .sync _ => pure ()
  | .rename source target => IO.FS.rename source target
  | .openDirectory path => do
    let _ ← IO.FS.Handle.mk path .read

/-- Whether a path can be read like a file. -/
def isFile (path : String) : IO Bool := do
  try
    let handle ← IO.FS.Handle.mk path .read
    let _ ← handle.read 1
    pure true
  catch
    | .permissionDenied .. => pure true
    | _ => pure false

def isDirectory (path : String) : IO Bool := do
  if path.isEmpty then pure false
  else
    match ← attempt (IO.FS.Handle.mk (path ++ "/.") .read) with
    | .ok _ => pure true
    | .error _ => pure false

def now : IO String := do
  let moment ← Std.Time.Timestamp.now
  pure (timestamp moment.toSecondsSinceUnixEpoch.val.toNat)

/-- Logs to a file, or else to the standard error. -/
def note (logFile : Option String) (event : Event) : IO Unit := do
  let line := (event.toJson (← now)).compact ++ "\n"
  match logFile with
  | some path =>
    let _ ← attempt (perform (.append path line.toUTF8))
  | none => (← IO.getStderr).putStr line

def platform (logFile : Option String) : Platform IO where
  perform call := attempt (perform call)
  read path := attempt (IO.FS.readBinFile path)
  isFile := isFile
  isDirectory := isDirectory
  print text := do (← IO.getStdout).putStr text
  complain text := do (← IO.getStderr).putStr text
  note := note logFile

/-- A random identifier of 32 hexadecimal digits in the usual groups. -/
def runId : IO String := do
  let digits := (← IO.getRandomBytes 16).toList.flatMap fun byte =>
    [hexDigit (byte.toNat / 16), hexDigit (byte.toNat % 16)]
  let group (start size : Nat) : String := String.ofList ((digits.drop start).take size)
  pure (String.intercalate "-" [group 0 8, group 8 4, group 12 4, group 16 4, group 20 12])

def session : Session IO := ⟨runId, now, IO.monoMsNow⟩

def run (words : List String) : IO UInt32 := do
  let code ←
    match Invocation.parse words with
    | .error fault => fault.tell (platform none)
    | .ok invocation =>
      invocation.run (platform invocation.logFile) session (Event.limit invocation.verbosity)
  pure code.toUInt32

end Main

end TestMatrix

def main (words : List String) : IO UInt32 := TestMatrix.Main.run words
