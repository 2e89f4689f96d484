import TestMatrix.Command.Flag
import TestMatrix.Platform

/-! # Answers to a command line that asks for no run -/

namespace TestMatrix

namespace UsageFault

def versionText : String := "testgen 0.1.0\n"

def helpText : String :=
  String.intercalate "\n" [
    "Declarative test artifact generator",
    "",
    "Usage: testgen [--log-json <FILE>] [-v]... validate --spec <FILE> --schema <FILE>",
    "       testgen [--log-json <FILE>] [-v]... generate --spec <FILE> --schema <FILE>",
    "               [--mode <MODE>] [--dry-run] [--out-dir <DIR>] [--template-dir <DIR>]...",
    "               [--config <FILE>] [--report <FILE>]",
    "       testgen --help | --version",
    ""]

/-- Answers, and gives the exit code: zero when help or the version was asked for, else two. -/
def tell {m : Type → Type} [Monad m] (platform : Platform m) : UsageFault → m Nat
  | .help => do
    platform.print helpText
    pure 0
  | .version => do
    platform.print versionText
    pure 0
  | .nothingGiven => do
    platform.complain helpText
    pure 2
  | fault => do
    platform.complain ("error: " ++ fault.message ++ "\n\n" ++ helpText)
    pure 2

end UsageFault

end TestMatrix
