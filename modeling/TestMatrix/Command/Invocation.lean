import TestMatrix.Command.Words

/-! # Invocations

What a command line asks for: one subcommand, and how to log. -/

namespace TestMatrix

/-- The documents that both subcommands read. -/
structure Inputs where
  spec : String
  schema : String

structure GenerateRequest where
  inputs : Inputs
  mode : Option String
  dryRun : Bool
  outDir : Option String
  templateDirs : List String
  config : Option String
  report : Option String

inductive Command where
  | validate (inputs : Inputs)
  | generate (request : GenerateRequest)

structure Invocation where
  /-- The file for the log, in place of the standard error. -/
  logFile : Option String
  /-- The number of times more logging was asked for. -/
  verbosity : Nat
  command : Command

namespace Invocation

/-- The verbosity goes up to the largest byte. -/
def verbosityLimit : Nat := 255

/-- What the words after the name of a subcommand come to. -/
def ofUses (scope : Scope) (reading : WordReading) : Except UsageFault Command :=
  match reading.value? .spec, reading.value? .schema with
  | some spec, some schema =>
    let inputs : Inputs := ⟨spec, schema⟩
    match scope with
    | .generate => .ok (.generate {
        inputs
        mode := reading.value? .mode
        dryRun := reading.uses? .dryRun
        outDir := reading.value? .outDir
        templateDirs := reading.values .templateDir
        config := reading.value? .config
        report := reading.value? .report })
    | _ => .ok (.validate inputs)
  | _, _ =>
    .error (.missingRequired ([Flag.spec, Flag.schema].filter fun flag => !reading.uses? flag))

def readWords (scope : Scope) : WordReading → List String → Except UsageFault WordReading
  | reading, [] => reading.settle
  | reading, word :: rest =>
    (reading.step scope word).bind fun reading => readWords scope reading rest

/-- What help is asked about: the command or one of its subcommands. -/
def helpOn : List String → UsageFault
  | [] => .help
  | word :: rest =>
    if (Scope.ofName? word).isSome || word == "help" then
      match rest with
      | [] => .help
      | other :: _ => .unknownSubcommand other
    else .unknownSubcommand word

/-- Flags of the subcommand count before those of the command. The flags of the command are judged
after the subcommand. -/
def combine (root : WordReading) (scope : Scope) (words : List String) :
    Except UsageFault Invocation := do
  let own ← readWords scope .start words
  let command ← ofUses scope own
  let root ← root.settle
  let verbosity := if own.uses? .verbose then own.count .verbose else root.count .verbose
  pure ⟨(own.value? .logJson).or (root.value? .logJson), min verbosity verbosityLimit, command⟩

/-- The words of a command line from the root on. -/
def ofRoot : WordReading → List String → Except UsageFault Invocation
  | reading, [] => do
    let reading ← reading.settle
    if reading.uses.isEmpty then .error .nothingGiven else .error .noSubcommand
  | reading, word :: rest =>
    if reading.takesSubcommand && word == "help" then .error (helpOn rest)
    else
      match reading.takesSubcommand, Scope.ofName? word with
      | true, some scope => combine reading scope rest
      | _, _ => (reading.step .root word).bind fun reading => ofRoot reading rest

/-- The invocation that a command line spells, without the name of the program. -/
def parse (words : List String) : Except UsageFault Invocation := ofRoot .start words

end Invocation

end TestMatrix
