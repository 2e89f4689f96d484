/-! # Flags

The command and its two subcommands know these flags. Some are known to both levels; given at both,
those of the subcommand count. -/

namespace TestMatrix

inductive Flag where
  | logJson
  | verbose
  | help
  | version
  | spec
  | schema
  | mode
  | dryRun
  | outDir
  | templateDir
  | config
  | report
deriving DecidableEq

/-- What follows a flag and how often it may stand. -/
inductive Arity where
  /-- One value, once. -/
  | single
  /-- One value, any number of times. -/
  | many
  /-- No value, once. -/
  | switch
  /-- No value, any number of times. -/
  | counted

/-- The levels of the command line. -/
inductive Scope where
  | root
  | validate
  | generate
deriving DecidableEq

/-- Why a command line is refused, or asks for no run at all. -/
inductive UsageFault where
  | nothingGiven
  | help
  | version
  | noSubcommand
  | unknownSubcommand (word : String)
  | unknownArgument (word : String)
  | missingValue (flag : Flag)
  | unexpectedValue (flag : Flag)
  | repeated (flag : Flag)
  | missingRequired (flags : List Flag)

namespace Flag

def long : Flag → String
  | .logJson => "log-json"
  | .verbose => "verbose"
  | .help => "help"
  | .version => "version"
  | .spec => "spec"
  | .schema => "schema"
  | .mode => "mode"
  | .dryRun => "dry-run"
  | .outDir => "out-dir"
  | .templateDir => "template-dir"
  | .config => "config"
  | .report => "report"

def short? : Flag → Option Char
  | .verbose => some 'v'
  | .help => some 'h'
  | .version => some 'V'
  | _ => none

def arity : Flag → Arity
  | .templateDir => .many
  | .help | .version | .dryRun => .switch
  | .verbose => .counted
  | _ => .single

def takesValue (flag : Flag) : Bool :=
  match flag.arity with
  | .single | .many => true
  | .switch | .counted => false

/-- Whether the value names a file or directory and so cannot be empty. -/
def namesPath (flag : Flag) : Bool := flag.takesValue && flag != .mode

end Flag

namespace Scope

/-- The flags known at a level. -/
def flags : Scope → List Flag
  | .root => [.logJson, .verbose, .help, .version]
  | .validate => [.logJson, .verbose, .help, .spec, .schema]
  | .generate => [.logJson, .verbose, .help, .spec, .schema, .mode, .dryRun, .outDir, .templateDir,
      .config, .report]

def long? (scope : Scope) (name : String) : Option Flag :=
  scope.flags.find? fun flag => flag.long == name

def short? (scope : Scope) (letter : Char) : Option Flag :=
  scope.flags.find? fun flag => flag.short? == some letter

/-- The subcommand of this name. -/
def ofName? : String → Option Scope
  | "validate" => some .validate
  | "generate" => some .generate
  | _ => none

end Scope

namespace UsageFault

def message : UsageFault → String
  | .nothingGiven | .help | .version => ""
  | .noSubcommand => "a subcommand is required but none was given"
  | .unknownSubcommand word => s!"unrecognized subcommand '{word}'"
  | .unknownArgument word => s!"unexpected argument '{word}' found"
  | .missingValue flag => s!"a value is required for '--{flag.long}' but none was supplied"
  | .unexpectedValue flag => s!"'--{flag.long}' takes no value"
  | .repeated flag => s!"the argument '--{flag.long}' cannot be used multiple times"
  | .missingRequired flags =>
    let names := String.intercalate ", " (flags.map fun flag => "--" ++ flag.long)
    s!"required arguments were not provided: {names}"

end UsageFault

end TestMatrix
