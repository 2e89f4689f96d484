import TestMatrix.Command.Load
import TestMatrix.Run.Generate
import TestMatrix.Run.Hosts
import TestMatrix.Text.Quoted

/-! # The generate command

Flags come before settings, and settings before what holds without either. -/

namespace TestMatrix

namespace GenerateRequest

/-- The directory of a file, as it is searched for templates. -/
def directoryOf (path : String) : String :=
  ((FilePath.parent? path).filter fun parent => !parent.isEmpty).getD "."

/-- The directories named by flags, or else those of the settings, or else that of the schema. -/
def searchDirs (request : GenerateRequest) (settings : Settings) : List String :=
  if !request.templateDirs.isEmpty then request.templateDirs
  else if !settings.templateDirs.isEmpty then settings.templateDirs
  else [directoryOf request.inputs.schema]

def options (request : GenerateRequest) (settings : Settings) : Options where
  mode := (request.mode.or settings.mode).getD Options.default.mode
  templateDirs := request.searchDirs settings
  requireSubstitution := settings.requireSubstitution.getD Options.default.requireSubstitution

/-- Where artifacts go. -/
def outputRoot (request : GenerateRequest) (settings : Settings) : String :=
  (request.outDir.or settings.outDir).getD "."

end GenerateRequest

/-- What tells one run from another. -/
structure Session (m : Type → Type) where
  runId : m String
  now : m String
  /-- Milliseconds since some moment. -/
  milliseconds : m Nat

/-- A report as its file holds it. -/
def Report.toJson (report : Report) (runId startedAt : String) (duration : Nat) : Json :=
  let size (n : Nat) : Json := .num (.int n)
  .obj [("run_id", .str runId), ("started_at", .str startedAt), ("mode", .str report.mode),
    ("candidates", size report.candidates), ("suppressed", size report.suppressed),
    ("artifacts", size report.artifacts), ("bytes_written", size report.bytes),
    ("excluded_patterns", size report.excluded), ("duration_ms", size duration)]

/-- What is printed after artifacts were written. -/
def Report.summary (report : Report) (runId : String) : String :=
  s!"{report.artifacts} artifacts written ({report.suppressed} of {report.candidates} " ++
    s!"candidates suppressed), run {runId}\n"

namespace GenerateRequest

section
variable {m : Type → Type} [Monad m] (platform : Platform m)

/-- Templates come from files; artifacts go to files, or are printed in a dry run. -/
def host (request : GenerateRequest) (settings : Settings) : Host (StateT TemplateCache m) where
  fetch := Source.files platform (request.searchDirs settings)
  deliver artifact cache := do
    let sink :=
      if request.dryRun then Sink.dryRun platform
      else Sink.files platform (request.outputRoot settings)
    pure (← sink artifact, cache)
  note event cache := do
    platform.note event
    pure ((), cache)

def writeReport (path : String) (report : Json) : CommandT m Unit := do
  let written : m (Except WriteFault Unit) :=
    Writer.replace platform.files path report.indented.toUTF8
  match ← written with
  | .error fault => throw (.report fault)
  | .ok () => platform.note ⟨.info, "report written", [("path", .str path)]⟩

def run (session : Session m) (request : GenerateRequest) : CommandT m Unit := do
  let settings ← Load.settings platform request.config
  let options := request.options settings
  let (spec, schema) ← Load.validated platform request.inputs
  platform.note ⟨.debug, "generation options resolved", [("mode", .str options.mode),
    ("template_dirs", .str (quotedList options.templateDirs))]⟩
  let runId ← session.runId
  let startedAt ← session.now
  let before ← session.milliseconds
  let script := (Generate.run schema options spec).run
  let ((_, result), _) ← (script.play (request.host platform settings) .zero).run []
  match result with
  | .error fault => throw (.generation fault)
  | .ok report =>
    let after ← session.milliseconds
    match request.report with
    | some path => writeReport platform path (report.toJson runId startedAt (after - before))
    | none => pure ()
    if !request.dryRun then platform.print (report.summary runId)

end

end GenerateRequest

end TestMatrix
