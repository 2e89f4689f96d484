import TestMatrix.Matrix.Exclusion
import TestMatrix.Matrix.Pattern
import TestMatrix.Render.Leaf
import TestMatrix.Spec.Validate

/-! # Generating artifacts

Every selection of a suppressing pattern is excluded before the first artifact is rendered, wherever
the pattern stands. The selections of the generating patterns are the candidates; they are numbered
in document order, excluded ones included. -/

namespace TestMatrix

structure Options where
  mode : String
  /-- The directories in which templates are looked up, in order. -/
  templateDirs : List String
  /-- Whether the templates of actions must change when they are rendered. -/
  requireSubstitution : Bool

def Options.default : Options := ⟨"release", [], false⟩

structure Report where
  mode : String
  candidates : Nat
  suppressed : Nat
  artifacts : Nat
  bytes : Nat
  excluded : Nat

/-- The candidates seen so far, and how many of them were excluded. -/
structure Progress where
  candidates : Nat
  suppressed : Nat

namespace Generate

section
variable (schema : Schema) (options : Options)

/-- The leaf of a pattern, if it has this action. -/
def leafWith? (action : LeafAction) (pattern : Pattern) : Option LeafRule :=
  (schema.leaves.get? pattern.leafPath).filter fun leaf => leaf.action = action

/-- Collects the exclusions of all suppressing patterns. -/
def exclusions (found : Exclusions) : List Pattern → Rendering Exclusions
  | [] => pure found
  | pattern :: rest =>
    match leafWith? schema .suppress pattern with
    | none => exclusions found rest
    | some _ => do
      let found := found.insertAll pattern.selections
      Rendering.note ⟨.debug, "suppress pattern expanded",
        [("path", .str pattern.path.text), ("excluded", .num (.int found.size))]⟩
      exclusions found rest

/-- Notes the fault that stops a pattern. -/
def warnOnFault (pattern : Pattern) (rendering : Rendering Unit) : Rendering Unit :=
  tryCatch rendering fun fault => do
    Rendering.note ⟨.warn, "generation failed",
      [("path", .str pattern.path.text), ("error", .str fault.message)]⟩
    throw fault

/-- Renders the candidates of a pattern that are not excluded. -/
def candidates (excluded : Exclusions) (pattern : Pattern) (leaf : LeafRule) (progress : Progress) :
    List Fields → Rendering Progress
  | [] => pure progress
  | selection :: rest =>
    if excluded.contains selection then
      candidates excluded pattern leaf ⟨progress.candidates + 1, progress.suppressed + 1⟩ rest
    else do
      let context := Context.build leaf.defaults options.mode progress.candidates selection
        pattern.ancestors
      warnOnFault pattern
        (Render.leaf options.requireSubstitution pattern.leafPath leaf context)
      candidates excluded pattern leaf ⟨progress.candidates + 1, progress.suppressed⟩ rest

/-- Renders the generating patterns in document order. -/
def patterns (excluded : Exclusions) (progress : Progress) : List Pattern → Rendering Progress
  | [] => pure progress
  | pattern :: rest =>
    match leafWith? schema .generate pattern with
    | none => patterns excluded progress rest
    | some leaf => do
      let before ← Rendering.tally
      let progress ← candidates options excluded pattern leaf progress pattern.selections
      let after ← Rendering.tally
      Rendering.note ⟨.debug, "pattern generated", [("path", .str pattern.path.text),
        ("artifacts", .num (.int (after.artifacts - before.artifacts : Nat)))]⟩
      patterns excluded progress rest

/-- Generates from a specification under a compiled schema. -/
def run (spec : Json) : Rendering Report := do
  Rendering.note ⟨.info, "generation started", [("mode", .str options.mode),
    ("template_dirs", .num (.int options.templateDirs.length))]⟩
  match Pattern.ofSpec schema spec with
  | .error fault => throw (.spec fault)
  | .ok found =>
    let excluded ← exclusions schema .empty found
    let progress ← patterns schema options excluded ⟨0, 0⟩ found
    let tally ← Rendering.tally
    let report : Report := ⟨options.mode, progress.candidates, progress.suppressed,
      tally.artifacts, tally.bytes, excluded.size⟩
    Rendering.note ⟨.info, "generation completed", [("candidates", .num (.int report.candidates)),
      ("suppressed", .num (.int report.suppressed)), ("artifacts", .num (.int report.artifacts)),
      ("bytes_written", .num (.int report.bytes))]⟩
    pure report

end

/-- Compiles the schema, validates the specification, and generates. -/
def checked (isFile : String → Bool) (options : Options) (schema spec : Json) : Rendering Report :=
  match Schema.compile schema with
  | .error fault => throw (.ofFault fault)
  | .ok compiled =>
    match Validate.run compiled isFile .fresh spec with
    | .error rejection => throw (.spec rejection.fault)
    | .ok _ => run compiled options spec

end Generate

end TestMatrix
