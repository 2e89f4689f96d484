import TestMatrix.Proofs.EarlyFaults
import TestMatrix.Proofs.Search

/-!
# Branches that no run takes

A run knows what to do with a pattern that has no leaf, and with a leaf that generates and lacks its path or
its template. Here something else may be put in both places. Main statement: once a schema has been
compiled this makes no difference, wherever in the document the markers of a leaf stand. So a run ends with a
missing marker only if its templates or its artifacts are answered with one.
-/

namespace TestMatrix

/-- A marker is refused or missing. -/
def RunFault.IsMarker (fault : RunFault) : Prop :=
  ∃ marker path cause, fault = .schema (.invalidMarker marker path cause)

/-! ## Runs with other branches -/

/-- What is done with a pattern that has no leaf, and with a leaf that cannot be rendered. -/
structure Branches where
  unregistered : Pattern → Progress → Rendering Progress
  incomplete : TreePath → LeafRule → Rendering Unit

/-- The pattern is passed over and the leaf is refused. -/
def Branches.usual : Branches where
  unregistered _ progress := pure progress
  incomplete leafPath _ := throw (.schema (.invalidMarker "path" leafPath .incomplete))

section
variable (branches : Branches) (schema : Schema) (options : Options)

def Render.leafOr (required : Bool) (leafPath : TreePath) (rule : LeafRule) (context : Fields) : Rendering Unit :=
  if rule.path.isSome && rule.template.isSome then leaf required leafPath rule context
  else branches.incomplete leafPath rule

namespace Generate

def candidatesOr (excluded : Exclusions) (pattern : Pattern) (leaf : LeafRule) (progress : Progress) :
    List Fields → Rendering Progress
  | [] => pure progress
  | selection :: rest =>
    if excluded.contains selection then
      candidatesOr excluded pattern leaf ⟨progress.candidates + 1, progress.suppressed + 1⟩ rest
    else do
      let context := Context.build leaf.defaults options.mode progress.candidates selection
        pattern.ancestors
      warnOnFault pattern
        (Render.leafOr branches options.requireSubstitution pattern.leafPath leaf context)
      candidatesOr excluded pattern leaf ⟨progress.candidates + 1, progress.suppressed⟩ rest

def patternsOr (excluded : Exclusions) (progress : Progress) : List Pattern → Rendering Progress
  | [] => pure progress
  | pattern :: rest =>
    match schema.leaves.get? pattern.leafPath with
    | none => do
      let progress ← branches.unregistered pattern progress
      patternsOr excluded progress rest
    | some leaf =>
      if leaf.action = .generate then do
        let before ← Rendering.tally
        let progress ← candidatesOr branches options excluded pattern leaf progress pattern.selections
        let after ← Rendering.tally
        Rendering.note ⟨.debug, "pattern generated", [("path", .str pattern.path.text),
          ("artifacts", .num (.int (after.artifacts - before.artifacts : Nat)))]⟩
        patternsOr excluded progress rest
      else patternsOr excluded progress rest

/-- A run that takes these branches in place of its own. -/
def runOr (spec : Json) : Rendering Report := do
  Rendering.note ⟨.info, "generation started", [("mode", .str options.mode),
    ("template_dirs", .num (.int options.templateDirs.length))]⟩
  match Pattern.ofSpec schema spec with
  | .error fault => throw (.spec fault)
  | .ok found =>
    let excluded ← exclusions schema .empty found
    let progress ← patternsOr branches schema options excluded ⟨0, 0⟩ found
    let tally ← Rendering.tally
    let report : Report := ⟨options.mode, progress.candidates, progress.suppressed,
      tally.artifacts, tally.bytes, excluded.size⟩
    Rendering.note ⟨.info, "generation completed", [("candidates", .num (.int report.candidates)),
      ("suppressed", .num (.int report.suppressed)), ("artifacts", .num (.int report.artifacts)),
      ("bytes_written", .num (.int report.bytes))]⟩
    pure report

end Generate

end

/-! ## Where the branches make no difference -/

/-- The leaf can be rendered, or what is done with it otherwise is the usual. -/
def Branches.SpareLeaf (branches : Branches) (leafPath : TreePath) (rule : LeafRule) : Prop :=
  rule.IsComplete ∨ branches.incomplete leafPath rule = Branches.usual.incomplete leafPath rule

structure Branches.SparePattern (branches : Branches) (schema : Schema) (pattern : Pattern) : Prop where
  unregistered : schema.leaves.get? pattern.leafPath = none →
    branches.unregistered pattern = Branches.usual.unregistered pattern
  incomplete : ∀ leaf, schema.leaves.get? pattern.leafPath = some leaf → leaf.action = .generate →
    branches.SpareLeaf pattern.leafPath leaf

section
variable {branches : Branches} {schema : Schema} {options : Options}

theorem Render.leafOr_eq {leafPath : TreePath} {rule : LeafRule} (h : branches.SpareLeaf leafPath rule)
    (required : Bool) (context : Fields) :
    leafOr branches required leafPath rule context = leaf required leafPath rule context := by
  unfold leafOr
  rcases h with ⟨hpath, htemplate⟩ | husual
  · rw [hpath, htemplate]
    rfl
  · rw [husual, leaf]
    cases rule.path with
    | none => rfl
    | some path => cases rule.template <;> rfl

namespace Generate

theorem candidatesOr_eq {pattern : Pattern} {leaf : LeafRule} (h : branches.SpareLeaf pattern.leafPath leaf)
    (excluded : Exclusions) : ∀ (selections : List Fields) (progress : Progress),
      candidatesOr branches options excluded pattern leaf progress selections =
        candidates options excluded pattern leaf progress selections
  | [], _ => rfl
  | selection :: rest, progress => by
    simp only [candidatesOr, candidates, Render.leafOr_eq h, candidatesOr_eq h excluded rest]

theorem patternsOr_eq (excluded : Exclusions) : ∀ {found : List Pattern} (progress : Progress),
    (∀ pattern ∈ found, branches.SparePattern schema pattern) →
      patternsOr branches schema options excluded progress found = patterns schema options excluded progress found
  | [], _, _ => rfl
  | pattern :: rest, progress, h => by
    obtain ⟨hpattern, hrest⟩ := List.forall_mem_cons.mp h
    have ih := fun progress => patternsOr_eq excluded progress hrest
    rw [patternsOr, patterns, leafWith?]
    cases hleaf : schema.leaves.get? pattern.leafPath with
    | none =>
      dsimp only [Option.filter]
      rw [hpattern.unregistered hleaf]
      exact ih progress
    | some leaf =>
      by_cases hgenerates : leaf.action = .generate
      · have hspare := hpattern.incomplete leaf hleaf hgenerates
        simp only [Option.filter, hgenerates, decide_true, if_true, candidatesOr_eq hspare, ih]
      · simp only [Option.filter, hgenerates, decide_false, if_false, ih]
        rfl

theorem runOr_eq {spec : Json} (h : ∀ found, Pattern.ofSpec schema spec = .ok found →
    ∀ pattern ∈ found, branches.SparePattern schema pattern) :
    runOr branches schema options spec = run schema options spec := by
  unfold runOr run
  cases hfound : Pattern.ofSpec schema spec with
  | error fault => rfl
  | ok found =>
    have hpatterns (excluded : Exclusions) (progress : Progress) :
        patternsOr branches schema options excluded progress found = patterns schema options excluded progress found :=
      patternsOr_eq excluded progress (h found hfound)
    simp only [hpatterns]

/-- With its own branches a run is what it was, whatever the schema. -/
theorem runOr_usual (spec : Json) : runOr .usual schema options spec = run schema options spec := by
  apply runOr_eq
  intro found _ pattern _
  exact ⟨fun _ => rfl, fun leaf _ _ => Or.inr rfl⟩

/-! ## Runs of compiled schemas -/

theorem registered_of_found {spec : Json} {found : List Pattern} (h : Pattern.ofSpec schema spec = .ok found)
    {pattern : Pattern} (hmem : pattern ∈ found) : ∃ leaf, schema.leaves.get? pattern.leafPath = some leaf := by
  obtain ⟨place, fields, -, hat⟩ := Pattern.isAt_of_mem_ofNode spec h pattern hmem
  rw [hat.leafPath]
  exact Option.isSome_iff_exists.mp hat.isLeaf

variable {document : Json} (hcompile : Schema.compile document = .ok schema)
include hcompile

theorem sparePattern_of_found {spec : Json} {found : List Pattern} (h : Pattern.ofSpec schema spec = .ok found)
    {pattern : Pattern} (hmem : pattern ∈ found) : branches.SparePattern schema pattern := by
  obtain ⟨leaf, hleaf⟩ := registered_of_found h hmem
  constructor
  · intro hnone
    rw [hleaf] at hnone
    cases hnone
  · intro other hother hgenerates
    exact Or.inl (Schema.complete_of_compile hcompile hother hgenerates)

/-- Of its own a run does not fail with a missing marker. -/
theorem failsWithin_unmarked {allowed : RunFault → Prop} (hunmarked : ∀ fault, ¬fault.IsMarker → allowed fault)
    (spec : Json) : Script.FailsWithin allowed (run schema options spec) := by
  have htemplate : ∀ text cause, allowed (.schema (.template text cause)) := by
    intro text cause
    apply hunmarked
    rintro ⟨marker, path, reason, h⟩
    cases h
  cases hfound : Pattern.ofSpec schema spec with
  | ok found => exact failsWithin_run htemplate hcompile hfound
  | error fault =>
    have hspec : allowed (.spec fault) := by
      apply hunmarked
      rintro ⟨marker, path, reason, h⟩
      cases h
    rw [run, hfound]
    apply Rendering.failsWithin_bind (Rendering.failsWithin_note _)
    intro _
    exact Rendering.failsWithin_throw hspec

/-- **Dead branches.** In a compiled schema the leaf of every pattern is found, and every leaf that
generates has a path and a template. So a run, which under any schema is the one with the usual branches, is
the same whatever is put in place of its branches for other patterns and leaves; and where it ends with a
missing marker, the source of templates or the destination of artifacts has answered with just that. -/
theorem run_takes_no_branch (options : Options) (spec : Json) :
    (∀ found, Pattern.ofSpec schema spec = .ok found → ∀ pattern ∈ found,
      ∃ leaf, schema.leaves.get? pattern.leafPath = some leaf) ∧
    (∀ path leaf, schema.leaves.get? path = some leaf → leaf.action = .generate →
      (∃ target, leaf.path = some target) ∧ ∃ template, leaf.template = some template) ∧
    (∀ other : Schema, runOr .usual other options spec = run other options spec) ∧
    (∀ branches, runOr branches schema options spec = run schema options spec) ∧
    ∀ {γ σ : Type} (host : Host (StateT γ (StateM σ))) accepted c s (fault : RunFault), fault.IsMarker →
      (Script.play host (run schema options spec) accepted c s).1.1.2 = .error fault →
      (∃ reference c' s', (host.fetch reference c' s').1.1 = .error fault) ∨
      ∃ artifact c' s', (host.deliver artifact c' s').1.1 = .error fault := by
  refine ⟨fun found hfound pattern hmem => registered_of_found hfound hmem, fun path leaf hleaf hgenerates => ?_,
    fun other => runOr_usual spec,
    fun branches => runOr_eq fun found hfound pattern hmem => sparePattern_of_found hcompile hfound hmem, ?_⟩
  · obtain ⟨hpath, htemplate⟩ := Schema.complete_of_compile hcompile hleaf hgenerates
    exact ⟨Option.isSome_iff_exists.mp hpath, Option.isSome_iff_exists.mp htemplate⟩
  · intro γ σ host accepted c s fault hmarker hplay
    let allowed (fault : RunFault) : Prop := fault.IsMarker →
      (∃ reference c' s', (host.fetch reference c' s').1.1 = .error fault) ∨
      ∃ artifact c' s', (host.deliver artifact c' s').1.1 = .error fault
    have hrun : Script.FailsWithin allowed (run schema options spec) := by
      apply failsWithin_unmarked hcompile
      intro other hother hmarked
      exact absurd hmarked hother
    have hfetch : ∀ reference c s, FaultsWithin allowed (host.fetch reference c s).1.1 := by
      intro reference c' s' other h _
      exact Or.inl ⟨reference, c', s', h⟩
    have hdeliver : ∀ artifact c s, FaultsWithin allowed (host.deliver artifact c s).1.1 := by
      intro artifact c' s' other h _
      exact Or.inr ⟨artifact, c', s', h⟩
    exact hrun.play_cached hfetch hdeliver (orderly_run schema options spec) accepted c s fault hplay hmarker

omit hcompile in
/-- A schema that no document compiles to: its leaf lacks path and template, and the run fails with it. -/
example (read : String → Except RunFault String) : (Script.trace read
    (run ⟨⟨[]⟩, [], ⟨[([], .empty)]⟩, ⟨[]⟩⟩ .default (.obj [])) .zero).value =
      .error (.schema (.invalidMarker "path" [] .incomplete)) := rfl

end Generate

end

namespace Generate

/-- A leaf whose markers stand in three nodes of one path, the last of which sets the action anew. -/
def spreadDocument : Json := .obj [
  ("/cases", .obj [("/*", .obj [("path", .str "%(size)s")])]),
  ("/cases/*", .obj [("action", .str "suppress")]),
  ("/", .obj [("/cases/*", .obj [("template", .str "text"), ("action", .str "generate")])])]

def spreadSchema : Schema :=
  ⟨⟨[([], []), ([.ofKey "cases"], []), ([.ofKey "cases", .wildcard], [])]⟩, [],
    ⟨[([.ofKey "cases", .wildcard], ⟨some "%(size)s", some (.inline "text"), .generate, [], []⟩)]⟩, ⟨[]⟩⟩

def spreadSpec : Json := .obj [("cases", .arr [.obj [("size", .str "a")]])]

/-- The leaf is complete, and its artifact is handed over whatever the branches are. -/
theorem spread_leaf_rendered : Schema.compile spreadDocument = .ok spreadSchema ∧
    (∃ leaf, spreadSchema.leaves.get? [.ofKey "cases", .wildcard] = some leaf ∧ leaf.action = .generate ∧
      (∃ target, leaf.path = some target) ∧ ∃ template, leaf.template = some template) ∧
    ∀ branches, Script.play memoryHost (runOr branches spreadSchema .default spreadSpec) .zero [] =
      ((⟨1, 4⟩, .ok ⟨"release", 1, 0, 1, 4, 0⟩), [⟨"a", "text"⟩]) := by
  have hcompile : Schema.compile spreadDocument = .ok spreadSchema := rfl
  have hfound : Pattern.ofSpec spreadSchema spreadSpec = .ok [⟨[.ofKey "cases", .index 0],
      [.ofKey "cases", .wildcard], [], [⟨"size", [.str "a"]⟩]⟩] := rfl
  obtain ⟨hregistered, hcomplete, -, hbranches, -⟩ := run_takes_no_branch hcompile .default spreadSpec
  obtain ⟨leaf, hleaf⟩ := hregistered _ hfound _ (List.mem_singleton_self _)
  have hgenerates : leaf.action = .generate := by
    cases hleaf
    rfl
  refine ⟨hcompile, ⟨leaf, hleaf, hgenerates, hcomplete _ leaf hleaf hgenerates⟩, fun branches => ?_⟩
  rw [hbranches branches, memoryHost, play_run]
  rfl

end Generate

end TestMatrix
