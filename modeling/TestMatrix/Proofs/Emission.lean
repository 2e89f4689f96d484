import Mathlib.Data.Finset.Card
import Mathlib.Data.Finset.Dedup
import TestMatrix.Proofs.Odometer
import TestMatrix.Proofs.Traces
import TestMatrix.Run.Generate

/-!
# What a run hands over

A run collects the excluded keys in a first pass and renders the candidates in a second, counting as
it goes. Here the same is said as a list: the candidates of all generating patterns with their
numbers, less those whose key is excluded. Whatever the templates and the destination are, a run
renders this list from its beginning; where the templates stay the same, what it hands over is the traces
of these renderings.
-/

namespace TestMatrix

/-! ## Excluded keys -/

namespace Exclusions

def keySet (exclusions : Exclusions) : Finset String := exclusions.keys.toFinset

theorem contains_iff (exclusions : Exclusions) (selection : Fields) :
    exclusions.contains selection = true ↔ exclusionKey selection ∈ exclusions.keySet := by
  rw [contains, keySet, List.mem_toFinset, List.contains_iff_mem]

theorem keySet_insert (exclusions : Exclusions) (selection : Fields) :
    (exclusions.insert selection).2.keySet = Insert.insert (exclusionKey selection) exclusions.keySet := by
  unfold insert
  split
  · next h => rw [Finset.insert_eq_of_mem ((contains_iff _ _).mp h)]
  · exact List.toFinset_cons

theorem nodup_insert {exclusions : Exclusions} (h : exclusions.keys.Nodup) (selection : Fields) :
    (exclusions.insert selection).2.keys.Nodup := by
  unfold insert
  split
  · exact h
  · next hnot =>
    refine List.nodup_cons.mpr ⟨fun hmem => hnot ?_, h⟩
    exact List.contains_iff_mem.mpr hmem

theorem insertAll_cons (exclusions : Exclusions) (selection : Fields) (rest : List Fields) :
    exclusions.insertAll (selection :: rest) = (exclusions.insert selection).2.insertAll rest := rfl

theorem keySet_insertAll : ∀ (selections : List Fields) (exclusions : Exclusions),
    (exclusions.insertAll selections).keySet = exclusions.keySet ∪ (selections.map exclusionKey).toFinset
  | [], exclusions => by simp [insertAll]
  | selection :: rest, exclusions => by
    rw [insertAll_cons, keySet_insertAll rest, keySet_insert, List.map_cons, List.toFinset_cons,
      Finset.insert_union, Finset.union_insert]

theorem nodup_insertAll : ∀ (selections : List Fields) {exclusions : Exclusions},
    exclusions.keys.Nodup → (exclusions.insertAll selections).keys.Nodup
  | [], _, h => h
  | selection :: rest, _, h => nodup_insertAll rest (nodup_insert h selection)

theorem size_eq_card {exclusions : Exclusions} (h : exclusions.keys.Nodup) :
    exclusions.size = exclusions.keySet.card := (List.toFinset_card_of_nodup h).symm

end Exclusions

/-- Hands over the trace of a run, and reports what was accepted: how many artifacts, and the sum of the
numbers of bytes that the destination answered, as far as it can be counted. -/
def Trace.reported {m : Type → Type} [Monad m] (deliver : Sink m)
    (trace : Trace (Except RunFault (Tally → Report))) : m (Tally × Except RunFault Report) := do
  let (numbers, refusal) ← TestMatrix.handOver deliver trace.artifacts
  let tally : Tally := ⟨numbers.length, min numbers.sum Tally.limit⟩
  pure (tally, (trace.outcome refusal).map (· tally))

theorem Trace.reported_value {σ : Type} (deliver : Sink (StateM σ)) (trace : Trace (Except RunFault (Tally → Report)))
    (s : σ) : (trace.reported deliver s).1.2 =
      (trace.outcome (TestMatrix.handOver deliver trace.artifacts s).1.2).map (· (trace.reported deliver s).1.1) := rfl

namespace Generate

section
variable (schema : Schema) (options : Options) (read : String → Except RunFault String)

/-! ## Candidates -/

/-- The selections of a pattern by number. -/
def product (pattern : Pattern) : List Fields :=
  (List.range (Odometer.sizes pattern.dimensions).prod).map (Odometer.selectionAt pattern.dimensions)

theorem selections_eq_product (pattern : Pattern) : pattern.selections = product pattern :=
  Odometer.selections_eq pattern.dimensions

/-- The keys of all selections of all suppressing patterns. -/
def excludedKeys (found : List Pattern) : Finset String :=
  (found.flatMap fun pattern =>
    if (leafWith? schema .suppress pattern).isSome then (product pattern).map exclusionKey else []).toFinset

structure Candidate where
  pattern : Pattern
  leaf : LeafRule
  selection : Fields

def candidatesAt (pattern : Pattern) : List Candidate :=
  match leafWith? schema .generate pattern with
  | none => []
  | some leaf => (product pattern).map fun selection => ⟨pattern, leaf, selection⟩

def candidatesOf (found : List Pattern) : List Candidate := found.flatMap (candidatesAt schema)

def isExcluded (excluded : Finset String) (candidate : Candidate) : Bool :=
  exclusionKey candidate.selection ∈ excluded

/-- What becomes of a candidate under a number: its leaf is rendered. -/
def Candidate.rendering (candidate : Candidate) (index : Nat) : Rendering Unit :=
  Render.leaf options.requireSubstitution candidate.pattern.leafPath candidate.leaf
    (Context.build candidate.leaf.defaults options.mode index candidate.selection candidate.pattern.ancestors)

/-- What the candidate of this number hands over. -/
def Candidate.trace (candidate : Candidate) (index : Nat) : Trace (Except RunFault Unit) :=
  Script.trace read (candidate.rendering options index) .zero

/-- The candidates that are not excluded. Each keeps its number among all, which go on from this one. -/
def remaining (excluded : Finset String) (index : Nat) (list : List Candidate) : List (Candidate × Nat) :=
  (list.zipIdx index).filter fun entry => !isExcluded excluded entry.1

def renderAll : List (Candidate × Nat) → Rendering Unit
  | [] => pure ()
  | (candidate, index) :: rest => do
    candidate.rendering options index
    renderAll rest

/-- What numbered candidates hand over that are rendered in turn. -/
def emit (entries : List (Candidate × Nat)) : Trace (Except RunFault Unit) :=
  Trace.sequence (entries.map fun entry => entry.1.trace options read entry.2)

/-- All that a run hands over. -/
def emission (found : List Pattern) : Trace (Except RunFault Unit) :=
  emit options read (remaining (excludedKeys schema found) 0 (candidatesOf schema found))

/-- What a run reports after which this has been accepted. -/
def reportOf (found : List Pattern) (tally : Tally) : Report where
  mode := options.mode
  candidates := (found.map fun pattern =>
    if (leafWith? schema .generate pattern).isSome then (Odometer.sizes pattern.dimensions).prod else 0).sum
  suppressed := (candidatesOf schema found).countP (isExcluded (excludedKeys schema found))
  artifacts := tally.artifacts
  bytes := tally.bytes
  excluded := (excludedKeys schema found).card

/-- Renders numbered candidates in turn, and reports. -/
def renderAndReport (found : List Pattern) (entries : List (Candidate × Nat)) : Rendering Report := do
  renderAll options entries
  let tally ← Rendering.tally
  pure (reportOf schema options found tally)

/-- A whole run: what it hands over, and what it reports of the tally in the end. -/
def runTrace (spec : Json) : Trace (Except RunFault (Tally → Report)) :=
  match Pattern.ofSpec schema spec with
  | .error fault => ⟨[], .error (.spec fault)⟩
  | .ok found => ⟨(emission schema options read found).artifacts,
      (emission schema options read found).value.map fun () => reportOf schema options found⟩

theorem runTrace_found {spec : Json} {found : List Pattern} (hfound : Pattern.ofSpec schema spec = .ok found) :
    runTrace schema options read spec = ⟨(emission schema options read found).artifacts,
      (emission schema options read found).value.map fun () => reportOf schema options found⟩ := by
  unfold runTrace
  rw [hfound]

theorem remaining_cons (excluded : Finset String) (index : Nat) (candidate : Candidate) (rest : List Candidate) :
    remaining excluded index (candidate :: rest) =
      if isExcluded excluded candidate then remaining excluded (index + 1) rest
      else (candidate, index) :: remaining excluded (index + 1) rest := by
  unfold remaining
  rw [List.zipIdx_cons, List.filter_cons]
  cases isExcluded excluded candidate <;> rfl

theorem remaining_append (excluded : Finset String) (index : Nat) (first second : List Candidate) :
    remaining excluded index (first ++ second) =
      remaining excluded index first ++ remaining excluded (index + first.length) second := by
  unfold remaining
  rw [List.zipIdx_append, List.filter_append]

theorem renderAll_append : ∀ first second : List (Candidate × Nat),
    renderAll options (first ++ second) = (do renderAll options first; renderAll options second)
  | [], second => (pure_bind () fun _ => renderAll options second).symm
  | (candidate, index) :: rest, second => by
    rw [List.cons_append, renderAll, renderAll, renderAll_append rest, bind_assoc]

/-! ## The passes of a run -/

open Rendering

def pastAll (excluded : Finset String) (progress : Progress) (list : List Candidate) : Progress :=
  ⟨progress.candidates + list.length, progress.suppressed + list.countP (isExcluded excluded)⟩

theorem pastAll_cons (excluded : Finset String) (progress : Progress) (candidate : Candidate)
    (rest : List Candidate) : pastAll excluded progress (candidate :: rest) =
      pastAll excluded ⟨progress.candidates + 1,
        if isExcluded excluded candidate then progress.suppressed + 1 else progress.suppressed⟩ rest := by
  unfold pastAll
  simp only [List.length_cons, List.countP_cons, Progress.mk.injEq]
  split <;> omega

theorem pastAll_append (excluded : Finset String) (progress : Progress) (first second : List Candidate) :
    pastAll excluded progress (first ++ second) =
      pastAll excluded (pastAll excluded progress first) second := by
  unfold pastAll
  simp only [List.length_append, List.countP_append, Progress.mk.injEq]
  omega

theorem fails_warn (pattern : Pattern) (fault : RunFault) :
    Script.Fails fault (do
      Rendering.note ⟨.warn, "generation failed",
        [("path", .str pattern.path.text), ("error", .str fault.message)]⟩
      throw fault : Rendering Unit) :=
  .note .done

/-- The first pass does nothing, apart from notes, and ends with the excluded keys, each once. -/
theorem endsIn_exclusions : ∀ (found : List Pattern) {start : Exclusions}, start.keys.Nodup → ∃ last : Exclusions,
    Script.EndsIn (.ok last) (exclusions schema start found) ∧ last.keys.Nodup ∧
      last.keySet = start.keySet ∪ excludedKeys schema found
  | [], start, hnodup => ⟨start, .done, hnodup, by simp [excludedKeys]⟩
  | pattern :: rest, start, hnodup => by
    rw [exclusions]
    cases hleaf : leafWith? schema .suppress pattern with
    | none =>
      obtain ⟨last, hends, hlast, hkeys⟩ := endsIn_exclusions rest hnodup
      refine ⟨last, hends, hlast, ?_⟩
      rw [hkeys, excludedKeys, excludedKeys, List.flatMap_cons, hleaf]
      rfl
    | some leaf =>
      obtain ⟨last, hends, hlast, hkeys⟩ :=
        endsIn_exclusions rest (Exclusions.nodup_insertAll pattern.selections hnodup)
      refine ⟨last, .note hends, hlast, ?_⟩
      rw [hkeys, Exclusions.keySet_insertAll, Finset.union_assoc, excludedKeys, excludedKeys,
        List.flatMap_cons, hleaf, selections_eq_product, ← List.toFinset_append]
      rfl

/-- The keys that are excluded after the first pass. -/
theorem exclusions_of_found (found : List Pattern) : ∃ last : Exclusions,
    Script.EndsIn (.ok last) (exclusions schema .empty found) ∧ last.keySet = excludedKeys schema found ∧
      last.size = (excludedKeys schema found).card := by
  obtain ⟨last, hends, hnodup, hkeys⟩ := @endsIn_exclusions schema found .empty List.nodup_nil
  have hlast : last.keySet = excludedKeys schema found := hkeys.trans (Finset.empty_union _)
  exact ⟨last, hends, hlast, hlast ▸ Exclusions.size_eq_card hnodup⟩

section
variable {m : Type → Type} [Monad m] [LawfulMonad m] {fetch : Source m} {deliver : Sink m}

theorem same_candidates (excluded : Exclusions) (pattern : Pattern) (leaf : LeafRule) :
    ∀ (selections : List Fields) (progress : Progress), Same (Host.unlogged fetch deliver)
      (candidates options excluded pattern leaf progress selections)
      (do renderAll options (remaining excluded.keySet progress.candidates (selections.map (⟨pattern, leaf, ·⟩)))
          pure (pastAll excluded.keySet progress (selections.map (⟨pattern, leaf, ·⟩))))
  | [], _ => .refl _
  | selection :: rest, progress => by
    rw [candidates, List.map_cons, remaining_cons, pastAll_cons]
    by_cases hkey : excluded.contains selection = true
    · -- left out, but it has used up its number
      have hexcluded : isExcluded excluded.keySet ⟨pattern, leaf, selection⟩ = true :=
        decide_eq_true ((Exclusions.contains_iff _ _).mp hkey)
      rw [if_pos hkey, hexcluded]
      exact same_candidates excluded pattern leaf rest _
    · have hkept : isExcluded excluded.keySet ⟨pattern, leaf, selection⟩ = false :=
        decide_eq_false (mt (Exclusions.contains_iff _ _).mpr hkey)
      rw [if_neg hkey, hkept]
      simp only [Bool.false_eq_true, if_false, renderAll, bind_assoc]
      exact (same_tryCatch _ (fails_warn pattern)).bind fun _ => same_candidates excluded pattern leaf rest _

theorem same_patterns (excluded : Exclusions) : ∀ (found : List Pattern) (progress : Progress),
    Same (Host.unlogged fetch deliver) (patterns schema options excluded progress found)
      (do renderAll options (remaining excluded.keySet progress.candidates (candidatesOf schema found))
          pure (pastAll excluded.keySet progress (candidatesOf schema found)))
  | [], _ => .refl _
  | pattern :: rest, progress => by
    rw [patterns, candidatesOf, List.flatMap_cons, ← candidatesOf, candidatesAt]
    cases hleaf : leafWith? schema .generate pattern with
    | none => exact same_patterns excluded rest progress
    | some leaf =>
      simp only [remaining_append, renderAll_append, pastAll_append, ← selections_eq_product, bind_assoc]
      -- the tally is asked for twice, and goes into a note only
      intro accepted
      refine (Same.bind (g := fun progress => do
        renderAll options (remaining excluded.keySet progress.candidates (candidatesOf schema rest))
        pure (pastAll excluded.keySet progress (candidatesOf schema rest)))
        (same_candidates options excluded pattern leaf _ progress) (fun progress later => ?_) accepted).trans ?_
      · exact ((same_note _ _).trans (same_patterns excluded rest progress)) later
      · simp only [bind_assoc, pure_bind]
        rfl

end

theorem candidatesOf_length : ∀ found : List Pattern, (candidatesOf schema found).length =
    (found.map fun pattern => if (leafWith? schema .generate pattern).isSome then
      (Odometer.sizes pattern.dimensions).prod else 0).sum
  | [] => rfl
  | pattern :: rest => by
    rw [candidatesOf, List.flatMap_cons, ← candidatesOf, List.length_append, candidatesOf_length rest,
      List.map_cons, List.sum_cons, candidatesAt]
    cases leafWith? schema .generate pattern with
    | none => rfl
    | some leaf => simp [product]

/-- With any templates and any destination, a run renders the candidates that are not excluded, and
reports. -/
theorem same_run {m : Type → Type} [Monad m] [LawfulMonad m] {fetch : Source m} {deliver : Sink m} {spec : Json}
    {found : List Pattern} (hfound : Pattern.ofSpec schema spec = .ok found) :
    Same (Host.unlogged fetch deliver) (run schema options spec) (renderAndReport schema options found
      (remaining (excludedKeys schema found) 0 (candidatesOf schema found))) := by
  obtain ⟨last, hends, hlast, hsize⟩ := exclusions_of_found schema found
  rw [run, hfound]
  refine (same_note _ _).trans ((same_of_endsIn hends _).trans ?_)
  refine (Same.bind (g := fun progress => do
    let tally ← Rendering.tally
    pure ⟨options.mode, progress.candidates, progress.suppressed, tally.artifacts, tally.bytes, last.size⟩)
    (same_patterns schema options last found ⟨0, 0⟩) fun progress accepted => ?_).trans ?_
  · exact same_note _ _ accepted
  · simp only [bind_assoc, pure_bind, hlast, hsize, pastAll, Nat.zero_add, candidatesOf_length]
    exact .refl _

/-! ## Runs are orderly -/

theorem orderly_exclusions (start : Exclusions) (found : List Pattern) :
    Script.Orderly True (exclusions schema start found) := by
  induction found generalizing start with
  | nil => exact orderly_pure _
  | cons pattern rest ih =>
    rw [exclusions]
    split
    · exact ih start
    · exact orderly_bind (orderly_note _) fun _ => ih _

theorem orderly_candidates (excluded : Exclusions) (pattern : Pattern) (leaf : LeafRule) :
    ∀ (selections : List Fields) (progress : Progress),
      Script.Orderly True (candidates options excluded pattern leaf progress selections)
  | [], _ => orderly_pure _
  | selection :: rest, progress => by
    rw [candidates]
    split
    · exact orderly_candidates excluded pattern leaf rest _
    · refine orderly_bind (orderly_tryCatch ?_ (fails_warn pattern)) fun _ =>
        orderly_candidates excluded pattern leaf rest _
      exact Render.orderly_leaf _ _ _ _

theorem orderly_patterns (excluded : Exclusions) : ∀ (found : List Pattern) (progress : Progress),
    Script.Orderly True (patterns schema options excluded progress found)
  | [], _ => orderly_pure _
  | pattern :: rest, progress => by
    rw [patterns]
    split
    · exact orderly_patterns excluded rest progress
    · refine orderly_bind (orderly_tally trivial) fun before => ?_
      refine orderly_bind (orderly_candidates options excluded pattern _ _ _) fun progress => ?_
      refine orderly_bind (orderly_tally trivial) fun after => ?_
      exact orderly_bind (orderly_note _) fun _ => orderly_patterns excluded rest progress

theorem orderly_run (spec : Json) : Script.Orderly True (run schema options spec) := by
  refine orderly_bind (orderly_note _) fun _ => ?_
  split
  · exact orderly_throw _
  · refine orderly_bind (orderly_exclusions schema _ _) fun excluded => ?_
    refine orderly_bind (orderly_patterns schema options excluded _ _) fun progress => ?_
    refine orderly_bind (orderly_tally trivial) fun accepted => ?_
    exact orderly_bind (orderly_note _) fun _ => orderly_pure _

end

/-! ## Runs on templates that stay the same -/

section
open Rendering

variable {m : Type → Type} [Monad m] [LawfulMonad m] (schema : Schema) (options : Options)

theorem orderly_renderAll : ∀ entries : List (Candidate × Nat), Script.Orderly False (renderAll options entries)
  | [] => orderly_pure _
  | _ :: rest => orderly_bind (Render.orderly_leaf _ _ _ _) fun _ => orderly_renderAll rest

theorem trace_renderAll (read : String → Except RunFault String) :
    ∀ (entries : List (Candidate × Nat)) (accepted : Tally),
    Script.trace read (renderAll options entries) accepted = emit options read entries
  | [], _ => rfl
  | (candidate, index) :: rest, accepted => by
    rw [renderAll, trace_bind]
    simp only [trace_renderAll read rest]
    -- a leaf never asks for the tally, so its trace is the same from zero
    rw [(show Script.Orderly False (candidate.rendering options index) from
      Render.orderly_leaf _ _ _ _).trace_eq read accepted .zero]
    rfl

theorem play_run (read : String → Except RunFault String) (deliver : Sink m) (spec : Json) :
    Script.play (Host.quiet read deliver) (run schema options spec) .zero =
      (runTrace schema options read spec).reported deliver := by
  cases hfound : Pattern.ofSpec schema spec with
  | error fault =>
    have htrace : runTrace schema options read spec = ⟨[], .error (.spec fault)⟩ := by
      unfold runTrace
      rw [hfound]
    rw [htrace, run, hfound]
    refine (same_note _ _ _).trans ?_
    simp only [Trace.reported, handOver, pure_bind]
    rfl
  | ok found =>
    refine (same_run schema options hfound .zero).trans ?_
    rw [runTrace_found schema options read hfound, renderAndReport, play_bind]
    rw [← Host.quiet, (orderly_renderAll options _).play_eq, trace_renderAll, ← emission]
    simp only [Trace.handOver, Trace.reported, bind_assoc, pure_bind, Tally.addAll_zero]
    refine bind_congr fun answer => ?_
    obtain ⟨numbers, refusal⟩ := answer
    cases refusal with
    | some fault => rfl
    | none => cases hvalue : (emission schema options read found).value <;> simp only [Trace.outcome, hvalue] <;> rfl

end

/-- A run that reads its templates in these directories and hands its artifacts to this destination. -/
def runOn {m : Type → Type} [Monad m] (schema : Schema) (options : Options)
    (read : String → List String → Except RunFault String) (deliver : Sink m) (spec : Json) :
    m (Tally × Except RunFault Report) :=
  Script.play (Host.quiet (read · options.templateDirs) deliver) (run schema options spec) .zero

theorem runOn_eq {m : Type → Type} [Monad m] [LawfulMonad m] (schema : Schema) (options : Options)
    (read : String → List String → Except RunFault String) (deliver : Sink m) (spec : Json) :
    runOn schema options read deliver spec =
      (runTrace schema options (read · options.templateDirs) spec).reported deliver :=
  play_run schema options (read · options.templateDirs) deliver spec

/-- **Generation.** A run hands over the traces of the candidates that are not excluded, in order and each
rendered under its number among all candidates, up to the first artifact that is refused; which
artifacts these are does not depend on the destination. A run that ends well reports the number of
candidates and of those excluded, and what was accepted. -/
theorem run_hands_over {m : Type → Type} [Monad m] [LawfulMonad m] (schema : Schema) (options : Options)
    (read : String → List String → Except RunFault String) (deliver : Sink m) (spec : Json) :
    Script.play (Host.quiet (read · options.templateDirs) deliver) (run schema options spec) .zero =
      (runTrace schema options (read · options.templateDirs) spec).reported deliver :=
  play_run schema options (read · options.templateDirs) deliver spec

/-- A document with a leaf that generates and one that suppresses, with what it compiles to. -/
def skippingDocument : Json := .obj [
  ("/cases/*", .obj [("path", .str "%(emission_index)d"), ("template", .str "%(size)s")]),
  ("/skips/*", .obj [("action", .str "suppress")])]

def skippingSchema : Schema :=
  ⟨⟨[([], []), ([.ofKey "cases"], []), ([.ofKey "cases", .wildcard], []), ([.ofKey "skips"], []),
      ([.ofKey "skips", .wildcard], [])]⟩, [],
    ⟨[([.ofKey "cases", .wildcard], ⟨some "%(emission_index)d", some (.inline "%(size)s"), .generate, [], []⟩),
      ([.ofKey "skips", .wildcard], ⟨none, none, .suppress, [], []⟩)]⟩, ⟨[]⟩⟩

def skippingSpec : Json := .obj [
  ("cases", .arr [.obj [("size", .arr [.str "a", .str "b", .str "c"])]]),
  ("skips", .arr [.obj [("size", .str "b")]])]

/-- The second of three candidates is excluded, and the third keeps its number. -/
theorem skipping_run_hands_over : Schema.compile skippingDocument = .ok skippingSchema ∧
    Script.play (Host.quiet (fun reference => .error (.templateNotFound reference [])) Sink.memory)
        (run skippingSchema .default skippingSpec) .zero [] =
      ((⟨2, 2⟩, .ok ⟨"release", 3, 1, 2, 2, 1⟩), [⟨"0", "a"⟩, ⟨"2", "c"⟩]) := by
  refine ⟨rfl, ?_⟩
  let read (reference : String) (searched : List String) : Except RunFault String :=
    .error (.templateNotFound reference searched)
  have h := run_hands_over skippingSchema .default read Sink.memory skippingSpec
  exact (congrFun h []).trans rfl

end Generate

end TestMatrix
