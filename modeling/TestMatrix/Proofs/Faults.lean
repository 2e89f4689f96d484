import TestMatrix.Proofs.Compiled
import TestMatrix.Proofs.Emission

/-!
# What a run fails with

A rendering ends with a defect of the schema or with the fault of a template that it asked for. Only
the search for patterns finds the specification at fault, and it comes before anything is rendered.
-/

namespace TestMatrix

/-- A defect of the schema, or what the source of templates answered. -/
def RunFault.FromRendering (read : String → Except RunFault String) (fault : RunFault) : Prop :=
  (∃ defect, fault = .schema defect) ∨ ∃ reference, read reference = .error fault

/-- Whether a rendering fails only with faults of rendering, whatever was accepted before. -/
def Rendering.FailsAlone {α : Type} (read : String → Except RunFault String) (rendering : Rendering α) : Prop :=
  ∀ accepted fault, (Script.trace read rendering accepted).value = .error fault → fault.FromRendering read

/-- An outcome that is no fault or an allowed one. -/
def FaultsWithin {α : Type} (allowed : RunFault → Prop) (outcome : Except RunFault α) : Prop :=
  ∀ fault, outcome = .error fault → allowed fault

theorem faultsWithin_ok {α : Type} {allowed : RunFault → Prop} (a : α) : FaultsWithin allowed (.ok a) := by
  intro fault h
  cases h

theorem faultsWithin_error {α : Type} {allowed : RunFault → Prop} {fault : RunFault} (h : allowed fault) :
    FaultsWithin allowed (.error fault : Except RunFault α) := by
  intro other hother
  cases hother
  exact h

/-! ## Scripts that fail with allowed faults -/

namespace Script

variable {α : Type} {allowed : RunFault → Prop}

/-- A script that ends with allowed faults only, if artifacts are accepted and templates are refused
with allowed faults only. -/
inductive FailsWithin (allowed : RunFault → Prop) : Script (Except RunFault α) → Prop
  | done {value : Except RunFault α} : FaultsWithin allowed value → FailsWithin allowed (.done value)
  | fetch {reference : String} {next : Except RunFault String → Script (Except RunFault α)} :
    (∀ answer, FaultsWithin allowed answer → FailsWithin allowed (next answer)) →
    FailsWithin allowed (.fetch reference next)
  | deliver {artifact : Artifact} {next : Except RunFault Unit → Script (Except RunFault α)} :
    FailsWithin allowed (next (.ok ())) → FailsWithin allowed (.deliver artifact next)
  | tally {next : Tally → Script (Except RunFault α)} :
    (∀ accepted, FailsWithin allowed (next accepted)) → FailsWithin allowed (.tally next)
  | note {event : Event} {next : Script (Except RunFault α)} :
    FailsWithin allowed next → FailsWithin allowed (.note event next)

theorem FailsWithin.trace {read : String → Except RunFault String}
    (hread : ∀ reference, FaultsWithin allowed (read reference)) {script : Script (Except RunFault α)}
    (h : FailsWithin allowed script) :
    ∀ accepted, FaultsWithin allowed (Script.trace read script accepted).value := by
  induction h with
  | done hvalue => intro accepted; exact hvalue
  | fetch _ ih => intro accepted; exact ih (read _) (hread _) accepted
  | deliver _ ih => intro accepted; exact ih _
  | tally _ ih => intro accepted; exact ih accepted accepted
  | note _ ih => intro accepted; exact ih accepted

section
variable {γ σ : Type} {host : Host (StateT γ (StateM σ))}

theorem Fails.play_value {fault : RunFault} {script : Script (Except RunFault α)} (h : Fails fault script)
    (accepted : Tally) : ∀ c s, (play host script accepted c s).1.1.2 = .error fault := by
  induction h with
  | done => intro c s; rfl
  | note _ ih => intro c s; exact ih _ _

/-- Played with any host that answers within what is allowed, the script fails within it. -/
theorem FailsWithin.play_cached (hfetch : ∀ reference c s, FaultsWithin allowed (host.fetch reference c s).1.1)
    (hdeliver : ∀ artifact c s, FaultsWithin allowed (host.deliver artifact c s).1.1)
    {mayAsk : Prop} {script : Script (Except RunFault α)} (h : FailsWithin allowed script)
    (horderly : Orderly mayAsk script) :
    ∀ accepted c s, FaultsWithin allowed (Script.play host script accepted c s).1.1.2 := by
  induction h with
  | done hvalue => intro accepted c s; exact hvalue
  | @fetch reference next _ ih =>
    intro accepted c s
    cases horderly with
    | fetch hnext => exact ih _ (hfetch reference c s) (hnext _) accepted _ _
  | @deliver artifact next _ ih =>
    intro accepted c s
    cases horderly with
    | deliver hnext hrefused =>
      have hanswer := hdeliver artifact c s
      generalize hstep : host.deliver artifact c s = step at hanswer
      obtain ⟨⟨answer, c'⟩, s'⟩ := step
      rw [Script.play, StateT.bind_run hstep]
      cases answer with
      | ok u => exact ih hnext _ _ _
      | error fault =>
        show FaultsWithin allowed (Script.play host (next (.error fault)) accepted c' s').1.1.2
        -- an orderly script passes a refusal on as it is
        rw [(hrefused fault).play_value]
        exact faultsWithin_error (hanswer fault rfl)
  | tally _ ih =>
    intro accepted c s
    cases horderly with
    | tally _ hnext => exact ih accepted (hnext accepted) accepted c s
  | note _ ih =>
    intro accepted c s
    cases horderly with
    | note hnext => exact ih hnext accepted _ _

end

end Script

/-! ## Renderings that fail with allowed faults -/

namespace Rendering

open Script (FailsWithin)

variable {α β : Type} {allowed : RunFault → Prop}

theorem failsWithin_pure (a : α) : FailsWithin allowed (pure a : Rendering α) := .done (faultsWithin_ok a)

theorem failsWithin_throw {fault : RunFault} (h : allowed fault) :
    FailsWithin allowed (throw fault : Rendering α) := .done (faultsWithin_error h)

theorem failsWithin_ofDefect {result : Except SchemaDefect α}
    (h : ∀ defect, result = .error defect → allowed (.schema defect)) :
    FailsWithin allowed (ofDefect result) := by
  cases result with
  | ok a => exact failsWithin_pure a
  | error defect => exact failsWithin_throw (h defect rfl)

theorem failsWithin_fetch (reference : String) : FailsWithin allowed (fetch reference) := by
  apply FailsWithin.fetch
  intro answer hanswer
  exact .done hanswer

theorem failsWithin_deliver (artifact : Artifact) : FailsWithin allowed (deliver artifact) :=
  .deliver (failsWithin_pure ())

theorem failsWithin_note (event : Event) : FailsWithin allowed (note event) := .note (failsWithin_pure ())

theorem failsWithin_tally : FailsWithin allowed tally := .tally fun accepted => failsWithin_pure accepted

theorem failsWithin_bind {rendering : Rendering α} {f : α → Rendering β} (h : FailsWithin allowed rendering)
    (hf : ∀ a, FailsWithin allowed (f a)) : FailsWithin allowed (rendering >>= f : Rendering β) := by
  change FailsWithin allowed (Script.bind rendering (ExceptT.bindCont f))
  induction h with
  | @done value hvalue =>
    cases value with
    | ok a => exact hf a
    | error fault => exact failsWithin_throw (hvalue fault rfl)
  | fetch _ ih => exact .fetch ih
  | deliver _ ih => exact .deliver ih
  | tally _ ih => exact .tally ih
  | note _ ih => exact .note ih

theorem failsWithin_tryCatch {rendering : Rendering α} {handler : RunFault → Rendering α}
    (h : FailsWithin allowed rendering) (hhandler : ∀ fault, allowed fault → FailsWithin allowed (handler fault)) :
    FailsWithin allowed (tryCatch rendering handler : Rendering α) := by
  induction h with
  | @done value hvalue =>
    cases value with
    | ok a => exact failsWithin_pure a
    | error fault => exact hhandler fault (hvalue fault rfl)
  | fetch _ ih => exact .fetch ih
  | deliver _ ih => exact .deliver ih
  | tally _ ih => exact .tally ih
  | note _ ih => exact .note ih

end Rendering

/-! ## Renderings of a leaf -/

theorem Template.error_of_render {required : Bool} {template : String} {values : Fields} {defect : SchemaDefect}
    (h : render required template values = .error defect) : ∃ cause, defect = .template template cause := by
  unfold render at h
  split at h
  · cases h; exact ⟨_, rfl⟩
  · split at h
    · cases h; exact ⟨_, rfl⟩
    · cases h

namespace Render

open Rendering
open Script (FailsWithin)

theorem error_of_fires {context : Fields} {defect : SchemaDefect} : ∀ {pairs : List (String × String)},
    fires context pairs = .error defect → ∃ text cause, defect = .template text cause
  | [], h => by cases h
  | (left, right) :: rest, h => by
    rw [fires] at h
    cases hleft : Template.render false left context with
    | error other =>
      rw [hleft] at h
      cases h
      exact ⟨left, Template.error_of_render hleft⟩
    | ok shown =>
      cases hright : Template.render false right context with
      | error other =>
        rw [hleft, hright] at h
        cases h
        exact ⟨right, Template.error_of_render hright⟩
      | ok other =>
        simp only [hleft, hright, bind, Except.bind] at h
        split at h
        · cases h
        · exact error_of_fires h

section
variable {allowed : RunFault → Prop} (htemplate : ∀ text cause, allowed (.schema (.template text cause)))
include htemplate

theorem failsWithin_render (required : Bool) (template : String) (context : Fields) :
    FailsWithin allowed (ofDefect (Template.render required template context)) := by
  apply failsWithin_ofDefect
  intro defect h
  obtain ⟨cause, rfl⟩ := Template.error_of_render h
  exact htemplate template cause

theorem failsWithin_fetch (reference : String) (context : Fields) :
    FailsWithin allowed (fetch reference context) := by
  apply failsWithin_bind (failsWithin_render htemplate _ _ _)
  intro reference
  exact Rendering.failsWithin_fetch reference

theorem failsWithin_parts (context : Fields) : ∀ named : List (String × String),
    FailsWithin allowed (parts context named)
  | [] => failsWithin_pure _
  | (_, reference) :: rest => by
    apply failsWithin_bind (failsWithin_fetch htemplate reference context)
    intro text
    apply failsWithin_bind (failsWithin_render htemplate _ _ _)
    intro rendered
    apply failsWithin_bind (failsWithin_parts context rest)
    intro others
    exact failsWithin_pure _

variable (required : Bool)

theorem failsWithin_content (source : TemplateSource) (context : Fields) :
    FailsWithin allowed (content required source context) := by
  cases source with
  | inline text => exact failsWithin_render htemplate _ _ _
  | external main named =>
    apply failsWithin_bind (failsWithin_parts htemplate context named)
    intro rendered
    apply failsWithin_bind (failsWithin_fetch htemplate main context)
    intro text
    exact failsWithin_render htemplate _ _ _

theorem failsWithin_action (context : Fields) (next : WhenAction) :
    FailsWithin allowed (action required context next) := by
  cases next with
  | generate path template =>
    apply failsWithin_bind (failsWithin_render htemplate _ _ _)
    intro path
    apply failsWithin_bind (failsWithin_content htemplate required template context)
    intro text
    apply failsWithin_bind (failsWithin_deliver _)
    intro _
    exact failsWithin_pure _
  | setExtension key template =>
    apply failsWithin_bind (failsWithin_render htemplate _ _ _)
    intro text
    exact failsWithin_pure _

theorem failsWithin_actions : ∀ (list : List WhenAction) (context : Fields),
    FailsWithin allowed (actions required context list)
  | [], _ => failsWithin_pure _
  | next :: rest, context => by
    apply failsWithin_bind (failsWithin_action htemplate required context next)
    intro context
    exact failsWithin_actions rest context

theorem failsWithin_conditions : ∀ (rules : List WhenRule) (context : Fields),
    FailsWithin allowed (conditions required context rules)
  | [], _ => failsWithin_pure _
  | rule :: rest, context => by
    apply failsWithin_bind
    · apply failsWithin_ofDefect
      intro defect h
      obtain ⟨text, cause, rfl⟩ := error_of_fires h
      exact htemplate text cause
    · intro fired
      cases fired with
      | false => exact failsWithin_conditions rest context
      | true =>
        apply failsWithin_bind (failsWithin_actions htemplate required rule.actions context)
        intro context
        exact failsWithin_conditions rest context

/-- A leaf that lacks its path or its template is the only one that fails for another reason than its
templates. -/
theorem failsWithin_leaf (leafPath : TreePath) {rule : LeafRule}
    (hrule : rule.IsComplete ∨ allowed (.schema (.invalidMarker "path" leafPath .incomplete))) (context : Fields) :
    FailsWithin allowed (leaf required leafPath rule context) := by
  unfold leaf
  split
  · apply failsWithin_bind (failsWithin_conditions htemplate required rule.conditions context)
    intro context
    apply failsWithin_bind (failsWithin_render htemplate _ _ _)
    intro path
    apply failsWithin_bind (failsWithin_content htemplate false _ context)
    intro text
    apply failsWithin_bind (failsWithin_deliver _)
    intro _
    exact failsWithin_note _
  · next hincomplete =>
    apply failsWithin_throw
    apply hrule.resolve_left
    intro hcomplete
    obtain ⟨path, hpath⟩ := Option.isSome_iff_exists.mp hcomplete.1
    obtain ⟨template, htemplate⟩ := Option.isSome_iff_exists.mp hcomplete.2
    exact hincomplete path template hpath htemplate

end

theorem failsAlone_leaf {read : String → Except RunFault String} (required : Bool) (leafPath : TreePath)
    (rule : LeafRule) (context : Fields) : FailsAlone read (leaf required leafPath rule context) := by
  intro accepted
  apply FailsWithin.trace
  · intro reference fault h
    exact Or.inr ⟨reference, h⟩
  · apply failsWithin_leaf
    · intro text cause
      exact Or.inl ⟨_, rfl⟩
    · exact Or.inr (Or.inl ⟨_, rfl⟩)

end Render

/-! ## Faults of runs -/

namespace Generate

variable {schema : Schema} {options : Options} {read : String → Except RunFault String} {spec : Json}

theorem error_of_emission {found : List Pattern} {fault : RunFault}
    (h : (emission schema options read found).value = .error fault) : fault.FromRendering read := by
  obtain ⟨trace, hmem, htrace⟩ := Trace.error_of_sequence h
  obtain ⟨entry, -, rfl⟩ := List.mem_map.mp hmem
  exact Render.failsAlone_leaf _ _ _ _ _ fault htrace

/-- A run finds the specification at fault exactly when the search for patterns does. -/
theorem runTrace_spec_iff (hread : ∀ reference fault, read reference ≠ .error (.spec fault)) {fault : SpecFault} :
    (runTrace schema options read spec).value = .error (.spec fault) ↔ Pattern.ofSpec schema spec = .error fault := by
  unfold runTrace
  cases hfound : Pattern.ofSpec schema spec with
  | error other => simp
  | ok found =>
    simp only [reduceCtorEq, iff_false]
    intro h
    have hemission : (emission schema options read found).value = .error (.spec fault) := by
      cases hvalue : (emission schema options read found).value with
      | ok u =>
        rw [hvalue] at h
        cases h
      | error other =>
        rw [hvalue] at h
        cases h
        rfl
    rcases error_of_emission hemission with ⟨defect, hdefect⟩ | ⟨reference, hreference⟩
    · cases hdefect
    · exact hread reference fault hreference

theorem runOn_spec_iff {read : String → List String → Except RunFault String} {σ : Type} {deliver : Sink (StateM σ)}
    (hread : ∀ reference fault, read reference options.templateDirs ≠ .error (.spec fault))
    (hdeliver : ∀ artifact s fault, (deliver artifact s).1 ≠ .error (.spec fault)) (s : σ) {fault : SpecFault} :
    (runOn schema options read deliver spec s).1.2 = .error (.spec fault) ↔
      Pattern.ofSpec schema spec = .error fault := by
  rw [runOn_eq, Trace.reported_value, Except.map_eq_error]
  cases hrefusal : (handOver deliver (runTrace schema options (read · options.templateDirs) spec).artifacts s).1.2 with
  | none => exact runTrace_spec_iff hread
  | some refusal =>
    obtain ⟨artifact, s', hrefused⟩ := refused_of_handOver _ _ hrefusal
    constructor
    · intro h
      cases h
      exact absurd hrefused (hdeliver artifact s' fault)
    · intro h
      -- a run that fails in the search has handed nothing over
      have hnothing : (runTrace schema options (read · options.templateDirs) spec).artifacts = [] := by
        unfold runTrace
        rw [h]
      rw [hnothing] at hrefusal
      cases hrefusal

end Generate

end TestMatrix
