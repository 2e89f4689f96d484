import TestMatrix.Proofs.EarlyFaults

/-!
# Required substitutions

A run may demand that the templates of actions change when they are rendered. Main statement: the
demand only filters. A run under it does step by step what the same run does without it, until it
meets a template that comes out unchanged, and there it stops. Leaves without conditions have no
actions and do not notice the demand.
-/

namespace TestMatrix

def Options.requiring (required : Bool) (options : Options) : Options :=
  { options with requireSubstitution := required }

/-! ## Scripts that stop short -/

namespace Script

variable {α : Type}

/-- The first script does what the second does, or stops on the way at a template that came out
unchanged. -/
inductive StopsShort : Script (Except RunFault α) → Script (Except RunFault α) → Prop
  | stop {text : String} {first second : Script (Except RunFault α)} :
    Fails (.schema (.template text .unchanged)) first → StopsShort first second
  | done (value : Except RunFault α) : StopsShort (.done value) (.done value)
  | fetch {reference : String} {first second : Except RunFault String → Script (Except RunFault α)} :
    (∀ answer, StopsShort (first answer) (second answer)) →
    StopsShort (.fetch reference first) (.fetch reference second)
  | deliver {artifact : Artifact} {first second : Except RunFault Unit → Script (Except RunFault α)} :
    (∀ answer, StopsShort (first answer) (second answer)) →
    StopsShort (.deliver artifact first) (.deliver artifact second)
  | tally {first second : Tally → Script (Except RunFault α)} :
    (∀ accepted, StopsShort (first accepted) (second accepted)) → StopsShort (.tally first) (.tally second)
  | note {event : Event} {first second : Script (Except RunFault α)} :
    StopsShort first second → StopsShort (.note event first) (.note event second)

theorem StopsShort.refl (script : Script (Except RunFault α)) : StopsShort script script := by
  induction script with
  | done value => exact .done value
  | fetch _ _ ih => exact .fetch ih
  | deliver _ _ ih => exact .deliver ih
  | tally _ ih => exact .tally ih
  | note _ _ ih => exact .note ih

section
variable {σ : Type} (host : Host (StateM σ))

theorem play_recording (script : Script α) : ∀ accepted s received,
    (script.play host.recording accepted (s, received)).1 = (script.play host accepted s).1 ∧
      (script.play host.recording accepted (s, received)).2.1 = (script.play host accepted s).2 :=
  play_logging host _ _ script

/-- What a script adds to a list of artifacts comes behind them. -/
theorem prefix_play_recording (script : Script α) : ∀ accepted s received,
    received <+: (script.play host.recording accepted (s, received)).2.2 :=
  prefix_play_logging host _ _ (fun _ _ => List.prefix_rfl) (fun _ _ => List.prefix_append ..) script

theorem Fails.play_recording {fault : RunFault} {script : Script (Except RunFault α)} (h : Fails fault script) :
    ∀ accepted s received, (script.play host.recording accepted (s, received)).1.2 = .error fault ∧
      (script.play host.recording accepted (s, received)).2.2 = received := by
  induction h with
  | done => intro _ _ _; exact ⟨rfl, rfl⟩
  | note _ ih => intro accepted _ received; exact ih accepted _ received

/-- Two plays that end alike, or of which the first stopped short. -/
def EndsShort (first second : (Tally × Except RunFault α) × σ × List Artifact) : Prop :=
  first = second ∨
    (∃ text, first.1.2 = .error (.schema (.template text .unchanged))) ∧ first.2.2 <+: second.2.2

theorem StopsShort.play {first second : Script (Except RunFault α)} (h : StopsShort first second) :
    ∀ accepted s received, EndsShort (first.play host.recording accepted (s, received))
      (second.play host.recording accepted (s, received)) := by
  induction h with
  | @stop text first second hfails =>
    intro accepted s received
    obtain ⟨hvalue, hreceived⟩ := hfails.play_recording host accepted s received
    right
    rw [hreceived]
    exact ⟨⟨text, hvalue⟩, prefix_play_recording host second accepted s received⟩
  | done value => intro _ _ _; exact Or.inl rfl
  | fetch _ ih => intro accepted s received; exact ih _ accepted _ received
  | @deliver artifact first second _ ih =>
    intro accepted s received
    have hrecorded : host.recording.deliver artifact (s, received) =
        ((host.deliver artifact s).1, (host.deliver artifact s).2, received ++ [artifact]) := rfl
    rw [Script.play, Script.play, StateM.bind_run hrecorded, StateM.bind_run hrecorded]
    cases (host.deliver artifact s).1 <;> exact ih _ _ _ _
  | tally _ ih => intro accepted s received; exact ih accepted accepted s received
  | note _ ih => intro accepted s received; exact ih accepted _ received

/-- The same for what a host ends with and for what it is handed. -/
theorem StopsShort.play_cases {first second : Script (Except RunFault α)} (h : StopsShort first second) (s : σ) :
    (first.play host .zero s = second.play host .zero s ∧ received host first s = received host second s) ∨
      (∃ text, (first.play host .zero s).1.2 = .error (.schema (.template text .unchanged))) ∧
        received host first s <+: received host second s := by
  obtain ⟨hvalue, hstate⟩ := play_recording host first .zero s []
  obtain ⟨hvalue', hstate'⟩ := play_recording host second .zero s []
  rcases h.play host .zero s [] with hsame | ⟨⟨text, hstop⟩, hprefix⟩
  · left
    refine ⟨Prod.ext ?_ ?_, congrArg (·.2.2) hsame⟩
    · rw [← hvalue, ← hvalue', hsame]
    · rw [← hstate, ← hstate', hsame]
  · right
    rw [hvalue] at hstop
    exact ⟨⟨text, hstop⟩, hprefix⟩

end

end Script

/-! ## Renderings that stop short -/

namespace Rendering

open Script (StopsShort Fails)

variable {α β : Type}

theorem stopsShort_bind {first second : Rendering α} {f g : α → Rendering β} (h : StopsShort first second)
    (hnext : ∀ a, StopsShort (f a) (g a)) : StopsShort (first >>= f : Rendering β) (second >>= g : Rendering β) := by
  change StopsShort (Script.bind first (ExceptT.bindCont f)) (Script.bind second (ExceptT.bindCont g))
  induction h with
  | stop hfails => exact .stop (fails_bind hfails f)
  | done value =>
    cases value with
    | ok a => exact hnext a
    | error fault => exact .done _
  | fetch _ ih => exact .fetch ih
  | deliver _ ih => exact .deliver ih
  | tally _ ih => exact .tally ih
  | note _ ih => exact .note ih

theorem stopsShort_tryCatch {first second : Rendering α} {handler : RunFault → Rendering α}
    (h : StopsShort first second) (hhandler : ∀ fault, Fails fault (handler fault)) :
    StopsShort (tryCatch first handler : Rendering α) (tryCatch second handler : Rendering α) := by
  induction h with
  | stop hfails => exact .stop (fails_tryCatch hfails hhandler)
  | done value => exact .refl _
  | fetch _ ih => exact .fetch ih
  | deliver _ ih => exact .deliver ih
  | tally _ ih => exact .tally ih
  | note _ ih => exact .note ih

end Rendering

theorem Template.render_required (template : String) (values : Fields) :
    render true template values = render false template values ∨
      render true template values = .error (.template template .unchanged) := by
  unfold render
  cases fill values template with
  | error fault => exact Or.inl rfl
  | ok text =>
    by_cases hsame : (text == template) = true
    · right; simp [hsame]
    · left; simp [hsame]

namespace Render

open Rendering
open Script (StopsShort)

theorem stopsShort_render (template : String) (context : Fields) :
    StopsShort (ofDefect (Template.render true template context))
      (ofDefect (Template.render false template context)) := by
  rcases Template.render_required template context with h | h
  · rw [h]; exact .refl _
  · rw [h]; exact .stop .done

theorem stopsShort_content (source : TemplateSource) (context : Fields) :
    StopsShort (content true source context) (content false source context) := by
  cases source with
  | inline text => exact stopsShort_render text context
  | external main named =>
    apply stopsShort_bind (.refl _)
    intro rendered
    apply stopsShort_bind (.refl _)
    intro text
    exact stopsShort_render text _

theorem stopsShort_action (context : Fields) (next : WhenAction) :
    StopsShort (action true context next) (action false context next) := by
  cases next with
  | generate path template =>
    apply stopsShort_bind (stopsShort_render path context)
    intro path
    apply stopsShort_bind (stopsShort_content template context)
    intro text
    exact .refl _
  | setExtension key template =>
    apply stopsShort_bind (stopsShort_render template context)
    intro text
    exact .refl _

theorem stopsShort_actions : ∀ (list : List WhenAction) (context : Fields),
    StopsShort (actions true context list) (actions false context list)
  | [], _ => .refl _
  | next :: rest, context => stopsShort_bind (stopsShort_action context next) (stopsShort_actions rest)

theorem stopsShort_conditions : ∀ (rules : List WhenRule) (context : Fields),
    StopsShort (conditions true context rules) (conditions false context rules)
  | [], _ => .refl _
  | rule :: rest, context => by
    -- whether a rule fires is decided without the demand
    apply stopsShort_bind (.refl _)
    intro fired
    cases fired with
    | true => exact stopsShort_bind (stopsShort_actions rule.actions context) (stopsShort_conditions rest)
    | false => exact stopsShort_conditions rest context

theorem stopsShort_leaf (leafPath : TreePath) (rule : LeafRule) (context : Fields) :
    StopsShort (leaf true leafPath rule context) (leaf false leafPath rule context) := by
  unfold leaf
  split
  · exact stopsShort_bind (stopsShort_conditions rule.conditions context) fun _ => .refl _
  · exact .refl _

theorem leaf_of_unconditional {rule : LeafRule} (h : rule.conditions = []) (required : Bool) (leafPath : TreePath)
    (context : Fields) : leaf required leafPath rule context = leaf false leafPath rule context := by
  unfold leaf
  rw [h]
  rfl

end Render

/-! ## Runs that stop short -/

namespace Generate

open Rendering
open Script (StopsShort)

section
variable (schema : Schema) (options : Options)

theorem stopsShort_candidates (excluded : Exclusions) (pattern : Pattern) (leaf : LeafRule) :
    ∀ (selections : List Fields) (progress : Progress),
      StopsShort (candidates (options.requiring true) excluded pattern leaf progress selections)
        (candidates (options.requiring false) excluded pattern leaf progress selections)
  | [], _ => .refl _
  | selection :: rest, progress => by
    rw [candidates, candidates]
    split
    · exact stopsShort_candidates excluded pattern leaf rest _
    · apply stopsShort_bind
      · exact stopsShort_tryCatch (Render.stopsShort_leaf _ _ _) (fails_warn pattern)
      · intro _
        exact stopsShort_candidates excluded pattern leaf rest _

theorem stopsShort_patterns (excluded : Exclusions) : ∀ (found : List Pattern) (progress : Progress),
    StopsShort (patterns schema (options.requiring true) excluded progress found)
      (patterns schema (options.requiring false) excluded progress found)
  | [], _ => .refl _
  | pattern :: rest, progress => by
    rw [patterns, patterns]
    split
    · exact stopsShort_patterns excluded rest progress
    · apply stopsShort_bind (.refl _)
      intro earlier
      apply stopsShort_bind (stopsShort_candidates options excluded pattern _ _ _)
      intro progress
      apply stopsShort_bind (.refl _)
      intro later
      exact stopsShort_bind (.refl _) fun _ => stopsShort_patterns excluded rest progress

theorem stopsShort_run (spec : Json) :
    StopsShort (run schema (options.requiring true) spec) (run schema (options.requiring false) spec) := by
  apply stopsShort_bind (.refl _)
  intro _
  split
  · exact .refl _
  · apply stopsShort_bind (.refl _)
    intro excluded
    exact stopsShort_bind (stopsShort_patterns schema options excluded _ _) fun _ => .refl _

theorem stopsShort_checked (isFile : String → Bool) (document spec : Json) :
    StopsShort (checked isFile (options.requiring true) document spec)
      (checked isFile (options.requiring false) document spec) := by
  unfold checked
  split
  · exact .refl _
  · split
    · exact .refl _
    · exact stopsShort_run _ options spec

/-! ## Runs without conditions -/

theorem candidates_of_unconditional {leaf : LeafRule} (h : leaf.conditions = []) (required : Bool)
    (excluded : Exclusions) (pattern : Pattern) : ∀ (selections : List Fields) (progress : Progress),
      candidates (options.requiring required) excluded pattern leaf progress selections =
        candidates (options.requiring false) excluded pattern leaf progress selections
  | [], _ => rfl
  | selection :: rest, progress => by
    rw [candidates, candidates, candidates_of_unconditional h required excluded pattern rest,
      candidates_of_unconditional h required excluded pattern rest]
    simp only [Options.requiring, Render.leaf_of_unconditional h required]

variable {schema}

theorem patterns_of_unconditional
    (h : ∀ path leaf, schema.leaves.get? path = some leaf → leaf.action = .generate → leaf.conditions = [])
    (required : Bool) (excluded : Exclusions) : ∀ (found : List Pattern) (progress : Progress),
      patterns schema (options.requiring required) excluded progress found =
        patterns schema (options.requiring false) excluded progress found
  | [], _ => rfl
  | pattern :: rest, progress => by
    rw [patterns, patterns]
    split
    · exact patterns_of_unconditional h required excluded rest progress
    · next leaf hleaf =>
      obtain ⟨hget, hgenerates⟩ := Option.filter_eq_some_iff.mp hleaf
      have hconditions := h _ leaf hget (of_decide_eq_true hgenerates)
      simp only [candidates_of_unconditional options hconditions required,
        patterns_of_unconditional h required excluded rest]

end

/-- **Required substitutions.** A run under the demand that ends well is the run without it, with the
same artifacts. One that fails has handed over a beginning of the artifacts of the run without it,
and unless both fail alike it failed at a template that came out unchanged. A leaf without
conditions renders the same either way, and so does a run whose generating leaves have none. -/
theorem substitution_filters {σ : Type} (host : Host (StateM σ)) (isFile : String → Bool) (options : Options)
    (document spec : Json) (s : σ) :
    let run (required : Bool) := checked isFile (options.requiring required) document spec
    (∀ tally report s', Script.play host (run true) .zero s = ((tally, .ok report), s') →
      Script.play host (run false) .zero s = ((tally, .ok report), s') ∧
        Script.received host (run false) s = Script.received host (run true) s) ∧
    (∀ tally fault s', Script.play host (run true) .zero s = ((tally, .error fault), s') →
      Script.received host (run true) s <+: Script.received host (run false) s ∧
        (Script.play host (run false) .zero s = ((tally, .error fault), s') ∨
          ∃ text, fault = .schema (.template text .unchanged))) ∧
    (∀ leafPath leaf context, leaf.conditions = [] →
      Render.leaf true leafPath leaf context = Render.leaf false leafPath leaf context) ∧
    ∀ schema, Schema.compile document = .ok schema →
      (∀ path leaf, schema.leaves.get? path = some leaf → leaf.action = .generate → leaf.conditions = []) →
      run true = run false := by
  intro run
  have hcases := (stopsShort_checked options isFile document spec).play_cases host s
  refine ⟨fun tally report s' hplay => ?_, fun tally fault s' hplay => ?_,
    fun leafPath leaf context h => Render.leaf_of_unconditional h true leafPath context, fun schema hcompile h => ?_⟩
  · rcases hcases with ⟨hsame, hreceived⟩ | ⟨⟨text, hstop⟩, -⟩
    · exact ⟨hsame ▸ hplay, hreceived.symm⟩
    · rw [hplay] at hstop
      cases hstop
  · rcases hcases with ⟨hsame, hreceived⟩ | ⟨⟨text, hstop⟩, hfewer⟩
    · exact ⟨hreceived ▸ List.prefix_rfl, Or.inl (hsame ▸ hplay)⟩
    · rw [hplay] at hstop
      cases hstop
      exact ⟨hfewer, Or.inr ⟨text, rfl⟩⟩
  · show checked isFile (options.requiring true) document spec = checked isFile (options.requiring false) document spec
    unfold checked
    rw [hcompile]
    dsimp only
    split
    · rfl
    · unfold Generate.run
      simp only [patterns_of_unconditional options h true]
      rfl

/-- A leaf that stores a text without placeholders for one of its names. -/
def labellingRule : LeafRule :=
  ⟨some "%(name)s", some (.inline "text"), .generate, [⟨[("b", "%(name)s")], [.setExtension "label" "plain"]⟩], []⟩

example : Script.trace (Templates.held []) (Render.leaf false .root labellingRule [("name", .str "b")]) .zero =
    ⟨[⟨"b", "text"⟩], .ok ()⟩ := rfl

example : Script.trace (Templates.held []) (Render.leaf true .root labellingRule [("name", .str "b")]) .zero =
    ⟨[], .error (.schema (.template "plain" .unchanged))⟩ := rfl

end Generate

end TestMatrix
