import TestMatrix.Proofs.Faults

/-!
# What has been handed over when a run fails

A run compiles the schema, validates the specification, searches it for patterns, and renders. Artifacts
are handed over while it renders, each as soon as it is ready, and not held back until the run has
ended well. Main statement: before the first artifact is handed over every other cause of a failure has been
looked for, so that only a template can still fail after it.
-/

namespace TestMatrix

/-! ## Hosts that keep a log -/

section
variable {σ α ε : Type}

/-- A host that answers as before and keeps a log of what it answers and of what it is handed. -/
def Host.logging (host : Host (StateM σ)) (hear : Except RunFault String → List ε → List ε)
    (receive : Artifact → List ε → List ε) : Host (StateM (σ × List ε)) where
  fetch reference := fun (s, log) =>
    let (answer, s) := host.fetch reference s
    (answer, s, hear answer log)
  deliver artifact := fun (s, log) =>
    let (answer, s) := host.deliver artifact s
    (answer, s, receive artifact log)
  note event := fun (s, log) =>
    let (answer, s) := host.note event s
    (answer, s, log)

/-- A host that lists the artifacts it is handed. -/
def Host.recording (host : Host (StateM σ)) : Host (StateM (σ × List Artifact)) :=
  host.logging (fun _ received => received) fun artifact received => received ++ [artifact]

/-- A host that lists what it answers where it is asked for templates. -/
def Host.transcribing (host : Host (StateM σ)) : Host (StateM (σ × List (Except RunFault String))) :=
  host.logging (fun answer answers => answers ++ [answer]) fun _ answers => answers

/-- The artifacts that a host is handed while it plays a script. -/
def Script.received (host : Host (StateM σ)) (script : Script α) (s : σ) : List Artifact :=
  (script.play host.recording .zero (s, [])).2.2

/-- The answers of a host that is asked for templates while it plays a script. -/
def Script.answers (host : Host (StateM σ)) (script : Script α) (s : σ) : List (Except RunFault String) :=
  (script.play host.transcribing .zero (s, [])).2.2

def Host.AcceptsAll (host : Host (StateM σ)) : Prop :=
  ∀ artifact s, ∃ bytes, (host.deliver artifact s).1 = .ok bytes

def Sink.recording (deliver : Sink (StateM σ)) : Sink (StateM (σ × List Artifact)) := fun artifact (s, received) =>
  let (answer, s) := deliver artifact s
  (answer, s, received ++ [artifact])

theorem Host.recording_quiet (read : String → Except RunFault String) (deliver : Sink (StateM σ)) :
    (Host.quiet read deliver).recording = Host.quiet read deliver.recording := rfl

section
variable (host : Host (StateM σ)) (hear : Except RunFault String → List ε → List ε)
  (receive : Artifact → List ε → List ε)

theorem Host.logging_deliver (artifact : Artifact) (s : σ) (log : List ε) :
    (host.logging hear receive).deliver artifact (s, log) =
      ((host.deliver artifact s).1, (host.deliver artifact s).2, receive artifact log) := rfl

/-- The host does not notice that a log is kept. -/
theorem Script.play_logging (script : Script α) : ∀ accepted s log,
    (script.play (host.logging hear receive) accepted (s, log)).1 = (script.play host accepted s).1 ∧
      (script.play (host.logging hear receive) accepted (s, log)).2.1 = (script.play host accepted s).2 := by
  induction script with
  | done value => intro accepted s log; exact ⟨rfl, rfl⟩
  | fetch reference next ih => intro accepted s log; exact ih _ accepted _ _
  | deliver artifact next ih =>
    intro accepted s log
    have hlogged := host.logging_deliver hear receive artifact s log
    cases hanswer : (host.deliver artifact s).1 with
    | ok bytes =>
      rw [hanswer] at hlogged
      rw [play, play, StateM.bind_run hlogged, StateM.bind_run (Prod.ext hanswer rfl)]
      exact ih _ _ _ _
    | error fault =>
      rw [hanswer] at hlogged
      rw [play, play, StateM.bind_run hlogged, StateM.bind_run (Prod.ext hanswer rfl)]
      exact ih _ _ _ _
  | tally next ih => intro accepted s log; exact ih accepted accepted s log
  | note event next ih => intro accepted s log; exact ih accepted _ log

/-- What is put behind a log stays before what the rest of a script adds to it. -/
theorem Script.prefix_play_logging (hhear : ∀ answer log, log <+: hear answer log)
    (hreceive : ∀ artifact log, log <+: receive artifact log) (script : Script α) : ∀ accepted s log,
    log <+: (script.play (host.logging hear receive) accepted (s, log)).2.2 := by
  induction script with
  | done value => intro _ _ log; exact List.prefix_rfl
  | fetch reference next ih => intro _ _ log; exact (hhear _ log).trans (ih _ _ _ _)
  | deliver artifact next ih =>
    intro accepted s log
    rw [play, StateM.bind_run (host.logging_deliver hear receive artifact s log)]
    cases (host.deliver artifact s).1 <;> exact (hreceive artifact log).trans (ih _ _ _ _)
  | tally next ih => intro accepted _ log; exact ih accepted _ _ log
  | note event next ih => intro _ _ log; exact ih _ _ log

end

/-- Where artifacts are accepted, a script that asks for templates fails with allowed faults, if those that it
is answered on the way are allowed. -/
theorem Script.FailsWithin.play_transcribing {allowed : RunFault → Prop} {host : Host (StateM σ)}
    (haccepts : host.AcceptsAll) {script : Script (Except RunFault α)} (h : FailsWithin allowed script) :
    ∀ accepted s log,
      (∀ fault, .error fault ∈ (script.play host.transcribing accepted (s, log)).2.2 → allowed fault) →
      FaultsWithin allowed (script.play host.transcribing accepted (s, log)).1.2 := by
  induction h with
  | done hvalue => intro _ _ _ _; exact hvalue
  | @fetch reference next _ ih =>
    intro accepted s log hanswers
    have hkept : log ++ [(host.fetch reference s).1] <+:
        ((next (host.fetch reference s).1).play host.transcribing accepted
          ((host.fetch reference s).2, log ++ [(host.fetch reference s).1])).2.2 :=
      prefix_play_logging host _ _ (fun _ _ => List.prefix_append ..) (fun _ _ => List.prefix_rfl) _ _ _ _
    refine ih _ (fun fault hfault => hanswers fault ?_) accepted _ _ hanswers
    exact hkept.subset (List.mem_append_right _ (hfault ▸ List.mem_singleton_self _))
  | @deliver artifact next _ ih =>
    intro accepted s log hanswers
    obtain ⟨bytes, hbytes⟩ := haccepts artifact s
    have hlogged : host.transcribing.deliver artifact (s, log) = (.ok bytes, (host.deliver artifact s).2, log) :=
      (host.logging_deliver _ _ artifact s log).trans (by rw [hbytes])
    rw [Script.play, StateM.bind_run hlogged] at hanswers ⊢
    exact ih _ _ _ hanswers
  | tally _ ih => intro accepted s log hanswers; exact ih accepted accepted s log hanswers
  | note _ ih => intro accepted s log hanswers; exact ih accepted _ log hanswers

end

namespace Generate

open Rendering
open Script (FailsWithin)

/-! ## Only templates fail while a run renders -/

section
variable {schema : Schema} {options : Options} {allowed : RunFault → Prop}

theorem failsWithin_exclusions : ∀ (found : List Pattern) (start : Exclusions),
    FailsWithin allowed (exclusions schema start found)
  | [], _ => failsWithin_pure _
  | pattern :: rest, start => by
    rw [exclusions]
    split
    · exact failsWithin_exclusions rest start
    · apply failsWithin_bind (failsWithin_note _)
      intro _
      exact failsWithin_exclusions rest _

variable (htemplate : ∀ text cause, allowed (.schema (.template text cause)))
include htemplate

theorem failsWithin_candidates (excluded : Exclusions) (pattern : Pattern) {leaf : LeafRule}
    (hleaf : leaf.IsComplete) : ∀ (selections : List Fields) (progress : Progress),
      FailsWithin allowed (candidates options excluded pattern leaf progress selections)
  | [], _ => failsWithin_pure _
  | selection :: rest, progress => by
    rw [candidates]
    split
    · exact failsWithin_candidates excluded pattern hleaf rest _
    · apply failsWithin_bind
      · apply failsWithin_tryCatch (Render.failsWithin_leaf htemplate _ _ (Or.inl hleaf) _)
        intro fault hfault
        apply failsWithin_bind (failsWithin_note _)
        intro _
        exact failsWithin_throw hfault
      · intro _
        exact failsWithin_candidates excluded pattern hleaf rest _

theorem failsWithin_patterns
    (hcomplete : ∀ path leaf, schema.leaves.get? path = some leaf → leaf.action = .generate → leaf.IsComplete)
    (excluded : Exclusions) : ∀ (found : List Pattern) (progress : Progress),
      FailsWithin allowed (patterns schema options excluded progress found)
  | [], _ => failsWithin_pure _
  | pattern :: rest, progress => by
    rw [patterns]
    split
    · exact failsWithin_patterns hcomplete excluded rest progress
    · next leaf hleaf =>
      obtain ⟨hget, hgenerates⟩ := Option.filter_eq_some_iff.mp hleaf
      have hleaf := hcomplete _ leaf hget (of_decide_eq_true hgenerates)
      apply failsWithin_bind failsWithin_tally
      intro earlier
      apply failsWithin_bind (failsWithin_candidates htemplate excluded pattern hleaf _ _)
      intro progress
      apply failsWithin_bind failsWithin_tally
      intro later
      apply failsWithin_bind (failsWithin_note _)
      intro _
      exact failsWithin_patterns hcomplete excluded rest progress

theorem failsWithin_run {document spec : Json} (hcompile : Schema.compile document = .ok schema)
    {found : List Pattern} (hfound : Pattern.ofSpec schema spec = .ok found) :
    FailsWithin allowed (run schema options spec) := by
  rw [run, hfound]
  apply failsWithin_bind (failsWithin_note _)
  intro _
  apply failsWithin_bind (failsWithin_exclusions found _)
  intro excluded
  apply failsWithin_bind
  · apply failsWithin_patterns htemplate
    intro path leaf
    exact Schema.complete_of_compile hcompile
  · intro progress
    apply failsWithin_bind failsWithin_tally
    intro tally
    apply failsWithin_bind (failsWithin_note _)
    intro _
    exact failsWithin_pure _

end

/-! ## Faults and artifacts -/

section
variable {σ : Type} {host : Host (StateM σ)}

theorem checked_of_valid {isFile : String → Bool} {options : Options} {document spec : Json} {schema : Schema}
    {after : Diagnosis} (hcompile : Schema.compile document = .ok schema)
    (hvalid : Validate.run schema isFile .fresh spec = .ok after) :
    checked isFile options document spec = run schema options spec := by
  unfold checked
  rw [hcompile]
  dsimp only
  rw [hvalid]

theorem checked_cases (isFile : String → Bool) (options : Options) (document spec : Json) :
    (∃ fault, checked isFile options document spec = throw fault) ∨
      ∃ schema, Schema.compile document = .ok schema ∧
        checked isFile options document spec = run schema options spec := by
  cases hcompile : Schema.compile document with
  | error fault =>
    unfold checked
    rw [hcompile]
    exact Or.inl ⟨_, rfl⟩
  | ok schema =>
    cases hvalid : Validate.run schema isFile .fresh spec with
    | error rejection =>
      unfold checked
      rw [hcompile]
      dsimp only
      rw [hvalid]
      exact Or.inl ⟨_, rfl⟩
    | ok after => exact Or.inr ⟨schema, rfl, checked_of_valid hcompile hvalid⟩

theorem received_throw {α : Type} (fault : RunFault) (s : σ) :
    Script.received host (throw fault : Rendering α) s = [] := rfl

/-- A search that fails has handed nothing over, however many patterns it has found before. -/
theorem received_of_search {schema : Schema} {options : Options} {spec : Json} {fault : SpecFault}
    (hsearch : Pattern.ofSpec schema spec = .error fault) (s : σ) :
    Script.received host (run schema options spec) s = [] := by
  rw [run, hsearch]
  rfl

/-- **Early faults.** A run that fails has handed nothing over, unless a template could not be rendered or
the fault is one that the source of templates answered during the run. So no violation by the
specification and no other defect of the schema is found after the first artifact. -/
theorem received_nothing (isFile : String → Bool) (options : Options) (document spec : Json)
    (haccepts : host.AcceptsAll) (s : σ) {fault : RunFault}
    (hrun : (Script.play host (checked isFile options document spec) .zero s).1.2 = .error fault) :
    Script.received host (checked isFile options document spec) s = [] ∨
      (∃ text cause, fault = .schema (.template text cause)) ∨
      .error fault ∈ Script.answers host (checked isFile options document spec) s := by
  rcases checked_cases isFile options document spec with ⟨rejection, hchecked⟩ | ⟨schema, hcompile, hchecked⟩
  · left
    rw [hchecked]
    exact received_throw rejection s
  · rw [hchecked] at hrun ⊢
    cases hfound : Pattern.ofSpec schema spec with
    | error violation => exact Or.inl (received_of_search hfound s)
    | ok found =>
      right
      -- from here on the run renders
      let allowed (fault : RunFault) : Prop := (∃ text cause, fault = .schema (.template text cause)) ∨
        .error fault ∈ Script.answers host (run schema options spec) s
      have htemplate : ∀ text cause, allowed (.schema (.template text cause)) := by
        intro text cause
        exact Or.inl ⟨text, cause, rfl⟩
      have hwithin : FailsWithin allowed (run schema options spec) := failsWithin_run htemplate hcompile hfound
      refine hwithin.play_transcribing haccepts .zero s [] (fun other hother => Or.inr hother) fault ?_
      rw [← hrun]
      exact congrArg Prod.snd (Script.play_logging host _ _ (run schema options spec) .zero s []).1

end

/-! ## A template that fails after an artifact -/

/-- A document with a leaf that names its artifacts by a field and takes their content from this source. -/
def sizedDocument (template : Json) : Json :=
  .obj [("/cases/*", .obj [("path", .str "%(size)s"), ("template", template)])]

def sizedSchema (source : TemplateSource) : Schema :=
  ⟨⟨[([], []), ([.ofKey "cases"], []), ([.ofKey "cases", .wildcard], [])]⟩, [],
    ⟨[([.ofKey "cases", .wildcard], ⟨some "%(size)s", some source, .generate, [], []⟩)]⟩, ⟨[]⟩⟩

def sizedSpec (last : Json) : Json := .obj [("cases", .arr [.obj [("size", .str "a")], last])]

/-- Artifacts in memory, and templates of which one is answered with a defect. -/
def memoryHost : Host (StateM (List Artifact)) :=
  Host.quiet (fun reference => if reference = "b" then .error (.schema (.invalidReference "b")) else .ok "text")
    Sink.memory

theorem memoryHost_acceptsAll : memoryHost.AcceptsAll := fun artifact _ => ⟨artifact.size, rfl⟩

theorem memoryHost_checked {template : Json} {source : TemplateSource}
    (hcompile : Schema.compile (sizedDocument template) = .ok (sizedSchema source)) {last : Json} {after : Diagnosis}
    (hvalid : Validate.run (sizedSchema source) (fun _ => false) .fresh (sizedSpec last) = .ok after) :
    let read (reference : String) : Except RunFault String :=
      if reference = "b" then .error (.schema (.invalidReference "b")) else .ok "text"
    let trace := runTrace (sizedSchema source) .default read (sizedSpec last)
    Script.play memoryHost (checked (fun _ => false) .default (sizedDocument template) (sizedSpec last)) .zero [] =
        trace.reported Sink.memory [] ∧
      Script.received memoryHost (checked (fun _ => false) .default (sizedDocument template) (sizedSpec last)) [] =
        (trace.reported Sink.memory.recording ([], [])).2.2 := by
  rw [checked_of_valid hcompile hvalid, Script.received, memoryHost, Host.recording_quiet, play_run, play_run]
  exact ⟨rfl, rfl⟩

/-- A text in place of the second mapping is found before the first artifact is rendered. -/
theorem flat_case_found_first :
    memoryHost.AcceptsAll ∧
    (Script.play memoryHost
        (checked (fun _ => false) .default (sizedDocument (.str "text")) (sizedSpec (.str "b"))) .zero []).1.2 =
      .error (.spec ⟨[.ofKey "cases", .index 1], .patternNotDict [.ofKey "cases", .index 1]⟩) ∧
    Script.received memoryHost
      (checked (fun _ => false) .default (sizedDocument (.str "text")) (sizedSpec (.str "b"))) [] = [] := by
  have hcompile : Schema.compile (sizedDocument (.str "text")) = .ok (sizedSchema (.inline "text")) := rfl
  have hvalid : Validate.run (sizedSchema (.inline "text")) (fun _ => false) .fresh (sizedSpec (.str "b")) =
      .ok _ := rfl
  have hrun : (Script.play memoryHost
        (checked (fun _ => false) .default (sizedDocument (.str "text")) (sizedSpec (.str "b"))) .zero []).1.2 =
      .error (.spec ⟨[.ofKey "cases", .index 1], .patternNotDict [.ofKey "cases", .index 1]⟩) := by
    rw [(memoryHost_checked hcompile hvalid).1]
    rfl
  have hanswers : Script.answers memoryHost
      (checked (fun _ => false) .default (sizedDocument (.str "text")) (sizedSpec (.str "b"))) [] = [] := by
    rw [checked_of_valid hcompile hvalid]
    rfl
  refine ⟨memoryHost_acceptsAll, hrun, ?_⟩
  rcases received_nothing _ _ _ _ memoryHost_acceptsAll [] hrun with hnothing | ⟨_, _, h⟩ | h
  · exact hnothing
  · cases h
  · rw [hanswers] at h
    cases h

/-- The second mapping lacks the field that the path names, or the source of templates answers with a defect
of the schema where it is asked for the second time. By then the first artifact has been handed over. -/
theorem missing_field_found_late :
    memoryHost.AcceptsAll ∧
    (Script.play memoryHost
        (checked (fun _ => false) .default (sizedDocument (.str "text")) (sizedSpec (.obj []))) .zero []).1.2 =
      .error (.schema (.template "%(size)s" (.missingKey "size"))) ∧
    Script.received memoryHost
        (checked (fun _ => false) .default (sizedDocument (.str "text")) (sizedSpec (.obj []))) [] =
      [⟨"a", "text"⟩] ∧
    (Script.play memoryHost (checked (fun _ => false) .default (sizedDocument (.obj [("main", .str "%(size)s")]))
        (sizedSpec (.obj [("size", .str "b")]))) .zero []).1.2 =
      .error (.schema (.invalidReference "b")) ∧
    Script.received memoryHost (checked (fun _ => false) .default (sizedDocument (.obj [("main", .str "%(size)s")]))
        (sizedSpec (.obj [("size", .str "b")]))) [] =
      [⟨"a", "text"⟩] := by
  have hinline : Schema.compile (sizedDocument (.str "text")) = .ok (sizedSchema (.inline "text")) := rfl
  have hserved : Schema.compile (sizedDocument (.obj [("main", .str "%(size)s")])) =
      .ok (sizedSchema (.external "%(size)s" [])) := rfl
  have hmissing : Validate.run (sizedSchema (.inline "text")) (fun _ => false) .fresh (sizedSpec (.obj [])) =
      .ok _ := rfl
  have hpresent : Validate.run (sizedSchema (.external "%(size)s" [])) (fun _ => false) .fresh
      (sizedSpec (.obj [("size", .str "b")])) = .ok _ := rfl
  rw [(memoryHost_checked hinline hmissing).1, (memoryHost_checked hinline hmissing).2,
    (memoryHost_checked hserved hpresent).1, (memoryHost_checked hserved hpresent).2]
  exact ⟨memoryHost_acceptsAll, rfl, rfl, rfl, rfl⟩

end Generate

end TestMatrix
