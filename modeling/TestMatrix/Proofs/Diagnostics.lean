import TestMatrix.Proofs.Commands
import TestMatrix.Proofs.Coverage
import TestMatrix.Proofs.Demands
import TestMatrix.Proofs.EarlyFaults
import TestMatrix.Proofs.Reading

/-!
# What a command shows of a violation

A specification is found at fault when the schema is compiled, when it is validated, or when it is
searched for patterns. The command ends with the same exit code in all three cases, and with a line
that tells the fault and its path. What it shows beyond that line depends on the case.
-/

namespace TestMatrix

/-! ## The validator stops at the node it looks at -/

namespace Validate

section
variable {schema : Schema} {isFile : String → Bool} {path : TreePath}

theorem path_of_checkRules {value : Json} : ∀ {rules : List Rule} {diagnosis : Diagnosis} {rejection : Rejection},
    diagnosis.path = some path → checkRules isFile path value diagnosis rules = .error rejection →
      rejection.diagnosis.path = some rejection.fault.path
  | rule :: rest, diagnosis, rejection, hpath, h => by
    rw [checkRules] at h
    split at h
    · exact path_of_checkRules (by exact hpath) h
    · cases h
      exact hpath

theorem path_of_rulesFor {fault : SpecFault} (h : rulesFor schema path = .error fault) : fault.path = path := by
  unfold rulesFor at h
  split at h
  · cases h
  · split at h
    · cases h
    · cases h
      rfl

theorem path_of_visit (value : Json) : ∀ {path : TreePath} {diagnosis : Diagnosis} {rejection : Rejection},
    visit schema isFile path diagnosis value = .error rejection →
      rejection.diagnosis.path = some rejection.fault.path := by
  induction value using Json.children_induction with
  | step value ih =>
    intro path diagnosis rejection h
    rw [visit_eq] at h
    rcases Except.bind_eq_error.mp h with h | ⟨rules, -, h⟩
    · obtain ⟨fault, hrules, rfl⟩ := Except.mapError_eq_error.mp h
      exact congrArg some (path_of_rulesFor hrules).symm
    · rcases Except.bind_eq_error.mp h with h | ⟨after, -, h⟩
      · exact path_of_checkRules rfl h
      · obtain ⟨entry, hmem, diagnosis', hchild⟩ := Except.error_of_foldlM h
        unfold visitChild at hchild
        split at hchild
        · cases hchild
        · exact ih _ _ hmem hchild

theorem path_of_run {diagnosis : Diagnosis} {spec : Json} {rejection : Rejection}
    (h : run schema isFile diagnosis spec = .error rejection) :
    rejection.diagnosis.path = some rejection.fault.path := by
  unfold run at h
  split at h
  · exact path_of_visit spec h
  · cases h
    rfl

end

end Validate

/-! ## Rendering finds no fault in the specification -/

def RunFault.SparesSpec (fault : RunFault) : Prop := ∀ violation, fault ≠ .spec violation

namespace Templates

variable {σ : Type} (text? : String → StateM σ (Option (Except ReadFault String)))

theorem load_spares (path : String) (cache : TemplateCache) (s : σ) :
    FaultsWithin RunFault.SparesSpec (load text? path cache s).1.1 := by
  unfold load
  cases cache.lookup (FilePath.components path) with
  | some found => exact faultsWithin_ok found
  | none =>
    have hstep : text? path s = ((text? path s).1, (text? path s).2) := rfl
    dsimp only
    rw [StateM.bind_run hstep]
    cases (text? path s).1 with
    | none => exact faultsWithin_ok none
    | some read =>
      cases read with
      | ok text => exact faultsWithin_ok (some text)
      | error fault => exact faultsWithin_error fun violation h => by cases h

theorem search_spares : ∀ (places : List String) (cache : TemplateCache) (s : σ),
    FaultsWithin RunFault.SparesSpec (search text? cache places s).1.1
  | [], cache, s => faultsWithin_ok none
  | path :: rest, cache, s => by
    have hload := load_spares text? path cache s
    rw [search]
    generalize hstep : load text? path cache s = loaded at hload
    obtain ⟨⟨answer, cache'⟩, s'⟩ := loaded
    rw [StateM.bind_run hstep]
    cases answer with
    | error fault => exact faultsWithin_error (hload fault rfl)
    | ok found =>
      cases found with
      | none => exact search_spares rest cache' s'
      | some text => exact faultsWithin_ok (some (path, text))

theorem read_spares (directories : List String) (reference : String) (cache : TemplateCache) (s : σ) :
    FaultsWithin RunFault.SparesSpec (read text? directories reference cache s).1.1 := by
  have hsearch := search_spares text? (candidates reference directories) cache s
  unfold read
  generalize hstep : search text? cache (candidates reference directories) s = found at hsearch
  obtain ⟨⟨answer, cache'⟩, s'⟩ := found
  rw [StateM.bind_run hstep]
  cases answer with
  | error fault => exact faultsWithin_error (hsearch fault rfl)
  | ok found =>
    cases found with
    | none => exact faultsWithin_error fun violation h => by cases h
    | some entry => exact faultsWithin_ok entry

end Templates

namespace GenerateRequest

variable {σ : Type} (platform : Platform (StateM σ)) (request : GenerateRequest) (settings : Settings)

theorem fetch_spares (reference : String) (cache : TemplateCache) (s : σ) :
    FaultsWithin RunFault.SparesSpec ((request.host platform settings).fetch reference cache s).1.1 := by
  let text? (path : String) : StateM σ (Option (Except ReadFault String)) := do
    if ← platform.isFile path then return some (← platform.readText path) else return none
  have hread := Templates.read_spares text? (request.searchDirs settings) reference cache s
  show FaultsWithin _ (Source.files platform (request.searchDirs settings) reference cache s).1.1
  unfold Source.files
  generalize hstep : Templates.read text? (request.searchDirs settings) reference cache s = found at hread
  obtain ⟨⟨answer, cache'⟩, s'⟩ := found
  rw [StateM.bind_run hstep]
  cases answer with
  | error fault => exact faultsWithin_error (hread fault rfl)
  | ok entry => exact faultsWithin_ok entry.2

theorem deliver_spares (artifact : Artifact) (cache : TemplateCache) (s : σ) :
    FaultsWithin RunFault.SparesSpec ((request.host platform settings).deliver artifact cache s).1.1 := by
  show FaultsWithin _ ((if request.dryRun then Sink.dryRun platform
    else Sink.files platform (request.outputRoot settings)) artifact s).1
  by_cases hdry : request.dryRun = true
  · rw [if_pos hdry]
    exact faultsWithin_ok artifact.size
  · rw [if_neg hdry]
    unfold Sink.files
    generalize hstep :
      Writer.write platform.files (request.outputRoot settings) artifact.path artifact.content s = written
    obtain ⟨answer, s'⟩ := written
    rw [StateM.bind_run hstep]
    cases answer with
    | error fault => exact faultsWithin_error fun violation h => by cases h
    | ok bytes => exact faultsWithin_ok bytes

end GenerateRequest

/-! ## Where a violation is found -/

inductive Stage where
  | compiling
  | validating
  | expanding

/-- The texts of a document that name regular files. -/
def Machine.namesFile (machine : Machine) (spec : Json) : String → Bool :=
  (spec.texts.filter machine.files.isFile).contains

/-- The stage that finds the violation, and the fault that the command makes of it. -/
inductive FoundAt (isFile : String → Bool) (spec schema : Json) (violation : SpecFault) : Stage → CommandFault → Prop
  | compiling : Schema.compile schema = .error (.spec violation) →
    FoundAt isFile spec schema violation .compiling (.spec violation .fresh)
  | validating {compiled : Schema} {diagnosis : Diagnosis} : Schema.compile schema = .ok compiled →
    Validate.run compiled isFile .fresh spec = .error ⟨violation, diagnosis⟩ →
    FoundAt isFile spec schema violation .validating (.spec violation diagnosis)
  | expanding {compiled : Schema} {diagnosis : Diagnosis} : Schema.compile schema = .ok compiled →
    Validate.run compiled isFile .fresh spec = .ok diagnosis → Pattern.ofSpec compiled spec = .error violation →
    FoundAt isFile spec schema violation .expanding (.generation (.spec violation))

/-- The documents that the inputs name, and that the schema compiles and the specification is valid. -/
structure Judged (machine : Machine) (inputs : Inputs) (spec schema : Json) (compiled : Schema) : Prop where
  spec_read : machine.files.Holds inputs.spec spec
  schema_read : machine.files.Holds inputs.schema schema
  compiles : Schema.compile schema = .ok compiled
  valid : ∃ diagnosis, Validate.run compiled (machine.namesFile spec) .fresh spec = .ok diagnosis

/-- A violation that ends the command is found in the documents that the inputs name, and all that has
happened until then is in the log. -/
def Blamed (machine : Machine) (inputs : Inputs) (fault : CommandFault) (after : Machine) : Prop :=
  ∀ violation, fault.violation? = some violation → machine.Noted after ∧ ∃ spec schema stage,
    machine.files.Holds inputs.spec spec ∧ machine.files.Holds inputs.schema schema ∧
      FoundAt (machine.namesFile spec) spec schema violation stage fault

/-- A session that reads clocks and makes names, and changes nothing on the machine. -/
structure Session.IsSilent (session : Session (StateM Machine)) : Prop where
  runId : ∀ machine, (session.runId machine).2 = machine
  now : ∀ machine, (session.now machine).2 = machine
  milliseconds : ∀ machine, (session.milliseconds machine).2 = machine

def Command.inputs : Command → Inputs
  | .validate inputs => inputs
  | .generate request => request.inputs

namespace Machine

variable (limit : Nat) (machine : Machine)

theorem blamed_of_none {machine : Machine} {inputs : Inputs} {fault : CommandFault} (after : Machine)
    (h : fault.violation? = none) : Blamed machine inputs fault after := by
  intro violation hviolation
  rw [h] at hviolation
  cases hviolation

theorem Ends.blamed {α : Type} {command : CommandT (StateM Machine) α} {machine before : Machine} {inputs : Inputs}
    {done : α → Machine → Prop} (h : Ends command machine done fun fault _ => fault.violation? = none) :
    Ends command machine done (Blamed before inputs) :=
  h.mono (fun _ _ hdone => hdone) fun _ after hnone => blamed_of_none after hnone

theorem ends_validated (inputs : Inputs) : Ends (Load.validated (platform.keeping limit) inputs) machine
    (fun loaded after => machine.Noted after ∧ ∃ schema, Judged machine inputs loaded.1 schema loaded.2)
    (Blamed machine inputs) := by
  apply ends_bind (ends_document limit machine inputs.spec).blamed
  intro spec after h
  obtain ⟨rfl, hspec⟩ := h
  apply ends_bind (ends_document limit machine inputs.schema).blamed
  intro schema after h
  obtain ⟨rfl, hschema⟩ := h
  cases hcompile : Schema.compile schema with
  | error fault =>
    cases fault with
    | schema defect => exact ends_throw (blamed_of_none _ rfl)
    | spec fault =>
      apply ends_throw
      intro violation hviolation
      cases hviolation
      exact ⟨Noted.refl _, spec, schema, .compiling, hspec, hschema, .compiling hcompile⟩
  | ok compiled =>
    apply ends_bind (ends_note limit machine _)
    intro u noted hnoted
    apply ends_bind (ends_regularFiles limit noted spec.texts)
    intro files after h
    obtain ⟨rfl, hfiles⟩ := h
    -- the log has grown since, but the files are still those of the machine at the start
    rw [hnoted.files_eq] at hfiles
    have hnames : files.contains = machine.namesFile spec := by rw [hfiles]; rfl
    rw [hnames]
    cases hvalid : Validate.run compiled (machine.namesFile spec) .fresh spec with
    | error rejection =>
      apply ends_throw
      intro violation hviolation
      cases hviolation
      exact ⟨hnoted, spec, schema, .validating, hspec, hschema, .validating hcompile hvalid⟩
    | ok diagnosis =>
      apply ends_bind (ends_note limit noted _)
      intro u after hafter
      exact ends_pure ⟨hnoted.trans hafter, schema, hspec, hschema, hcompile, diagnosis, hvalid⟩

section
variable {compiled : Schema} {options : Options} {document spec : Json} (request : GenerateRequest)
  (settings : Settings) (cache : TemplateCache)

/-- A run ends with a violation only if the search for patterns does, and then it has done nothing but log. -/
theorem found_by_search (hcompile : Schema.compile document = .ok compiled) {violation : SpecFault}
    (h : ((Generate.run compiled options spec).run.play (request.host (platform.keeping limit) settings) .zero
      cache machine).1.1.2 = .error (.spec violation)) :
    Pattern.ofSpec compiled spec = .error violation ∧
      machine.Noted ((Generate.run compiled options spec).run.play (request.host (platform.keeping limit) settings)
        .zero cache machine).2 := by
  cases hsearch : Pattern.ofSpec compiled spec with
  | error other =>
    rw [Generate.run, hsearch] at h ⊢
    cases h
    exact ⟨rfl, noted_note limit _ machine⟩
  | ok found =>
    -- from here on only templates and destinations can fail
    have hwithin : Script.FailsWithin RunFault.SparesSpec (Generate.run compiled options spec) :=
      Generate.failsWithin_run (fun text cause violation h => by cases h) hcompile hsearch
    exact absurd rfl (hwithin.play_cached (request.fetch_spares _ settings) (request.deliver_spares _ settings)
      (Generate.orderly_run compiled options spec) .zero cache machine _ h violation)

end

theorem ends_writeReport (path : String) (report : Json) :
    Ends (GenerateRequest.writeReport (platform.keeping limit) path report) machine (fun _ _ => True)
      (fun fault _ => fault.violation? = none) := by
  apply ends_bind (ends_run machine _)
  intro written after _
  cases written with
  | error fault => exact ends_throw rfl
  | ok u => exact (ends_note limit after _).mono (fun _ _ _ => trivial) fun _ _ h => h

theorem ends_summary (request : GenerateRequest) (summary : String) (after : Machine) :
    Ends (if !request.dryRun then liftM ((platform.keeping limit).print summary) else pure ()) after (fun _ _ => True)
      (Blamed machine request.inputs) := by
  split
  · exact ends_lift trivial
  · exact ends_pure trivial

theorem ends_validate (inputs : Inputs) : Ends (Invocation.validate (platform.keeping limit) inputs) machine
    (fun _ _ => True) (Blamed machine inputs) := by
  apply ends_bind (ends_validated limit machine inputs)
  intro loaded validated _
  apply ends_bind (ends_note limit validated _)
  intro u noted _
  exact ends_lift trivial

variable {session : Session (StateM Machine)} (hsession : session.IsSilent)
include hsession

theorem ends_generate (request : GenerateRequest) : Ends (request.run (platform.keeping limit) session) machine
    (fun _ _ => True) (Blamed machine request.inputs) := by
  apply ends_bind (ends_settings limit machine request.config).blamed
  intro settings after h
  subst h
  apply ends_bind (ends_validated limit machine request.inputs)
  intro loaded validated h
  obtain ⟨spec, compiled⟩ := loaded
  obtain ⟨hnoted, schema, hjudged⟩ := h
  apply ends_bind (ends_note limit validated _)
  intro u noted hnoted'
  apply ends_bind (ends_silent (hsession.runId noted))
  intro runId after h
  subst h
  apply ends_bind (ends_silent (hsession.now noted))
  intro startedAt after h
  subst h
  apply ends_bind (ends_silent (hsession.milliseconds noted))
  intro start after h
  subst h
  apply ends_bind (ends_run noted _)
  intro played after hplayed
  obtain ⟨⟨tally, result⟩, cache⟩ := played
  cases result with
  | error fault =>
    apply ends_throw
    intro violation hviolation
    cases fault with
    | spec fault =>
      cases hviolation
      have hstop := congrArg (fun played => played.1.1.2) hplayed
      obtain ⟨hsearch, hlogged⟩ := found_by_search limit noted request settings [] hjudged.compiles hstop
      rw [show after = _ from (congrArg Prod.snd hplayed).symm]
      obtain ⟨diagnosis, hvalid⟩ := hjudged.valid
      exact ⟨(hnoted.trans hnoted').trans hlogged, spec, schema, .expanding, hjudged.spec_read, hjudged.schema_read,
        .expanding hjudged.compiles hvalid hsearch⟩
    | _ => cases hviolation
  | ok report =>
    apply ends_bind (ends_silent (hsession.milliseconds after))
    intro finish after' h
    subst h
    cases hreport : request.report with
    | none => exact ends_summary limit machine request _ after
    | some path =>
      apply ends_bind (ends_writeReport limit after path _).blamed
      intro u after _
      exact ends_summary limit machine request _ after

theorem ends_runCommand (command : Command) :
    Ends (Invocation.runCommand (platform.keeping limit) session command) machine (fun _ _ => True)
      (Blamed machine command.inputs) := by
  cases command with
  | validate inputs => exact ends_validate limit machine inputs
  | generate request => exact ends_generate limit machine hsession request

end Machine

/-! ## What is shown -/

theorem TreePath.text_ne_empty (path : TreePath) : path.text ≠ "" := by
  cases path with
  | nil => decide
  | cons segment rest => simp [text]

namespace CommandFault

def shown (fault : CommandFault) : String :=
  "error: " ++ fault.message ++ "\n" ++
    (fault.diagnosis?.map fun diagnosis => diagnosis.toJson.indented ++ "\n").getD ""

/-- The path in the diagnosis that is shown for a fault. -/
def shownPath? (fault : CommandFault) : Option String :=
  fault.diagnosis?.bind fun diagnosis => (diagnosis.toJson.obj?.bind (List.lookup "path")).bind Json.str?

theorem exitCode_of_violation {fault : CommandFault} {violation : SpecFault} (h : fault.violation? = some violation) :
    fault.exitCode = 1 := by
  cases fault with
  | spec => rfl
  | generation fault =>
    cases fault with
    | spec => rfl
    | _ => cases h
  | _ => cases h

end CommandFault

namespace Invocation

open Machine

theorem complain_run (limit : Nat) (fault : CommandFault) (machine : Machine) :
    complain (platform.keeping limit) fault machine =
      ((), { machine with complaints := machine.complaints ++ fault.shown }) := by
  obtain ⟨files, troubles, output, complaints, events⟩ := machine
  unfold complain CommandFault.shown
  cases fault.diagnosis? with
  | none =>
    show ((), Machine.mk files troubles output (complaints ++ ("error: " ++ fault.message ++ "\n")) events) = _
    simp
  | some diagnosis =>
    show ((), Machine.mk files troubles output
      (complaints ++ ("error: " ++ fault.message ++ "\n") ++ (diagnosis.toJson.indented ++ "\n")) events) = _
    simp [String.append_assoc]

theorem runLogged_error {limit : Nat} {session : Session (StateM Machine)} {command : Command} {fault : CommandFault}
    {machine after : Machine}
    (hrun : (runCommand (platform.keeping limit) session command).run machine = (.error fault, after)) :
    ∃ events, runLogged (platform.keeping limit) session command machine =
      (fault.exitCode,
        { after with complaints := after.complaints ++ fault.shown, events := after.events ++ events }) := by
  obtain ⟨events, hnoted⟩ := noted_note limit ⟨.error, "command failed", [("error", .str fault.message)]⟩ after
  refine ⟨events, ?_⟩
  have hnote : (platform.keeping limit).note ⟨.error, "command failed", [("error", .str fault.message)]⟩ after =
      ((), { after with events := after.events ++ events }) := Prod.ext rfl hnoted
  unfold runLogged
  rw [StateM.bind_run hrun]
  dsimp only
  rw [StateM.bind_run hnote, StateM.bind_run (complain_run limit fault _)]
  rfl

/-- **What is shown of a violation.** A violation that ends a command is found by one of the three stages in
the documents that are named. The exit code is one, the fault is told, and nothing else has happened. A
diagnosis is shown unless the search for patterns found it, and has the path of the violation exactly when
the validator did; at that path the specification has no two nodes, since no document that was read has a
key twice. -/
theorem violation_shown {limit : Nat} {session : Session (StateM Machine)} (hsession : session.IsSilent)
    {command : Command} {machine after : Machine} {fault : CommandFault} {violation : SpecFault}
    (hrun : (runCommand (platform.keeping limit) session command).run machine = (.error fault, after))
    (hviolation : fault.violation? = some violation) :
    ∃ spec schema stage, machine.files.Holds command.inputs.spec spec ∧
      machine.files.Holds command.inputs.schema schema ∧
      FoundAt (machine.namesFile spec) spec schema violation stage fault ∧
      (∃ events, runLogged (platform.keeping limit) session command machine =
        (1, { machine with complaints := machine.complaints ++ fault.shown, events := machine.events ++ events })) ∧
      (fault.diagnosis?.isSome = true ↔ stage ≠ .expanding) ∧
      (fault.shownPath? = some violation.path.text ↔ stage = .validating) ∧
      ∀ first second, spec.IsNode violation.path first → spec.IsNode violation.path second → first = second := by
  obtain ⟨⟨earlier, rfl⟩, spec, schema, stage, hspec, hschema, hfound⟩ :=
    (ends_runCommand limit machine hsession command).of_error hrun violation hviolation
  obtain ⟨later, hlogged⟩ := runLogged_error hrun
  have hshown : (fault.diagnosis?.isSome = true ↔ stage ≠ .expanding) ∧
      (fault.shownPath? = some violation.path.text ↔ stage = .validating) := by
    cases hfound with
    | compiling _ =>
      have hpath : (CommandFault.spec violation .fresh).shownPath? = some "" := rfl
      rw [hpath]
      simp [CommandFault.diagnosis?, (TreePath.text_ne_empty violation.path).symm]
    | @validating compiled diagnosis _ hvalid =>
      have hpath : (CommandFault.spec violation diagnosis).shownPath? = some diagnosis.pathText := rfl
      have hnode : diagnosis.path = some violation.path := Validate.path_of_run hvalid
      rw [hpath]
      simp [CommandFault.diagnosis?, Diagnosis.pathText, hnode]
    | expanding _ _ _ => simp [CommandFault.shownPath?, CommandFault.diagnosis?]
  refine ⟨spec, schema, stage, hspec, hschema, hfound, ⟨earlier ++ later, ?_⟩, hshown.1, hshown.2, ?_⟩
  · rw [hlogged, CommandFault.exitCode_of_violation hviolation, List.append_assoc]
  · intro first second hfirst hsecond
    obtain ⟨_, text, -, -, hparse⟩ := hspec
    exact hfirst.unique (Json.distinct_of_parse hparse) hsecond

def bothFiles : Inputs := ⟨"spec.json", "schema.json"⟩

/-- A machine with a specification and a schema. -/
def machineWith (spec schema : String) : Machine :=
  .ofFiles ⟨[(["spec.json"], .file spec.toUTF8), (["schema.json"], .file schema.toUTF8)], []⟩

def silentSession : Session (StateM Machine) := ⟨pure "", pure "", pure 0⟩

theorem number_shown_at_root : silentSession.IsSilent ∧ ∃ fault after,
    (runCommand (platform.keeping 2) silentSession (.validate bothFiles)).run (machineWith "1" "\x7b\x7d") =
        (.error fault, after) ∧
      fault.violation? = some ⟨.root, .expectedContainer "number"⟩ ∧ fault.shownPath? = some "/" ∧
      (runLogged (platform.keeping 2) silentSession (.validate bothFiles) (machineWith "1" "\x7b\x7d")).1 = 1 := by
  have hsilent : silentSession.IsSilent := ⟨fun _ => rfl, fun _ => rfl, fun _ => rfl⟩
  have hrun : (runCommand (platform.keeping 2) silentSession (.validate bothFiles)).run (machineWith "1" "\x7b\x7d") =
    (.error (.spec ⟨.root, .expectedContainer "number"⟩ ⟨some .root, .num (.int 1), none⟩), _) := rfl
  obtain ⟨spec, schema, stage, -, -, hfound, ⟨events, hlogged⟩, -, hpath, -⟩ := violation_shown hsilent hrun rfl
  refine ⟨hsilent, _, _, hrun, rfl, ?_, congrArg Prod.fst hlogged⟩
  cases hfound with
  | validating _ _ => exact hpath.mpr rfl

/-- A text where the schema has a leaf. -/
def flatMachine : Machine :=
  machineWith "\x7b\"cases\": [\"flat\"]\x7d" "\x7b\"/cases/*\": \x7b\"path\": \"p\", \"template\": \"t\"\x7d\x7d"

def dryRequest : GenerateRequest := ⟨bothFiles, none, true, none, [], none, none⟩

/-- The violation at a leaf is told without a diagnosis, and that at a number in the schema with one that has
no path. -/
theorem flat_case_not_shown :
    ((runCommand (platform.keeping 2) silentSession (.generate dryRequest)).run flatMachine).1.mapError
        (fun fault => (fault.violation?.map fun violation => violation.path.text, fault.shownPath?)) =
      .error (some "/cases/0", none) ∧
    (runLogged (platform.keeping 2) silentSession (.generate dryRequest) flatMachine).1 = 1 ∧
    (runLogged (platform.keeping 2) silentSession (.generate dryRequest) flatMachine).2.complaints =
      "error: generation failed: spec error: Pattern at \"/cases/0\" must be a dict (at \"/cases/0\")\n" ∧
    ((runCommand (platform.keeping 2) silentSession (.validate bothFiles)).run (machineWith "\x7b\x7d" "5")).1.mapError
        (fun fault => (fault.violation?.map fun violation => violation.path.text, fault.shownPath?)) =
      .error (some "/", some "") := by
  decide +kernel

end Invocation

end TestMatrix
