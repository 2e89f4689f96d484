import TestMatrix.Command.Run
import TestMatrix.Machine
import TestMatrix.Proofs.Outcomes

/-!
# Commands on a machine

A command is run on the machine in memory, which it leaves in some state with a value or a fault. What
it can end with is stated for each part of the commands, and put together along the order in which the
parts run. Reading the inputs and judging them changes nothing on the machine but its log.
-/

namespace TestMatrix

/-- The file at a path is the text of this document. -/
def FileSystem.Holds (fs : FileSystem) (path : String) (document : Json) : Prop :=
  ∃ content text, fs.read path = .ok content ∧ textOf content = .ok text ∧ Json.parse text = .ok document

/-- The fault of the specification that a command ends with, whatever found it. -/
def CommandFault.violation? : CommandFault → Option SpecFault
  | .spec fault _ => some fault
  | .generation (.spec fault) => some fault
  | _ => none

namespace Machine

/-- The second machine is the first with more in its log. -/
def Noted (before after : Machine) : Prop := ∃ events, after = { before with events := before.events ++ events }

theorem Noted.refl (machine : Machine) : Noted machine machine :=
  ⟨[], congrArg (fun events => { machine with events }) (List.append_nil _).symm⟩

theorem Noted.trans {first second third : Machine} (h : Noted first second) (h' : Noted second third) :
    Noted first third := by
  obtain ⟨earlier, rfl⟩ := h
  obtain ⟨later, rfl⟩ := h'
  exact ⟨earlier ++ later, congrArg (fun events => { first with events }) (List.append_assoc ..)⟩

theorem Noted.files_eq {before after : Machine} (h : Noted before after) : after.files = before.files := by
  obtain ⟨events, rfl⟩ := h
  rfl

theorem noted_note (limit : Nat) (event : Event) (machine : Machine) :
    Noted machine ((platform.keeping limit).note event machine).2 := by
  show Noted machine ((if event.isKept limit then platform.note event else pure ()) machine).2
  split
  · exact ⟨[event], rfl⟩
  · exact Noted.refl machine

/-! ## How a command ends -/

section
variable {α β : Type}

/-- What holds of the machine when a command has been run on it, with its value or with its fault. -/
def Ends (command : CommandT (StateM Machine) α) (machine : Machine) (done : α → Machine → Prop)
    (failed : CommandFault → Machine → Prop) : Prop :=
  match command.run machine with
  | (.ok a, after) => done a after
  | (.error fault, after) => failed fault after

variable {machine : Machine} {done : α → Machine → Prop} {failed : CommandFault → Machine → Prop}

theorem Ends.of_error {command : CommandT (StateM Machine) α} (h : Ends command machine done failed)
    {fault : CommandFault} {after : Machine} (hrun : command.run machine = (.error fault, after)) :
    failed fault after := by
  unfold Ends at h
  rw [hrun] at h
  exact h

theorem Ends.mono {command : CommandT (StateM Machine) α} {done' : α → Machine → Prop}
    {failed' : CommandFault → Machine → Prop} (h : Ends command machine done failed)
    (hdone : ∀ a after, done a after → done' a after)
    (hfailed : ∀ fault after, failed fault after → failed' fault after) : Ends command machine done' failed' := by
  unfold Ends at h ⊢
  split at h
  · exact hdone _ _ h
  · exact hfailed _ _ h

theorem ends_pure {a : α} (h : done a machine) : Ends (pure a) machine done failed := h

theorem ends_throw {fault : CommandFault} (h : failed fault machine) :
    Ends (throw fault) machine done failed := h

theorem ends_lift {action : StateM Machine α} (h : done (action machine).1 (action machine).2) :
    Ends (liftM action) machine done failed := h

theorem ends_run (machine : Machine) (action : StateM Machine α) :
    Ends (liftM action) machine (fun a after => action machine = (a, after)) failed := ends_lift rfl

theorem ends_silent {action : StateM Machine α} (h : (action machine).2 = machine) :
    Ends (liftM action) machine (fun _ after => machine = after) failed := ends_lift h.symm

theorem ends_bind {command : CommandT (StateM Machine) α} {next : α → CommandT (StateM Machine) β}
    {done' : β → Machine → Prop} (h : Ends command machine done failed)
    (hnext : ∀ a after, done a after → Ends (next a) after done' failed) :
    Ends (command >>= next) machine done' failed := by
  unfold Ends at h
  generalize hrun : command.run machine = outcome at h
  obtain ⟨value, after⟩ := outcome
  have hbind : (command >>= next).run machine = ExceptT.bindCont next value after :=
    congrArg (fun outcome : Except CommandFault α × Machine => ExceptT.bindCont next outcome.1 outcome.2) hrun
  unfold Ends
  rw [hbind]
  cases value with
  | ok a => exact hnext a after h
  | error fault => exact h

end

/-! ## Reading the inputs -/

section
variable (limit : Nat) (machine : Machine)

theorem readText_run (path : String) : (platform.keeping limit).readText path machine =
    (match machine.files.read path with
      | .ok content => textOf content
      | .error error => .error (.system error), machine) := by
  have hread : (platform.keeping limit).read path machine = (machine.files.read path, machine) := rfl
  rw [Platform.readText, StateM.bind_run hread]
  cases machine.files.read path <;> rfl

theorem regularFiles_run (names : List String) :
    Load.regularFiles (platform.keeping limit) names machine = (names.filter machine.files.isFile, machine) := by
  induction names with
  | nil => rfl
  | cons name rest ih =>
    have hisFile : (platform.keeping limit).isFile name machine = (machine.files.isFile name, machine) := rfl
    rw [Load.regularFiles, StateM.bind_run hisFile, StateM.bind_run ih, List.filter_cons]
    rfl

variable {failed : CommandFault → Machine → Prop}

theorem ends_readText (path : String) : Ends (liftM ((platform.keeping limit).readText path)) machine
    (fun answer after => machine = after ∧ ∀ text, answer = .ok text →
      ∃ content, machine.files.read path = .ok content ∧ textOf content = .ok text) failed := by
  apply ends_lift
  rw [readText_run]
  refine ⟨rfl, fun text htext => ?_⟩
  cases hcontent : machine.files.read path with
  | error _ =>
    rw [hcontent] at htext
    cases htext
  | ok content =>
    rw [hcontent] at htext
    exact ⟨content, rfl, htext⟩

theorem ends_isFile (path : String) : Ends (liftM ((platform.keeping limit).isFile path)) machine
    (fun _ after => machine = after) failed := ends_lift rfl

theorem ends_regularFiles (names : List String) :
    Ends (liftM (Load.regularFiles (platform.keeping limit) names)) machine
      (fun files after => machine = after ∧ files = names.filter machine.files.isFile) failed := by
  apply ends_lift
  simp [regularFiles_run]

theorem ends_note (event : Event) : Ends (liftM ((platform.keeping limit).note event)) machine
    (fun _ after => Noted machine after) failed := ends_lift (noted_note limit event machine)

theorem ends_document (path : String) : Ends (Load.document (platform.keeping limit) path) machine
    (fun document after => machine = after ∧ machine.files.Holds path document)
    (fun fault _ => fault.violation? = none) := by
  apply ends_bind (ends_readText limit machine path)
  intro answer after h
  obtain ⟨rfl, hanswer⟩ := h
  cases answer with
  | error fault => exact ends_throw rfl
  | ok text =>
    obtain ⟨content, hcontent, htext⟩ := hanswer text rfl
    dsimp only
    cases hparse : Json.parse text with
    | error error => exact ends_throw rfl
    | ok document => exact ends_pure ⟨rfl, content, text, hcontent, htext, hparse⟩

theorem ends_settingsAt (path : String) : Ends (Load.settingsAt (platform.keeping limit) path) machine
    (fun _ after => machine = after) (fun fault _ => fault.violation? = none) := by
  apply ends_bind (ends_readText limit machine path)
  intro answer after h
  obtain ⟨rfl, -⟩ := h
  cases answer with
  | error fault => exact ends_throw rfl
  | ok content =>
    dsimp only
    cases Settings.parse path content with
    | error fault => exact ends_throw rfl
    | ok settings => exact ends_pure rfl

theorem ends_settings (named : Option String) : Ends (Load.settings (platform.keeping limit) named) machine
    (fun _ after => machine = after) (fun fault _ => fault.violation? = none) := by
  unfold Load.settings
  cases named with
  | some path => exact ends_settingsAt limit machine path
  | none =>
    apply ends_bind (ends_isFile limit machine Load.settingsFile)
    intro isFile after h
    subst h
    split
    · exact ends_settingsAt limit machine _
    · exact ends_pure rfl

end

end Machine

end TestMatrix
