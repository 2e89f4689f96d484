import TestMatrix.Proofs.Replacement
import TestMatrix.Proofs.Walks

/-!
# Writes on a machine without troubles

Where nothing befalls a call, it fails only by the rules of the tree. Of the calls that replace a file only two
can: once the temporary file is made it can be filled, and once it is renamed its directory can be opened.
The renaming fails just where no file can be.
-/

namespace TestMatrix

namespace Machine

variable {machine : Machine} {call : SystemCall} {files : FileSystem} (hcalm : machine.troubles = [])
include hcalm

theorem trouble?_of_calm : machine.trouble? = none := by
  unfold trouble?
  rw [hcalm]
  rfl

theorem past_of_calm (files : FileSystem) : machine.past files = { machine with files } := by
  unfold past
  rw [hcalm]
  rfl

theorem recording_perform_ok (h : machine.files.perform call = .ok files) (done : List SystemCall) :
    recording.perform call (machine, done) = (.ok (), { machine with files }, done ++ [call]) := by
  unfold recording perform carriedOut SystemCall.attempted
  dsimp only
  rw [trouble?_of_calm hcalm]
  dsimp only
  rw [h]
  dsimp only
  rw [past_of_calm hcalm]

theorem recording_perform_error {error : FileError} (h : machine.files.perform call = .error error)
    (done : List SystemCall) : recording.perform call (machine, done) = (.error error, machine, done) := by
  unfold recording perform carriedOut SystemCall.attempted
  dsimp only
  rw [trouble?_of_calm hcalm]
  dsimp only
  rw [h]
  dsimp only
  rw [past_of_calm hcalm, List.append_nil]

omit hcalm in
theorem recording_performAll_ok {calls : List SystemCall} {machine : Machine} (hcalm : machine.troubles = [])
    {files : FileSystem} (h : calls.foldlM FileSystem.perform machine.files = .ok files)
    (rest done : List SystemCall) : recording.performAll (calls ++ rest) (machine, done) =
      recording.performAll rest ({ machine with files }, done ++ calls) := by
  induction calls generalizing machine done with
  | nil =>
    cases h
    rw [List.append_nil]
    rfl
  | cons call others ih =>
    obtain ⟨next, hcall, hothers⟩ := FileSystem.foldlM_perform_cons.mp h
    rw [List.cons_append, FileAccess.performAll, StateM.bind_run (recording_perform_ok hcalm hcall done),
      List.append_cons done call others]
    exact @ih { machine with files := next } hcalm hothers (done ++ [call])

theorem recording_performAll_error {error : FileError} (h : machine.files.perform call = .error error)
    (rest done : List SystemCall) :
    recording.performAll (call :: rest) (machine, done) = (.error error, machine, done) := by
  rw [FileAccess.performAll, StateM.bind_run (recording_perform_error hcalm h done)]
  rfl

end Machine

/-! ## Where a replacement can fail -/

namespace FileSystem

variable {fs after : FileSystem} {path temporary : String} {content : ByteArray}

theorem idle_of_create {parent : String} {created : FileSystem} (htemporary : Writer.temporary? path = some temporary)
    (hparent : Writer.parent? path = some parent) (hcreate : fs.create temporary = .ok created)
    (hkeeps : KeepsDirectories fs after) :
    [SystemCall.openDirectory parent, .sync parent].foldlM perform after = .ok after := by
  obtain ⟨target, htarget, -⟩ := create_target hcreate
  obtain ⟨location, hlocate⟩ := locate_parent htemporary hparent htarget
  have hsame : (after.locate parent).map (fun _ => after) = .ok after :=
    Except.map_eq_ok.mpr ⟨_, hkeeps.locate hlocate, rfl⟩
  exact foldlM_perform_cons.mpr ⟨after, hsame, foldlM_perform_cons.mpr ⟨after, hsame, rfl⟩⟩

/-- Only making the temporary file and renaming it can fail. -/
theorem replacement_cases (fs : FileSystem) (content : ByteArray)
    (htemporary : Writer.temporary? path = some temporary) :
    (∃ error, fs.create temporary = .error error) ∨
    (∃ created filled error, fs.create temporary = .ok created ∧ Filled fs temporary content filled ∧
      [SystemCall.create temporary, .append temporary content, .sync temporary].foldlM perform fs = .ok filled ∧
      filled.rename temporary path = .error error) ∨
    ∃ after, (Writer.replacement temporary path content).foldlM perform fs = .ok after := by
  cases hcreate : fs.create temporary with
  | error error => exact .inl ⟨error, rfl⟩
  | ok created =>
  obtain ⟨target, htarget, hentry⟩ := create_target hcreate
  obtain ⟨filled, hfill⟩ := append_of_create hcreate content
  have hfilled : Filled fs temporary content filled := by
    have h := (filled_of_create hcreate).append hfill
    rwa [ByteArray.empty_append] at h
  have hheld : filled.file? (filled.destination temporary) = some content := by
    rw [hfilled.keeps.destination, hfilled.held]
  have hsync : filled.sync temporary = .ok filled :=
    Except.map_eq_ok.mpr ⟨_, locate_file (hfilled.keeps.target htarget) hentry hheld, rfl⟩
  have hfront :
      [SystemCall.create temporary, .append temporary content, .sync temporary].foldlM perform fs = .ok filled :=
    foldlM_perform_cons.mpr ⟨created, hcreate, foldlM_perform_cons.mpr ⟨filled, hfill,
      foldlM_perform_cons.mpr ⟨filled, hsync, rfl⟩⟩⟩
  cases hmove : filled.rename temporary path with
  | error error => exact .inr (.inl ⟨created, filled, error, rfl, hfilled, hfront, hmove⟩)
  | ok moved =>
    have hkeeps := (hfilled.rename hmove).keeps
    have hidle : (Writer.idleCalls path).foldlM perform moved = .ok moved := by
      unfold Writer.idleCalls
      cases hparent : Writer.parent? path with
      | none => rfl
      | some parent => exact idle_of_create htemporary hparent hcreate hkeeps
    refine .inr (.inr ⟨moved, ?_⟩)
    have hlast : (SystemCall.rename temporary path :: Writer.idleCalls path).foldlM perform filled = .ok moved :=
      foldlM_perform_cons.mpr ⟨moved, hmove, hidle⟩
    rw [Writer.replacement_eq, List.foldlM_append, hfront]
    exact hlast

/-- A renaming fails only where no file can be. -/
theorem unfit_of_rename {created filled : FileSystem} {error : FileError}
    (htemporary : Writer.temporary? path = some temporary) (hcreate : fs.create temporary = .ok created)
    (hfilled : Filled fs temporary content filled) (hmove : filled.rename temporary path = .error error) :
    ¬ IsDefinite path ∨ filled.node? (filled.destination path) = some .directory := by
  obtain ⟨target, htarget, hentry⟩ := create_target hcreate
  have hcontent : filled.file? (filled.destination temporary) = some content := by
    rw [hfilled.keeps.destination, hfilled.held]
  by_contra hfit
  obtain ⟨hdefinite, hplace⟩ := not_or.mp hfit
  obtain ⟨moved, hmoved⟩ :=
    rename_of_isDefinite htemporary (hfilled.keeps.target htarget) hentry hcontent (not_not.mp hdefinite) hplace
  rw [hmoved] at hmove
  cases hmove

theorem Moved.fit (h : Moved fs temporary path content after) :
    IsDefinite path ∧ after.node? (after.destination path) ≠ some .directory := by
  obtain ⟨target, htarget, hentry⟩ := h.entry
  refine ⟨isDefinite_of_isEntry htarget hentry, ?_⟩
  rw [h.keeps.destination, h.node?]
  exact nofun

end FileSystem

namespace Writer

open FileSystem

/-- How replacing a file goes without troubles: the temporary file is not made, or it is filled and cannot be
renamed, or all is done. -/
inductive CalmCourse (fs : FileSystem) (path : String) (content : ByteArray) :
    Except WriteFault Unit → FileSystem → List SystemCall → Prop where
  | unbegun {between : FileSystem} {made : List SystemCall} {fault : WriteFault} (hmade : Makes fs path between made) :
      CalmCourse fs path content (.error fault) between made
  | unmoved {between filled : FileSystem} {made : List SystemCall} {temporary : String} {error : FileError}
      (hmade : Makes fs path between made) (hfilled : Filled between temporary content filled)
      (hunfit : ¬ IsDefinite path ∨ filled.node? (filled.destination path) = some .directory) :
      CalmCourse fs path content (.error (.system error)) filled
        (made ++ [.create temporary, .append temporary content, .sync temporary])
  | replaced {between after : FileSystem} {made : List SystemCall} {temporary : String}
      (hmade : Makes fs path between made) (hmoved : Moved between temporary path content after) :
      CalmCourse fs path content (.ok ()) after (made ++ replacement temporary path content)

end Writer

namespace Machine

open FileSystem

theorem calmCourse_of_replace {machine : Machine} (hcalm : machine.troubles = []) (path : String)
    (content : ByteArray) :
    Writer.CalmCourse machine.files path content (Writer.replace recording path content (machine, [])).1
      (Writer.replace recording path content (machine, [])).2.1.files
      (Writer.replace recording path content (machine, [])).2.2 := by
  obtain ⟨between, made, hmakes, hbetween, ⟨fault, hfault⟩ | ⟨temporary, htemporary, hreplace⟩⟩ :=
    replace_cases machine path content
  · rw [hfault]
    exact .unbegun hmakes
  have hbetween := hbetween hcalm
  obtain ⟨error, hcreate⟩ | ⟨created, filled, error, hcreate, hfilled, hfront, hmove⟩ | ⟨after, hall⟩ :=
    between.files.replacement_cases content htemporary
  · have hrefused := @recording_performAll_error between (.create temporary) hbetween error hcreate
    rw [hreplace (hrefused _ made)]
    exact .unbegun hmakes
  · have hfilling := recording_performAll_ok hbetween hfront (.rename temporary path :: Writer.idleCalls path) made
    have hrefused := @recording_performAll_error { between with files := filled } (.rename temporary path)
      hbetween error hmove
    rw [hreplace (hfilling.trans (hrefused _ _))]
    exact .unmoved hmakes hfilled (unfit_of_rename htemporary hcreate hfilled hmove)
  · have hperformed := recording_performAll_ok hbetween hall [] made
    rw [List.append_nil] at hperformed
    rw [hreplace hperformed]
    exact .replaced hmakes (Writer.moved_of_replacement hall)

end Machine

/-! ## Writes below a root -/

namespace Writer

/-- How a write goes: it is refused at once, or takes the course of a replacement. -/
inductive Outcome (machine : Machine) (root path content : String) :
    Except WriteFault Nat → Machine → List SystemCall → Prop where
  | refused (fault : WriteFault) : Outcome machine root path content (.error fault) machine []
  | ran {answer : Except WriteFault Unit} {after : Machine} {calls : List SystemCall}
      (hplain : FilePath.isPlain path = true)
      (hcourse : Course machine.files (FilePath.join root path) content.toUTF8 answer after.files calls)
      (hcalm : machine.troubles = [] →
        CalmCourse machine.files (FilePath.join root path) content.toUTF8 answer after.files calls) :
      Outcome machine root path content (answer.map fun () => content.utf8ByteSize) after calls

theorem outcome_record (machine : Machine) (root path content : String) :
    Outcome machine root path content (record machine root path content).1
      (record machine root path content).2.1 (record machine root path content).2.2 := by
  by_cases hempty : path = ""
  · rw [hempty]
    exact .refused .emptyPath
  · unfold record
    by_cases hplain : FilePath.isPlain path = true
    · rw [write_eq_replace _ root content hempty hplain]
      have hcourse := Machine.course_of_replace machine (FilePath.join root path) content.toUTF8
      have hcalm (h : machine.troubles = []) := Machine.calmCourse_of_replace h (FilePath.join root path) content.toUTF8
      rcases hreplace : replace Machine.recording (FilePath.join root path) content.toUTF8 (machine, []) with
        ⟨answer, after, calls⟩
      rw [hreplace] at hcourse hcalm
      rw [StateM.bind_run hreplace]
      exact .ran hplain hcourse hcalm
    · rw [write_eq_escapes _ root content hempty hplain]
      exact .refused (.escapesRoot path)

end Writer

end TestMatrix
