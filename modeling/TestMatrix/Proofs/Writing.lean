import TestMatrix.Machine
import TestMatrix.Proofs.SystemCalls

/-!
# What one write touches

Writing an artifact is a sequence of system calls, any of which may fail. A machine that records what it
carries out behaves like one that does not, and the record names every file that was made, emptied,
written or moved. Apart from paths without a name, such as `.`, these all lie below the root.
-/

namespace TestMatrix

/-! ## Programs side by side -/

section
variable {σ τ α β : Type} {R : σ → τ → Prop}

/-- Two programs that answer alike from related states, and leave related states. -/
def Simulates (R : σ → τ → Prop) (x : StateM σ α) (y : StateM τ α) : Prop :=
  ∀ s t, R s t → (x s).1 = (y t).1 ∧ R (x s).2 (y t).2

theorem simulates_pure (a : α) : Simulates R (pure a) (pure a) := fun _ _ h => ⟨rfl, h⟩

theorem simulates_bind {x : StateM σ α} {y : StateM τ α} {f : α → StateM σ β} {g : α → StateM τ β}
    (h : Simulates R x y) (hf : ∀ a, Simulates R (f a) (g a)) : Simulates R (x >>= f) (y >>= g) := by
  intro s t hst
  obtain ⟨hvalue, hstate⟩ := h s t hst
  have hnext := hf (x s).1 (x s).2 (y t).2 hstate
  rw [hvalue] at hnext
  change (f (x s).1 (x s).2).1 = (g (y t).1 (y t).2).1 ∧ R (f (x s).1 (x s).2).2 (g (y t).1 (y t).2).2
  rw [hvalue]
  exact hnext

section
variable {files : FileAccess (StateM σ)} {files' : FileAccess (StateM τ)}
  (hdirectory : ∀ path, Simulates R (files.isDirectory path) (files'.isDirectory path))
include hdirectory

theorem simulates_isDirectory (path : String) (error : FileError) :
    Simulates R (do if ← files.isDirectory path then pure (.ok ()) else pure (.error error))
      (do if ← files'.isDirectory path then pure (.ok ()) else pure (Except.error error)) := by
  apply simulates_bind (hdirectory path)
  intro there
  cases there <;> exact simulates_pure _

theorem simulates_ensureDirectory {path : String}
    (h : Simulates R (files.perform (.makeDirectory path)) (files'.perform (.makeDirectory path))) :
    Simulates R (files.ensureDirectory path) (files'.ensureDirectory path) := by
  apply simulates_bind h
  intro answer
  cases answer with
  | ok u => exact simulates_pure _
  | error error => exact simulates_isDirectory hdirectory path error

theorem simulates_makeAll : ∀ {paths : List String}, (∀ path ∈ paths,
      Simulates R (files.perform (.makeDirectory path)) (files'.perform (.makeDirectory path))) →
    Simulates R (files.makeAll paths) (files'.makeAll paths)
  | [], _ => simulates_pure _
  | path :: above, h => by
    have hpath := h path List.mem_cons_self
    have habove := simulates_makeAll fun path hpath => h path (List.mem_cons_of_mem _ hpath)
    apply simulates_bind hpath
    intro answer
    cases answer with
    | ok u => exact simulates_pure _
    | error error =>
      -- only where the directory above is missing are those above made first
      by_cases hmissing : error = .notFound
      · rw [hmissing]
        apply simulates_bind habove
        intro made
        cases made with
        | ok u => exact simulates_ensureDirectory hdirectory hpath
        | error error => exact simulates_pure _
      · cases error with
        | notFound => exact absurd rfl hmissing
        | _ => exact simulates_isDirectory hdirectory path _

omit hdirectory in
theorem simulates_performAll : ∀ {calls : List SystemCall},
    (∀ call ∈ calls, Simulates R (files.perform call) (files'.perform call)) →
    Simulates R (files.performAll calls) (files'.performAll calls)
  | [], _ => simulates_pure _
  | call :: rest, h => by
    apply simulates_bind (h call List.mem_cons_self)
    intro answer
    cases answer with
    | ok u => exact simulates_performAll fun call hcall => h call (List.mem_cons_of_mem _ hcall)
    | error error => exact simulates_pure _

/-- The directories above a file, the innermost first. -/
def Writer.directories (path : String) : List String :=
  ((Writer.parent? path).map FilePath.ancestors).toList.flatten

/-- The calls that replacing a file may make. -/
def Writer.calls (path : String) (content : ByteArray) : List SystemCall :=
  (Writer.directories path).map .makeDirectory ++
    (Writer.temporary? path).toList.flatMap fun temporary => Writer.replacement temporary path content

theorem simulates_replace {path : String} {content : ByteArray}
    (h : ∀ call ∈ Writer.calls path content, Simulates R (files.perform call) (files'.perform call)) :
    Simulates R (Writer.replace files path content) (Writer.replace files' path content) := by
  have hdirectories : ∀ path' ∈ Writer.directories path,
      Simulates R (files.perform (.makeDirectory path')) (files'.perform (.makeDirectory path')) :=
    fun path' hpath => h _ (List.mem_append_left _ (List.mem_map_of_mem hpath))
  apply simulates_bind (simulates_makeAll hdirectory hdirectories)
  intro made
  cases made with
  | error error => exact simulates_pure _
  | ok u =>
    cases htemporary : Writer.temporary? path with
    | none => exact simulates_pure _
    | some temporary =>
      have hcalls : ∀ call ∈ Writer.replacement temporary path content,
          Simulates R (files.perform call) (files'.perform call) := by
        intro call hcall
        apply h
        apply List.mem_append_right
        rw [htemporary]
        simpa using hcall
      exact simulates_bind (simulates_performAll hcalls) fun _ => simulates_pure _

end

end

/-! ## Calls on a machine -/

/-- What may be done of a call: all of it, or the writing of a beginning of its data. -/
inductive SystemCall.IsPart : SystemCall → SystemCall → Prop
  | whole (call : SystemCall) : IsPart call call
  | front (path : String) (front back : ByteArray) : IsPart (.append path front) (.append path (front ++ back))

theorem SystemCall.IsPart.files_eq {part call : SystemCall} (h : part.IsPart call) : part.files = call.files := by
  cases h <;> rfl

/-- What is done of a call under a trouble, or without one. -/
def SystemCall.attempted (call : SystemCall) : Option Trouble → Option SystemCall
  | none => some call
  | some trouble =>
    match call with
    | .append path content => some (.append path (content.extract 0 trouble.written))
    | _ => none

namespace Machine

/-- The call that is carried out when this one is made, if there is one. -/
def carriedOut (machine : Machine) (call : SystemCall) : List SystemCall :=
  match call.attempted machine.trouble? with
  | none => []
  | some done =>
    match machine.files.perform done with
    | .ok _ => [done]
    | .error _ => []

/-- How a call goes: its answer, the machine afterwards and what was carried out. -/
inductive Performs (machine : Machine) (call : SystemCall) :
    Except FileError Unit → Machine → List SystemCall → Prop
  | done {files : FileSystem} (hperform : machine.files.perform call = .ok files) :
    Performs machine call (.ok ()) (machine.past files) [call]
  | refused (error : FileError) : Performs machine call (.error error) (machine.past machine.files) []
  | brokenOff {path : String} {front back : ByteArray} {files : FileSystem} (error : FileError)
    (hcall : call = .append path (front ++ back)) (happend : machine.files.append path front = .ok files) :
    Performs machine call (.error error) (machine.past files) [.append path front]

theorem performs_brokenOff (machine : Machine) (path : String) (content : ByteArray) {trouble : Trouble}
    (htrouble : machine.trouble? = some trouble) :
    Performs machine (.append path content) (machine.perform (.append path content)).1
      (machine.perform (.append path content)).2 (machine.carriedOut (.append path content)) := by
  have hdivided : content.extract 0 trouble.written ++ content.extract trouble.written content.size = content := by
    rw [ByteArray.extract_append_extract]
    simp
  unfold perform carriedOut SystemCall.attempted FileSystem.breakOff
  rw [htrouble]
  simp only [FileSystem.perform]
  cases hpart : machine.files.append path (content.extract 0 trouble.written) with
  | error error => exact .refused trouble.error
  | ok files => exact .brokenOff trouble.error (congrArg _ hdivided.symm) hpart

/-- All that a call can do. -/
theorem performs (machine : Machine) (call : SystemCall) :
    Performs machine call (machine.perform call).1 (machine.perform call).2 (machine.carriedOut call) := by
  cases htrouble : machine.trouble? with
  | none =>
    unfold perform carriedOut SystemCall.attempted
    rw [htrouble]
    dsimp only
    cases hperform : machine.files.perform call with
    | error error => exact .refused error
    | ok files => exact .done hperform
  | some trouble =>
    cases call with
    | append path content => exact performs_brokenOff machine path content htrouble
    | _ =>
      unfold perform carriedOut
      rw [htrouble]
      exact .refused trouble.error

theorem performs_files {machine after : Machine} {call : SystemCall} {answer : Except FileError Unit}
    {done : List SystemCall} (h : Performs machine call answer after done) :
    done.foldlM FileSystem.perform machine.files = .ok after.files := by
  cases h with
  | done hperform => exact Except.bind_eq_ok.mpr ⟨_, hperform, rfl⟩
  | refused => rfl
  | brokenOff _ _ happend => exact Except.bind_eq_ok.mpr ⟨_, happend, rfl⟩

theorem performs_isPart {machine after : Machine} {call : SystemCall} {answer : Except FileError Unit}
    {done : List SystemCall} (h : Performs machine call answer after done) : ∀ part ∈ done, part.IsPart call := by
  cases h with
  | done _ => exact fun part hpart => List.mem_singleton.mp hpart ▸ .whole call
  | refused => exact fun part hpart => absurd hpart List.not_mem_nil
  | brokenOff _ hcall _ => exact fun part hpart => List.mem_singleton.mp hpart ▸ hcall ▸ .front _ _ _

theorem performs_troubles {machine after : Machine} {call : SystemCall} {answer : Except FileError Unit}
    {done : List SystemCall} (h : Performs machine call answer after done) :
    after.troubles = machine.troubles.tail := by
  cases h <;> rfl

end Machine

/-! ## Recorded writes -/

/-- Files of a machine that keeps a record of what was carried out, in order. -/
def Machine.recording : FileAccess (StateM (Machine × List SystemCall)) where
  perform call run := ((run.1.perform call).1, (run.1.perform call).2, run.2 ++ run.1.carriedOut call)
  isDirectory path run := ((run.1.isDirectory path).1, (run.1.isDirectory path).2, run.2)

/-- A record that tells how a machine was reached from the first one. -/
structure Machine.Recorded (first : Machine) (may : List SystemCall) (machine : Machine)
    (run : Machine × List SystemCall) : Prop where
  same : run.1 = machine
  replayed : run.2.foldlM FileSystem.perform first.files = .ok machine.files
  among : ∀ call ∈ run.2, ∃ whole ∈ may, call.IsPart whole
  calm : first.troubles = [] → machine.troubles = []

namespace Machine

variable {first : Machine} {may : List SystemCall}

theorem simulates_recording {call : SystemCall} (h : call ∈ may) :
    Simulates (Recorded first may) (platform.files.perform call) (recording.perform call) := by
  intro machine run hrun
  obtain ⟨current, calls⟩ := run
  obtain ⟨rfl, hreplayed, hamong, hcalm⟩ := hrun
  refine ⟨rfl, rfl, ?_, fun part hpart => ?_, fun hfirst => ?_⟩
  · show (calls ++ current.carriedOut call).foldlM FileSystem.perform first.files = .ok (current.perform call).2.files
    rw [List.foldlM_append, hreplayed]
    exact performs_files (current.performs call)
  · cases List.mem_append.mp hpart with
    | inl hold => exact hamong part hold
    | inr hnew => exact ⟨call, h, performs_isPart (current.performs call) part hnew⟩
  · have hnext : (current.perform call).2.troubles = current.troubles.tail :=
      performs_troubles (current.performs call)
    exact hnext.trans (by rw [hcalm hfirst]; rfl)

theorem recorded_start (machine : Machine) (may : List SystemCall) : Recorded machine may machine (machine, []) :=
  ⟨rfl, rfl, fun _ hcall => absurd hcall List.not_mem_nil, id⟩

theorem simulates_recording_isDirectory (path : String) :
    Simulates (Recorded first may) (platform.files.isDirectory path) (recording.isDirectory path) := by
  intro machine run hrun
  obtain ⟨current, calls⟩ := run
  obtain ⟨rfl, hreplayed, hamong, hcalm⟩ := hrun
  refine ⟨rfl, rfl, hreplayed, hamong, fun hfirst => ?_⟩
  show current.troubles.tail = []
  rw [hcalm hfirst]
  rfl

end Machine

namespace Writer

/-- What comes of a write, with a record of the calls that it carried out. -/
def record (machine : Machine) (root path content : String) :
    Except WriteFault Nat × Machine × List SystemCall :=
  write Machine.recording root path content (machine, [])

section
variable {m : Type → Type} [Monad m] (files : FileAccess m) (root : String) {path : String} (content : String)

theorem write_eq_replace (hempty : path ≠ "") (hplain : FilePath.isPlain path = true) :
    write files root path content = (do
      let answer ← replace files (FilePath.join root path) content.toUTF8
      pure (answer.map fun () => content.utf8ByteSize)) := by
  unfold write
  rw [if_neg (by rw [String.isEmpty_iff]; exact hempty), if_neg (by rw [hplain]; exact Bool.false_ne_true)]

theorem write_eq_escapes (hempty : path ≠ "") (hplain : ¬ FilePath.isPlain path = true) :
    write files root path content = pure (.error (.escapesRoot path)) := by
  unfold write
  rw [if_neg (by rw [String.isEmpty_iff]; exact hempty), if_pos (by simpa using hplain)]

end

/-- Recording changes nothing, and the record says what was done. -/
theorem write_recorded (machine : Machine) (root path content : String) :
    (write Machine.platform.files root path content machine).1 = (record machine root path content).1 ∧
      Machine.Recorded machine (calls (FilePath.join root path) content.toUTF8)
        (write Machine.platform.files root path content machine).2 (record machine root path content).2 := by
  have hstart := Machine.recorded_start machine (calls (FilePath.join root path) content.toUTF8)
  unfold record
  by_cases hempty : path = ""
  · rw [hempty] at hstart ⊢
    exact ⟨rfl, hstart⟩
  · by_cases hplain : FilePath.isPlain path = true
    · rw [write_eq_replace _ root content hempty hplain, write_eq_replace _ root content hempty hplain]
      refine simulates_bind (simulates_replace Machine.simulates_recording_isDirectory fun _ hcall =>
        Machine.simulates_recording hcall) (fun answer => ?_) machine (machine, []) hstart
      exact simulates_pure _
    · rw [write_eq_escapes _ root content hempty hplain, write_eq_escapes _ root content hempty hplain]
      exact ⟨rfl, hstart⟩

theorem write_eq_record (machine : Machine) (root path content : String) :
    write Machine.platform.files root path content machine =
      ((record machine root path content).1, (record machine root path content).2.1) := by
  obtain ⟨hvalue, hrecorded⟩ := write_recorded machine root path content
  exact Prod.ext hvalue hrecorded.same.symm

end Writer

/-! ## Calls in a row -/

namespace FileSystem

variable {fs after : FileSystem}

theorem foldlM_perform_cons {call : SystemCall} {calls : List SystemCall} :
    (call :: calls).foldlM perform fs = .ok after ↔
      ∃ next, fs.perform call = .ok next ∧ calls.foldlM perform next = .ok after := by
  rw [List.foldlM_cons, Except.bind_eq_ok]

theorem foldlM_perform_keepsDirectories {calls : List SystemCall}
    (h : calls.foldlM perform fs = .ok after) : KeepsDirectories fs after := by
  induction calls generalizing fs with
  | nil =>
    cases h
    exact .refl _
  | cons call rest ih =>
    obtain ⟨next, hcall, hrest⟩ := foldlM_perform_cons.mp h
    exact (perform_keepsDirectories hcall).trans (ih hrest)

theorem exists_perform_of_mem {calls : List SystemCall} (h : calls.foldlM perform fs = .ok after)
    {call : SystemCall} (hcall : call ∈ calls) : ∃ before next, perform before call = .ok next := by
  induction calls generalizing fs with
  | nil => cases hcall
  | cons first rest ih =>
    obtain ⟨next, hfirst, hrest⟩ := foldlM_perform_cons.mp h
    cases List.mem_cons.mp hcall with
    | inl heq => exact ⟨fs, next, heq ▸ hfirst⟩
    | inr hmem => exact ih hrest hmem

/-- What one call does not change away from its paths, calls in a row do not change away from theirs. -/
theorem foldlM_perform_frame {α : Type} (observe : FileSystem → α) {paths : SystemCall → List String}
    {location : Location} (hcall : ∀ {fs after : FileSystem} {call : SystemCall}, fs.perform call = .ok after →
      (∀ path ∈ paths call, location ≠ fs.destination path) → observe after = observe fs)
    {calls : List SystemCall} (h : calls.foldlM perform fs = .ok after)
    (hlocation : ∀ call ∈ calls, ∀ path ∈ paths call, location ≠ fs.destination path) :
    observe after = observe fs := by
  induction calls generalizing fs with
  | nil =>
    cases h
    rfl
  | cons call rest ih =>
    obtain ⟨next, hfirst, hrest⟩ := foldlM_perform_cons.mp h
    obtain ⟨hhere, hlater⟩ := List.forall_mem_cons.mp hlocation
    have hkeeps := perform_keepsDirectories hfirst
    have hnext : ∀ call ∈ rest, ∀ path ∈ paths call, location ≠ next.destination path := by
      intro call hmem path hpath
      rw [hkeeps.destination]
      exact hlater call hmem path hpath
    rw [ih hrest hnext]
    exact hcall hfirst hhere

theorem foldlM_perform_file? {calls : List SystemCall} (h : calls.foldlM perform fs = .ok after)
    {location : Location} (hlocation : ∀ call ∈ calls, ∀ path ∈ call.files, location ≠ fs.destination path) :
    after.file? location = fs.file? location :=
  foldlM_perform_frame (fun current => current.file? location) (fun hcall => perform_file? hcall) h hlocation

end FileSystem

/-! ## Below the root -/

/-- A machine without files. -/
def Machine.blank : Machine := Machine.ofFiles ⟨[], []⟩

/-- Strictly below a directory. -/
def IsBelow (root location : Location) : Prop := ∃ names, names ≠ [] ∧ location = root ++ names

namespace Writer

theorem files_of_mem_calls {path file : String} {content : ByteArray} {call : SystemCall}
    (h : call ∈ calls path content) (hfile : file ∈ call.files) :
    ∃ temporary, temporary? path = some temporary ∧
      (file = temporary ∨ file = path ∧ call = .rename temporary path) := by
  cases List.mem_append.mp h with
  | inl hdirectory =>
    obtain ⟨directory, -, rfl⟩ := List.mem_map.mp hdirectory
    cases hfile
  | inr hreplacement =>
    obtain ⟨temporary, htemporary, hcall⟩ := List.mem_flatMap.mp hreplacement
    refine ⟨temporary, Option.mem_toList.mp htemporary, ?_⟩
    unfold replacement at hcall
    cases List.mem_append.mp hcall with
    | inl hfirst =>
      rw [List.mem_cons, List.mem_cons, List.mem_cons, List.mem_singleton] at hfirst
      obtain rfl | rfl | rfl | rfl := hfirst
      · exact .inl (List.mem_singleton.mp hfile)
      · exact .inl (List.mem_singleton.mp hfile)
      · cases hfile
      · rw [SystemCall.files, List.mem_cons, List.mem_singleton] at hfile
        exact hfile.imp id fun h => ⟨h, rfl⟩
    | inr hopen =>
      obtain ⟨parent, -, hparent⟩ := List.mem_flatMap.mp hopen
      rw [List.mem_cons, List.mem_singleton] at hparent
      obtain rfl | rfl := hparent <;> cases hfile

/-- A path without names ends in `.`, which is no place for a file. -/
theorem not_isEntry_of_nameless {root path : String} {fs : FileSystem} {target : FileSystem.Target}
    (hempty : path ≠ "") (hplain : FilePath.isPlain path = true) (hnames : FilePath.names path = [])
    (htarget : fs.target (FilePath.join root path) = .ok target) : ¬ target.IsEntry := by
  intro hentry
  obtain ⟨hrelative, -⟩ := (FilePath.isPlain_iff path).mp hplain
  have hparts : slashParts path ≠ [] := by
    intro hnil
    rw [isAbsolute_of_slashParts_eq_nil hempty hnil] at hrelative
    cases hrelative
  obtain ⟨init, name, hlast⟩ := (List.eq_nil_or_concat' _).resolve_left hparts
  have hdot : name = "." := by
    unfold FilePath.names at hnames
    rw [hlast, List.filter_append, List.append_eq_nil_iff] at hnames
    by_contra hname
    rw [List.filter_cons_of_pos (by simpa using hname)] at hnames
    cases hnames.2
  have hname := fs.target_name htarget
  rw [slashParts_join root hrelative, hlast, ← List.append_assoc, List.getLast?_concat, hdot] at hname
  have hnamed := hentry.named
  unfold FileSystem.Target.isNamed at hnamed
  rw [hname] at hnamed
  cases hnamed

/-- The files of a recorded call lie below the root, or, for a path without names, beside it. -/
theorem recorded_below {machine after : Machine} {calls : List SystemCall} {root path : String}
    {content : ByteArray} (hempty : path ≠ "") (hplain : FilePath.isPlain path = true)
    (hreplayed : calls.foldlM FileSystem.perform machine.files = .ok after.files)
    (hamong : ∀ call ∈ calls, ∃ whole ∈ Writer.calls (FilePath.join root path) content, call.IsPart whole) :
    ∀ call ∈ calls, ∀ file ∈ call.files,
      IsBelow (machine.files.destination root) (machine.files.destination file) ∨
        FilePath.names path = [] ∧
          machine.files.destination file = beside (machine.files.destination root) := by
  intro call hcall file hfile
  obtain ⟨whole, hwhole, hpart⟩ := hamong call hcall
  rw [hpart.files_eq] at hfile
  obtain ⟨temporary, htemporary, hcases⟩ := files_of_mem_calls hwhole hfile
  have hjoin := machine.files.destination_join root hplain
  have hbeside := machine.files.destination_temporary htemporary
  rw [hjoin] at hbeside
  by_cases hnames : FilePath.names path = []
  · cases hcases with
    | inl h =>
      rw [hnames, List.append_nil] at hbeside
      exact .inr ⟨hnames, by rw [h, hbeside]⟩
    | inr h =>
      -- a recorded call has succeeded once, and this renaming cannot
      obtain ⟨before, next, hperform⟩ := FileSystem.exists_perform_of_mem hreplayed hcall
      have hrename : call = .rename temporary (FilePath.join root path) := by
        rw [h.2] at hpart
        cases hpart
        rfl
      rw [hrename] at hperform
      obtain ⟨target, -, htarget, hentry, -⟩ := FileSystem.rename_ok hperform
      exact absurd hentry (not_isEntry_of_nameless hempty hplain hnames htarget)
  · cases hcases with
    | inl h =>
      rw [beside_append _ hnames] at hbeside
      refine .inl ⟨beside (FilePath.names path), ?_, by rw [h, hbeside]⟩
      obtain ⟨init, name, hlast⟩ := (List.eq_nil_or_concat' _).resolve_left hnames
      rw [hlast, beside_concat]
      exact List.concat_ne_nil _ _
    | inr h => exact .inl ⟨FilePath.names path, hnames, by rw [h.1, hjoin]⟩

/-- What a write makes, empties, writes or moves lies strictly below the root, and a rejected path makes
it do nothing. For a path without names, such as `.`, the temporary file lies beside the root. -/
theorem touches_below_root (machine : Machine) (root path content : String) :
    (write Machine.platform.files root path content machine =
        ((record machine root path content).1, (record machine root path content).2.1) ∧
      (record machine root path content).2.2.foldlM FileSystem.perform machine.files =
        .ok (record machine root path content).2.1.files) ∧
    (path = "" → record machine root path content = (.error .emptyPath, machine, [])) ∧
    (path ≠ "" → FilePath.isPlain path = false →
      record machine root path content = (.error (.escapesRoot path), machine, [])) ∧
    (path ≠ "" → FilePath.isPlain path = true →
      (∀ call ∈ (record machine root path content).2.2, ∀ file ∈ call.files,
        IsBelow (machine.files.destination root) (machine.files.destination file) ∨
          FilePath.names path = [] ∧
            machine.files.destination file = beside (machine.files.destination root)) ∧
      ∀ location, ¬ IsBelow (machine.files.destination root) location →
        ¬ (FilePath.names path = [] ∧ location = beside (machine.files.destination root)) →
        (record machine root path content).2.1.files.file? location = machine.files.file? location) := by
  obtain ⟨-, hrecorded⟩ := write_recorded machine root path content
  have hreplayed := hrecorded.replayed
  rw [← hrecorded.same] at hreplayed
  refine ⟨⟨write_eq_record machine root path content, hreplayed⟩, fun hempty => ?_, fun hempty hescapes => ?_,
    fun hempty hplain => ?_⟩
  · rw [hempty]
    rfl
  · unfold record
    rw [write_eq_escapes _ root content hempty (by rw [hescapes]; exact Bool.false_ne_true)]
    rfl
  · have hbelow := recorded_below hempty hplain hreplayed hrecorded.among
    refine ⟨hbelow, fun location hoff hbeside => ?_⟩
    apply FileSystem.foldlM_perform_file? hreplayed
    intro call hcall file hfile hsame
    rw [hsame] at hoff hbeside
    exact (hbelow call hcall file hfile).elim hoff hbeside

/-- Idle parts of a path do not lead away from the root. -/
theorem nested_write_below :
    (∀ call ∈ (record Machine.blank "out" "./a//b" "x").2.2, ∀ file ∈ call.files,
      IsBelow (Machine.blank.files.destination "out") (Machine.blank.files.destination file)) ∧
    (record Machine.blank "out" "./a//b" "x").2.2.length = 8 := by
  obtain ⟨-, -, -, h⟩ := touches_below_root Machine.blank "out" "./a//b" "x"
  have haccepted := h (by decide) (by decide)
  have hnames : FilePath.names "./a//b" ≠ [] := by decide
  refine ⟨fun call hcall file hfile => ?_, by decide +kernel⟩
  exact (haccepted.1 call hcall file hfile).resolve_right fun hnameless => hnames hnameless.1

/-- The path `.` is accepted, but its temporary file is made beside the root and stays there. -/
theorem dot_written_beside_root :
    FilePath.isPlain "." = true ∧ FilePath.fileName? "out" = some "out" ∧
    (record Machine.blank "out" "." "x").2.2.flatMap SystemCall.files = [".out.tmp", ".out.tmp"] ∧
    (record Machine.blank "out" "." "x").2.1.files.isFile ".out.tmp" = true ∧
    ¬ IsBelow (Machine.blank.files.destination "out") (Machine.blank.files.destination ".out.tmp") := by
  have hroot : Machine.blank.files.destination "out" = ["out"] := by decide
  have htemporary : Machine.blank.files.destination ".out.tmp" = [".out.tmp"] := by decide
  refine ⟨by decide, by decide, by decide +kernel, by decide +kernel, ?_⟩
  rw [hroot, htemporary]
  intro h
  obtain ⟨names, -, heq⟩ := h
  exact absurd (List.cons.inj heq).1 (by decide)

end Writer

end TestMatrix
